import CommandLine.Value.Conversion
import Mathlib.Data.List.Forall2

/-!
# The values of a type

A converted value has the shape of its type: one text gives a scalar of the type, a list type or
several texts give a list with one such scalar for each text. Nothing is said of the scalars of a
custom type, which are whatever its reader makes.
-/

namespace CommandLine

/-- What the relation between the members of two lists says of a member holds of all in the first
list. -/
theorem Sequence.forall_mem_of_forall₂ {A B : Type} {R : A → B → Prop} {p : A → Prop} {first : List A}
    {second : List B} (h : List.Forall₂ R first second) (hR : ∀ a b, R a b → p a) :
    ∀ a ∈ first, p a :=
  ((List.forall₂_and_left first second).mp (h.imp fun a b hab => ⟨hR a b hab, hab⟩)).1

namespace ValueType

variable {type : ValueType} {raw : String} {raws : List String} {value : Value}

/-- A scalar of a type, or of the innermost type of a list type. -/
def IsScalar : ValueType → Value → Prop
  | .bool, value => ∃ truth, value = .bool truth
  | .string, value => ∃ text, value = .string text
  | .int, value => ∃ number, value = .int number
  | .uint, value => ∃ number, value = .uint number
  | .float, value => ∃ number, value = .float number
  | .path, value => ∃ text, value = .path text
  | .choice texts, value => ∃ text ∈ texts, value = .string text
  | .custom _ _, _ => True
  | .list inner, value => inner.IsScalar value

/-- A value that a number of texts can stand for: a list of scalars, or a single one. -/
def IsValue (type : ValueType) (count : ℕ) (value : Value) : Prop :=
  if type.isList ∨ 1 < count then
    ∃ items, value = .list items ∧ items.length = count ∧ ∀ item ∈ items, type.IsScalar item
  else type.IsScalar value

/-- Reading one text gives a scalar of the type. -/
theorem isScalar_of_readScalar (h : type.readScalar raw = some value) : type.IsScalar value := by
  induction type with
  | bool =>
    obtain ⟨truth, -, rfl⟩ := Option.map_eq_some_iff.mp h
    exact ⟨truth, rfl⟩
  | string => exact ⟨raw, (Option.some.inj h).symm⟩
  | int =>
    obtain ⟨number, -, rfl⟩ := Option.map_eq_some_iff.mp h
    exact ⟨number, rfl⟩
  | uint =>
    obtain ⟨number, -, rfl⟩ := Option.map_eq_some_iff.mp h
    exact ⟨number, rfl⟩
  | float =>
    obtain ⟨number, -, rfl⟩ := Option.map_eq_some_iff.mp h
    exact ⟨number, rfl⟩
  | path => exact ⟨raw, (Option.some.inj h).symm⟩
  | choice texts =>
    simp only [readScalar] at h
    split at h
    · exact ⟨raw, ‹_›, (Option.some.inj h).symm⟩
    · simp at h
  | custom name read => trivial
  | list inner ih => exact ih h

/-- Reading one text succeeds with the value that it stands for. -/
theorem readOne_eq_ok_iff : type.readOne raw = .ok value ↔ type.readScalar raw = some value := by
  unfold readOne
  cases type.readScalar raw <;> simp

/-- Reading several texts succeeds with the values of each, in order. -/
theorem readEach_eq_ok_iff {values : List Value} : type.readEach raws = .ok values ↔
    List.Forall₂ (fun raw value => type.readScalar raw = some value) raws values := by
  induction raws generalizing values with
  | nil => cases values <;> simp [readEach]
  | cons raw raws ih =>
    simp only [readEach]
    cases hfirst : type.readScalar raw with
    | none => cases values <;> simp [readOne, hfirst]
    | some first =>
      rw [readOne_eq_ok_iff.mpr hfirst]
      cases hrest : type.readEach raws with
      | error error => cases values <;> simp [← ih, hrest]
      | ok rest => cases values <;> simp [← ih, hrest, hfirst]

/-- The first of several texts that a type does not accept. -/
structure Refuses (type : ValueType) (raws before : List String) (raw : String)
    (after : List String) : Prop where
  split : raws = before ++ raw :: after
  accepted : ∀ earlier ∈ before, (type.readScalar earlier).isSome
  refused : type.readScalar raw = none

/-- Reading several texts fails with the first one that the type does not accept. -/
theorem exists_refuses_of_readEach {error : ConversionError} (h : type.readEach raws = .error error) :
    ∃ before raw after, type.Refuses raws before raw after ∧ error = .invalid raw type.name := by
  induction raws with
  | nil => cases h
  | cons first rest ih =>
    rw [readEach, readOne] at h
    cases hfirst : type.readScalar first with
    | none =>
      simp only [hfirst, Except.error.injEq] at h
      exact ⟨[], first, rest, ⟨rfl, nofun, hfirst⟩, h.symm⟩
    | some value =>
      cases hrest : type.readEach rest with
      | ok values => simp [hfirst, hrest] at h
      | error other =>
        simp only [hfirst, hrest, Except.error.injEq] at h
        subst h
        obtain ⟨before, raw, after, ⟨rfl, haccepted, hrefused⟩, herror⟩ := ih hrest
        refine ⟨first :: before, raw, after, ⟨rfl, ?_, hrefused⟩, herror⟩
        rw [List.forall_mem_cons]
        exact ⟨by rw [hfirst]; rfl, haccepted⟩

/-! ## One text and several -/

/-- Without a list type, and with no more than one text, there is no text or just one. -/
theorem eq_nil_or_singleton (h : ¬ (type.isList = true ∨ 1 < raws.length)) :
    raws = [] ∨ ∃ raw, raws = [raw] := by
  cases raws with
  | nil => exact Or.inl rfl
  | cons raw rest =>
    have hrest : rest = [] := by
      rw [← List.length_eq_zero_iff]
      have hlength := (not_or.mp h).2
      rw [List.length_cons] at hlength
      omega
    exact Or.inr ⟨raw, by rw [hrest]⟩

/-- With a list type or more than one text, the texts are read each on its own. -/
theorem convert_of_several (h : type.isList = true ∨ 1 < raws.length) :
    type.convert raws = (type.readEach raws).map .list := by
  unfold convert
  rw [if_pos (by simpa using h)]

/-- One text of a scalar type is read as it is. -/
theorem convert_singleton (h : type.isList = false) (raw : String) :
    type.convert [raw] = type.readOne raw := by
  unfold convert
  rw [if_neg (by simp [h])]

/-- With a list type or more than one text, a success is the list of what the texts are read as. -/
theorem exists_items_of_convert {value : Value} (h : type.convert raws = .ok value)
    (hseveral : type.isList = true ∨ 1 < raws.length) :
    ∃ items, value = .list items ∧
      List.Forall₂ (fun raw item => type.readScalar raw = some item) raws items := by
  rw [convert_of_several hseveral] at h
  cases heach : type.readEach raws with
  | error error => simp [heach, Except.map] at h
  | ok items =>
    rw [heach] at h
    exact ⟨items, (Except.ok.inj h).symm, readEach_eq_ok_iff.mp heach⟩

/-- Texts are converted unless one of them is not accepted, and then the first such one is named. -/
theorem exists_refuses_of_convert {error : ConversionError} (hraws : raws ≠ [])
    (h : type.convert raws = .error error) :
    ∃ before raw after, type.Refuses raws before raw after ∧ error = .invalid raw type.name := by
  by_cases hseveral : type.isList = true ∨ 1 < raws.length
  · rw [convert_of_several hseveral] at h
    cases heach : type.readEach raws with
    | ok values => simp [heach, Except.map] at h
    | error other =>
      simp only [heach, Except.map, Except.error.injEq] at h
      subst h
      exact exists_refuses_of_readEach heach
  · -- Reading the only text is reading each.
    obtain ⟨hlist, -⟩ := not_or.mp hseveral
    obtain ⟨raw, rfl⟩ := (eq_nil_or_singleton hseveral).resolve_left hraws
    rw [convert_singleton (by simpa using hlist)] at h
    apply exists_refuses_of_readEach
    rw [readEach, h]

/-- Without texts there is a value for a list and for a truth value only. -/
theorem convert_nil (type : ValueType) :
    type.convert [] =
      if type.isList then .ok (.list [])
      else if type.isBool then .ok (.bool true)
      else .error (.missing type.name) := by
  cases type <;> rfl

/-- A converted value has the shape of its type. -/
theorem isValue_of_convert (h : type.convert raws = .ok value) :
    type.IsValue raws.length value := by
  unfold IsValue
  by_cases hseveral : type.isList = true ∨ 1 < raws.length
  · rw [if_pos hseveral]
    obtain ⟨items, rfl, hitems⟩ := exists_items_of_convert h hseveral
    exact ⟨items, rfl, hitems.length_eq.symm,
      Sequence.forall_mem_of_forall₂ hitems.flip fun _ _ => isScalar_of_readScalar⟩
  · rw [if_neg hseveral]
    obtain ⟨hlist, -⟩ := not_or.mp hseveral
    rcases eq_nil_or_singleton hseveral with rfl | ⟨raw, rfl⟩
    · rw [convert_nil, if_neg hlist] at h
      cases type with
      | bool => exact ⟨true, (Except.ok.inj h).symm⟩
      | _ => simp [isBool] at h
    · rw [convert_singleton (by simpa using hlist)] at h
      exact isScalar_of_readScalar (readOne_eq_ok_iff.mp h)

end ValueType

end CommandLine
