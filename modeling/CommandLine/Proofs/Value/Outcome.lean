import CommandLine.Proofs.Value.Conversion

/-!
# What raw texts are converted to

The raw texts of an argument are converted all together or not at all. A list type reads each of them
with its innermost type, at whatever depth that is; so what counts is whether this type reads every
text, and whether a text has to be there. A success then holds one value for each text, in order, and
a failure names the first text that is not read.

`Converts` says this of an outcome without the way in which it is computed, and leaves no choice: for
each type and all texts there is one such outcome, and it is the one that conversion gives.
-/

namespace CommandLine.ValueType

/-- The type that texts are read with: the type itself, or what a list type is a list of. -/
def innermost : ValueType → ValueType
  | .list inner => inner.innermost
  | type => type

/-- Whether a type brings a reader of its own, which may make any value of a text. -/
def isCustom : ValueType → Bool
  | .custom _ _ => true
  | _ => false

/-- What raw texts of a type are to be converted to. -/
structure Converts (type : ValueType) (raws : List String)
    (outcome : Except ConversionError Value) : Prop where
  /-- It is a success if every text is read, and if there is one or none is needed. -/
  succeeds : (∃ value, outcome = .ok value) ↔
    (∀ raw ∈ raws, (type.innermost.readScalar raw).isSome) ∧
      (raws ≠ [] ∨ type.isBool = true ∨ type.isList = true)
  /-- A list type, or more than one text, gives a flat list with the value of each text in its
  place. -/
  several : ∀ value, outcome = .ok value → type.isList = true ∨ 1 < raws.length →
    ∃ items, value = .list items ∧
      List.Forall₂ (fun raw item => type.innermost.readScalar raw = some item) raws items ∧
      (type.innermost.isCustom = false → ∀ item ∈ items, ∀ nested, item ≠ .list nested)
  /-- One text of a scalar type gives its value, which is of the kind that the type says. -/
  single : ∀ value raw, outcome = .ok value → type.isList = false → raws = [raw] →
    type.readScalar raw = some value ∧ type.IsScalar value
  /-- No text stands for a flag that was given, or for an empty list. -/
  none : ∀ value, outcome = .ok value → raws = [] →
    (type.isBool = true → value = .bool true) ∧ (type.isList = true → value = .list [])
  /-- A failure with texts names the first one that is not read, and the type. -/
  refused : ∀ error, outcome = .error error → raws ≠ [] → ∃ before raw after,
    type.innermost.Refuses raws before raw after ∧ error = .invalid raw type.name
  missing : ∀ error, outcome = .error error → raws = [] → error = .missing type.name

variable {type : ValueType} {raws : List String} {outcome : Except ConversionError Value}

/-! ## The innermost type -/

/-- A type reads texts as its innermost type does. -/
theorem readScalar_innermost (type : ValueType) (raw : String) :
    type.innermost.readScalar raw = type.readScalar raw := by
  induction type with
  | list inner ih => exact ih
  | _ => rfl

/-- A type does not read the texts that its innermost type does not read. -/
theorem Refuses.innermost {before after : List String} {raw : String}
    (h : type.Refuses raws before raw after) : type.innermost.Refuses raws before raw after where
  split := h.split
  accepted earlier hearlier := by
    rw [readScalar_innermost]
    exact h.accepted earlier hearlier
  refused := by rw [readScalar_innermost, h.refused]

/-- A scalar is no list, unless it comes from a custom reader. -/
theorem IsScalar.ne_list {value : Value} (h : type.IsScalar value)
    (hcustom : type.innermost.isCustom = false) (nested : List Value) : value ≠ .list nested := by
  induction type with
  | list inner ih => exact ih h hcustom
  | custom name read => cases hcustom
  | choice texts =>
    obtain ⟨text, -, rfl⟩ := h
    exact nofun
  | _ =>
    obtain ⟨content, rfl⟩ := h
    exact nofun

/-- The first text that is not read is found by looking for one. -/
theorem Refuses.find? {before after : List String} {raw : String}
    (h : type.Refuses raws before raw after) :
    raws.find? (fun raw => (type.readScalar raw).isNone) = some raw := by
  have hbefore : before.find? (fun raw => (type.readScalar raw).isNone) = Option.none := by
    rw [List.find?_eq_none]
    intro earlier hearlier hnone
    have hsome := h.accepted earlier hearlier
    rw [Option.isNone_iff_eq_none.mp hnone] at hsome
    cases hsome
  rw [h.split, List.find?_append, hbefore, Option.none_or, List.find?_cons_of_pos]
  rw [h.refused]
  rfl

/-! ## There is one outcome -/

/-- Texts are to be converted to one value at most. -/
theorem Converts.value_unique {value other : Value} (h : type.Converts raws (.ok value))
    (hother : type.Converts raws (.ok other)) : value = other := by
  by_cases hseveral : type.isList = true ∨ 1 < raws.length
  · obtain ⟨items, rfl, hitems, -⟩ := h.several value rfl hseveral
    obtain ⟨others, rfl, hothers, -⟩ := hother.several other rfl hseveral
    have hunique : Relator.RightUnique fun raw item => type.innermost.readScalar raw = some item :=
      fun raw item again hitem hagain => Option.some.inj (hitem.symm.trans hagain)
    rw [List.right_unique_forall₂' hunique hitems hothers]
  · have hscalar : type.isList = false := by simpa using (not_or.mp hseveral).1
    rcases eq_nil_or_singleton hseveral with hnil | ⟨raw, hraw⟩
    · have hneeded := (h.succeeds.mp ⟨value, rfl⟩).2
      have hbool : type.isBool = true :=
        (hneeded.resolve_left fun hne => hne hnil).resolve_right (not_or.mp hseveral).1
      rw [(h.none value rfl hnil).1 hbool, (hother.none other rfl hnil).1 hbool]
    · have hread := (h.single value raw rfl hscalar hraw).1
      rw [(hother.single other raw rfl hscalar hraw).1] at hread
      exact (Option.some.inj hread).symm

/-- Texts are to be refused with one error at most. -/
theorem Converts.error_unique {error other : ConversionError} (h : type.Converts raws (.error error))
    (hother : type.Converts raws (.error other)) : error = other := by
  by_cases hnil : raws = []
  · rw [h.missing error rfl hnil, hother.missing other rfl hnil]
  · obtain ⟨_, raw, _, hrefuses, rfl⟩ := h.refused error rfl hnil
    obtain ⟨_, again, _, hagain, rfl⟩ := hother.refused other rfl hnil
    have hfirst := hrefuses.find?
    rw [hagain.find?] at hfirst
    rw [Option.some.inj hfirst]

/-- Texts are to be converted to one outcome at most. -/
theorem Converts.unique {other : Except ConversionError Value} (h : type.Converts raws outcome)
    (hother : type.Converts raws other) : outcome = other := by
  cases outcome with
  | ok value =>
    obtain ⟨again, rfl⟩ := hother.succeeds.mpr (h.succeeds.mp ⟨value, rfl⟩)
    rw [h.value_unique hother]
  | error error =>
    cases other with
    | ok again =>
      obtain ⟨value, hvalue⟩ := h.succeeds.mpr (hother.succeeds.mp ⟨again, rfl⟩)
      cases hvalue
    | error second => rw [h.error_unique hother]

/-! ## What conversion gives -/

/-- Texts that are converted are all read. -/
theorem isSome_of_convert {value : Value} (h : type.convert raws = .ok value) :
    ∀ raw ∈ raws, (type.readScalar raw).isSome := by
  by_cases hseveral : type.isList = true ∨ 1 < raws.length
  · obtain ⟨items, -, hitems⟩ := exists_items_of_convert h hseveral
    exact Sequence.forall_mem_of_forall₂ hitems fun raw item hitem =>
      Option.isSome_iff_exists.mpr ⟨item, hitem⟩
  · rcases eq_nil_or_singleton hseveral with rfl | ⟨raw, rfl⟩
    · exact nofun
    · have hscalar : type.isList = false := by simpa using (not_or.mp hseveral).1
      rw [convert_singleton hscalar, readOne_eq_ok_iff] at h
      rw [List.forall_mem_singleton, h]
      rfl

/-- Without texts, flags and lists are converted, and nothing else. -/
theorem convert_nil_cases (type : ValueType) :
    (type.isBool = true ∧ type.isList = false ∧ type.convert [] = .ok (.bool true)) ∨
      (type.isBool = false ∧ type.isList = true ∧ type.convert [] = .ok (.list [])) ∨
      (type.isBool = false ∧ type.isList = false ∧
        type.convert [] = .error (.missing type.name)) := by
  rw [convert_nil]
  cases type <;> simp [isBool, isList]

/-- Conversion succeeds if every text is read, and if there is one or none is needed. -/
theorem exists_convert_iff (type : ValueType) (raws : List String) :
    (∃ value, type.convert raws = .ok value) ↔
      (∀ raw ∈ raws, (type.innermost.readScalar raw).isSome) ∧
        (raws ≠ [] ∨ type.isBool = true ∨ type.isList = true) := by
  simp only [readScalar_innermost]
  by_cases hnil : raws = []
  · subst hnil
    rcases convert_nil_cases type with ⟨hbool, hlist, hconvert⟩ | ⟨hbool, hlist, hconvert⟩ |
      ⟨hbool, hlist, hconvert⟩ <;> simp [hbool, hlist, hconvert]
  · refine ⟨fun ⟨value, hvalue⟩ => ⟨isSome_of_convert hvalue, Or.inl hnil⟩, fun h => ?_⟩
    cases hconvert : type.convert raws with
    | ok value => exact ⟨value, rfl⟩
    | error error =>
      obtain ⟨before, raw, after, hrefuses, -⟩ := exists_refuses_of_convert hnil hconvert
      have hsome := h.1 raw (by rw [hrefuses.split]; simp)
      rw [hrefuses.refused] at hsome
      cases hsome

/-- What texts are converted to is what they are to be converted to. -/
theorem converts_convert (type : ValueType) (raws : List String) :
    type.Converts raws (type.convert raws) where
  succeeds := exists_convert_iff type raws
  several value hvalue hseveral := by
    obtain ⟨items, rfl, hitems⟩ := exists_items_of_convert hvalue hseveral
    simp only [readScalar_innermost]
    refine ⟨items, rfl, hitems, fun hcustom => ?_⟩
    exact Sequence.forall_mem_of_forall₂ hitems.flip fun item raw hraw =>
      (isScalar_of_readScalar hraw).ne_list hcustom
  single value raw hvalue hscalar hraw := by
    rw [hraw, convert_singleton hscalar, readOne_eq_ok_iff] at hvalue
    exact ⟨hvalue, isScalar_of_readScalar hvalue⟩
  none value hvalue hnil := by
    rw [hnil] at hvalue
    rcases convert_nil_cases type with ⟨hbool, hlist, hconvert⟩ | ⟨hbool, hlist, hconvert⟩ |
      ⟨hbool, hlist, hconvert⟩ <;> rw [hconvert] at hvalue <;> simp_all
  refused error herror hne := by
    obtain ⟨before, raw, after, hrefuses, rfl⟩ := exists_refuses_of_convert hne herror
    exact ⟨before, raw, after, hrefuses.innermost, rfl⟩
  missing error herror hnil := by
    rw [hnil] at herror
    rcases convert_nil_cases type with ⟨-, -, hconvert⟩ | ⟨-, -, hconvert⟩ | ⟨-, -, hconvert⟩ <;>
      rw [hconvert] at herror <;> cases herror
    rfl

/-- For a type of any depth and any raw texts, conversion gives an outcome exactly if it is the one
that they are to be converted to. -/
theorem convert_eq_iff : type.convert raws = outcome ↔ type.Converts raws outcome :=
  ⟨fun h => h ▸ converts_convert type raws, (converts_convert type raws).unique⟩

end CommandLine.ValueType
