import Mathlib.Data.List.Nodup
import Mathlib.Data.List.Perm.Basic

/-!
# Lists split by a key

A report holds the values of a command line one binding at a time, while the readings give them
one token at a time. The two lists agree up to order, which is a fact about splitting any list over
distinct keys.
-/

namespace CommandLine.Sequence

variable {A B K : Type}

/-- Erasing repeats leaves none. -/
theorem nodup_eraseDups [DecidableEq A] (values : List A) : values.eraseDups.Nodup := by
  induction hlength : values.length using Nat.strongRecOn generalizing values with
  | ind length ih =>
    cases values with
    | nil => simp
    | cons first rest =>
      rw [List.eraseDups_cons, List.nodup_cons, List.mem_eraseDups]
      refine ⟨by simp, ih _ ?_ _ rfl⟩
      rw [← hlength, List.length_cons]
      exact Nat.lt_succ_of_le (List.length_filter_le _ _)

/-- Making something of the members with a property is filtering first. -/
theorem filterMap_ite (p : A → Bool) (make : A → B) (values : List A) :
    (values.filterMap fun value => if p value then some (make value) else none) =
      (values.filter p).map make := by
  induction values with
  | nil => rfl
  | cons value rest ih => cases hvalue : p value <;> simp [hvalue, ih]

/-- Of distinct keys only the one that is looked for gives its part. -/
theorem flatMap_ite_eq [DecidableEq K] {keys : List K} (hkeys : keys.Nodup) (key : Option K)
    (part : List B) (hcover : part ≠ [] → ∃ k ∈ keys, key = some k) :
    (keys.flatMap fun k => if key = some k then part else []) = part := by
  by_cases hpart : part = []
  · simp [hpart]
  · obtain ⟨k, hk, rfl⟩ := hcover hpart
    obtain ⟨before, after, rfl⟩ := List.append_of_mem hk
    rw [List.nodup_append, List.nodup_cons] at hkeys
    obtain ⟨-, ⟨hafter, -⟩, hbefore⟩ := hkeys
    have hnone : ∀ other : List K, k ∉ other →
        (other.flatMap fun l => if some k = some l then part else []) = [] := by
      intro other hother
      rw [List.flatMap_eq_nil_iff]
      intro l hl
      rw [if_neg]
      rintro ⟨⟩
      exact hother hl
    rw [List.flatMap_append, List.flatMap_cons, if_pos rfl, hnone after hafter,
      hnone before (fun hmem => hbefore k hmem k List.mem_cons_self rfl)]
    simp

/-- A list split over distinct keys that cover it is the list up to order. -/
theorem flatMap_split_perm [DecidableEq K] {keys : List K} (hkeys : keys.Nodup) (key : A → Option K)
    (part : A → List B) (values : List A)
    (hcover : ∀ value ∈ values, part value ≠ [] → ∃ k ∈ keys, key value = some k) :
    (keys.flatMap fun k => values.flatMap fun value =>
      if key value = some k then part value else []).Perm (values.flatMap part) := by
  induction values with
  | nil => simp
  | cons value rest ih =>
    rw [List.forall_mem_cons] at hcover
    simp only [List.flatMap_cons]
    refine (List.flatMap_append_perm keys _ _).symm.trans ?_
    rw [flatMap_ite_eq hkeys (key value) (part value) hcover.1]
    exact (ih hcover.2).append_left (part value)

/-- A member that occurs in one part only, and there once, occurs once in the whole. -/
theorem count_flatMap_eq_one [DecidableEq B] {values : List A} {before after : List A} {value : A}
    {part : A → List B} {member : B} (hsplit : values = before ++ value :: after)
    (hvalue : part value = [member]) (hothers : ∀ other ∈ before ++ after, member ∉ part other) :
    (values.flatMap part).count member = 1 := by
  have hnone : ∀ others : List A, (∀ other ∈ others, member ∉ part other) →
      (others.flatMap part).count member = 0 := by
    intro others hmem
    rw [List.count_eq_zero, List.mem_flatMap]
    rintro ⟨other, hother, hpart⟩
    exact hmem other hother hpart
  rw [hsplit, List.flatMap_append, List.flatMap_cons, List.count_append, List.count_append, hvalue,
    hnone before fun other hother => hothers other (List.mem_append_left _ hother),
    hnone after fun other hother => hothers other (List.mem_append_right _ hother)]
  simp

end CommandLine.Sequence
