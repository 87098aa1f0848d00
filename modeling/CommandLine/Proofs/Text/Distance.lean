import CommandLine.Text.Distance
import Mathlib.Data.List.Forall2
import Mathlib.Order.Bounds.Basic

/-!
# The edit distance is the least number of edits

An edit inserts, deletes or replaces one character anywhere in a text, and edits may follow each other
in any order. The rows of the computation know nothing of that: they align two texts from front to
back, at the cost of one for each character that is not kept. Both give the same least number. An
alignment is a sequence of edits, and an edit after an alignment can be taken into it at a cost of no
more than one.
-/

namespace CommandLine.Text

/-- One insertion, deletion or replacement of a single character. -/
inductive Edit : List Char → List Char → Prop where
  | insert (c : Char) (text : List Char) : Edit text (c :: text)
  | delete (c : Char) (text : List Char) : Edit (c :: text) text
  | replace (c d : Char) (text : List Char) : Edit (c :: text) (d :: text)
  | behind (c : Char) {source target : List Char} (h : Edit source target) :
      Edit (c :: source) (c :: target)

/-- A number of edits that turn one text into another. -/
inductive Edits : ℕ → List Char → List Char → Prop where
  | none (text : List Char) : Edits 0 text text
  | snoc {count : ℕ} {source middle target : List Char} (h : Edits count source middle)
      (last : Edit middle target) : Edits (count + 1) source target

/-- Two texts laid side by side, with the number of characters that are not kept. -/
inductive Aligned : List Char → List Char → ℕ → Prop where
  | nil : Aligned [] [] 0
  | keep (c : Char) {source target : List Char} {cost : ℕ} (h : Aligned source target cost) :
      Aligned (c :: source) (c :: target) cost
  | replace (c d : Char) {source target : List Char} {cost : ℕ} (h : Aligned source target cost) :
      Aligned (c :: source) (d :: target) (cost + 1)
  | delete (c : Char) {source target : List Char} {cost : ℕ} (h : Aligned source target cost) :
      Aligned (c :: source) target (cost + 1)
  | insert (d : Char) {source target : List Char} {cost : ℕ} (h : Aligned source target cost) :
      Aligned source (d :: target) (cost + 1)

/-- The cost of the cheapest alignment of two texts. -/
def Cheapest (source target : List Char) (cost : ℕ) : Prop :=
  IsLeast {cost | Aligned source target cost} cost

variable {source middle target : List Char} {c d : Char} {count cost down diagonal right : ℕ}

/-! ## Edits -/

/-- An edit may be made before all others. -/
theorem Edits.cons (first : Edit source middle) (h : Edits count middle target) :
    Edits (count + 1) source target := by
  induction h with
  | none => exact .snoc (.none source) first
  | snoc h last ih => exact .snoc (ih first) last

/-- Edits may be made behind a further character. -/
theorem Edits.behind (c : Char) (h : Edits count source target) :
    Edits count (c :: source) (c :: target) := by
  induction h with
  | none text => exact .none (c :: text)
  | snoc h last ih => exact .snoc ih (.behind c last)

/-- Without an edit a text stays as it is. -/
theorem edits_zero_iff : Edits 0 source target ↔ source = target := by
  constructor
  · rintro ⟨⟩
    rfl
  · rintro rfl
    exact .none source

/-! ## Alignments and edits -/

/-- A text is aligned with itself at no cost. -/
theorem Aligned.refl (text : List Char) : Aligned text text 0 := by
  induction text with
  | nil => exact .nil
  | cons c text ih => exact .keep c ih

/-- An alignment is made by as many edits as it costs. -/
theorem Aligned.edits (h : Aligned source target cost) : Edits cost source target := by
  induction h with
  | nil => exact .none []
  | keep c h ih => exact ih.behind c
  | @replace c d source target cost h ih => exact .snoc (ih.behind c) (.replace c d target)
  | @delete c source target cost h ih => exact .cons (.delete c source) ih
  | @insert d source target cost h ih => exact .snoc ih (.insert d target)

/-- An edit after an alignment is taken into it at a cost of no more than one. -/
theorem Aligned.edit {edited : List Char} (h : Aligned source target cost)
    (hedit : Edit target edited) : ∃ total ≤ cost + 1, Aligned source edited total := by
  induction h generalizing edited with
  | nil =>
    cases hedit with
    | insert c => exact ⟨1, le_rfl, .insert c .nil⟩
  | @keep c source target cost h ih =>
    cases hedit with
    | insert e => exact ⟨cost + 1, le_rfl, .insert e (.keep c h)⟩
    | delete => exact ⟨cost + 1, le_rfl, .delete c h⟩
    | replace _ e => exact ⟨cost + 1, le_rfl, .replace c e h⟩
    | behind _ hedit =>
      obtain ⟨total, hle, htotal⟩ := ih hedit
      exact ⟨total, hle, .keep c htotal⟩
  | @replace c d source target cost h ih =>
    cases hedit with
    | insert e => exact ⟨cost + 1 + 1, le_rfl, .insert e (.replace c d h)⟩
    | delete => exact ⟨cost + 1, Nat.le_succ _, .delete c h⟩
    | replace _ e => exact ⟨cost + 1, Nat.le_succ _, .replace c e h⟩
    | behind _ hedit =>
      obtain ⟨total, hle, htotal⟩ := ih hedit
      exact ⟨total + 1, Nat.succ_le_succ hle, .replace c d htotal⟩
  | @delete c source target cost h ih =>
    obtain ⟨total, hle, htotal⟩ := ih hedit
    exact ⟨total + 1, Nat.succ_le_succ hle, .delete c htotal⟩
  | @insert d source target cost h ih =>
    cases hedit with
    | insert e => exact ⟨cost + 1 + 1, le_rfl, .insert e (.insert d h)⟩
    | delete => exact ⟨cost, by omega, h⟩
    | replace _ e => exact ⟨cost + 1, Nat.le_succ _, .insert e h⟩
    | behind _ hedit =>
      obtain ⟨total, hle, htotal⟩ := ih hedit
      exact ⟨total + 1, Nat.succ_le_succ hle, .insert d htotal⟩

/-- What is made by some edits is aligned at a cost of no more than their number. -/
theorem Edits.exists_aligned (h : Edits count source target) :
    ∃ cost ≤ count, Aligned source target cost := by
  induction h with
  | none text => exact ⟨0, le_rfl, .refl text⟩
  | snoc h last ih =>
    obtain ⟨cost, hle, haligned⟩ := ih
    obtain ⟨total, htotal, haligned'⟩ := haligned.edit last
    exact ⟨total, htotal.trans (Nat.succ_le_succ hle), haligned'⟩

/-- The cost of the cheapest alignment is the least number of edits. -/
theorem Cheapest.isLeast_edits (h : Cheapest source target cost) :
    IsLeast {count | Edits count source target} cost := by
  refine ⟨h.1.edits, fun count hcount => ?_⟩
  obtain ⟨total, hle, htotal⟩ := Edits.exists_aligned hcount
  exact (h.2 htotal).trans hle

/-! ## Rows of cheapest alignments -/

/-- From the empty text, all characters are inserted. -/
theorem cheapest_nil (target : List Char) : Cheapest [] target target.length := by
  induction target with
  | nil => exact ⟨.nil, fun cost _ => Nat.zero_le cost⟩
  | cons d target ih =>
    refine ⟨.insert d ih.1, fun cost h => ?_⟩
    cases h with
    | insert _ h => exact Nat.succ_le_succ (ih.2 h)

/-- To the empty text, one more character is one more deletion. -/
theorem Cheapest.delete (h : Cheapest source [] down) (c : Char) :
    Cheapest (c :: source) [] (down + 1) := by
  refine ⟨.delete c h.1, fun cost hcost => ?_⟩
  cases hcost with
  | delete _ hcost => exact Nat.succ_le_succ (h.2 hcost)

/-- Two texts that go on are aligned by matching two characters, deleting one or inserting one. -/
theorem Cheapest.cons (hdown : Cheapest source (d :: target) down)
    (hdiagonal : Cheapest source target diagonal) (hright : Cheapest (c :: source) target right) :
    Cheapest (c :: source) (d :: target)
      (min (if c = d then diagonal else diagonal + 1) (min (down + 1) (right + 1))) := by
  constructor
  · have hmatched : Aligned (c :: source) (d :: target)
        (if c = d then diagonal else diagonal + 1) := by
      split
      · subst d
        exact .keep c hdiagonal.1
      · exact .replace c d hdiagonal.1
    exact min_rec' (Aligned (c :: source) (d :: target)) hmatched
      (min_rec' _ (.delete c hdown.1) (.insert d hright.1))
  · intro cost h
    cases h with
    | keep _ h =>
      rw [if_pos rfl]
      exact (min_le_left _ _).trans (hdiagonal.2 h)
    | replace _ _ h =>
      have hle := hdiagonal.2 h
      split <;> omega
    | delete _ h =>
      have hle := hdown.2 h
      omega
    | insert _ h =>
      have hle := hright.2 h
      omega

/-- The first entry of a row over all suffixes of a text is the one for the text itself. -/
theorem exists_cons_of_forall₂_tails {row : List ℕ}
    (h : List.Forall₂ (Cheapest source) target.tails row) :
    ∃ first rest, row = first :: rest ∧ Cheapest source target first := by
  cases target <;> cases h with
  | cons hfirst hrest => exact ⟨_, _, rfl, hfirst⟩

/-- A character in front of a text turns the row of the text into its own. -/
theorem forall₂_nextRow {row : List ℕ} (c : Char)
    (h : List.Forall₂ (Cheapest source) target.tails row) :
    List.Forall₂ (Cheapest (c :: source)) target.tails (nextRow c target row) := by
  induction target generalizing row with
  | nil =>
    cases h with
    | cons hdown hrest =>
      cases hrest
      exact .cons (hdown.delete c) .nil
  | cons d target ih =>
    cases h with
    | @cons _ down _ row hdown hrow =>
      obtain ⟨diagonal, rest, rfl, hdiagonal⟩ := exists_cons_of_forall₂_tails hrow
      have hnext := ih hrow
      obtain ⟨right, others, heq, hright⟩ := exists_cons_of_forall₂_tails hnext
      refine .cons ?_ hnext
      rw [heq, List.headD_cons]
      exact hdown.cons hdiagonal hright

/-- Each entry of a row is the cost of the cheapest alignment with its suffix. -/
theorem forall₂_distanceRow (target source : List Char) :
    List.Forall₂ (Cheapest source) target.tails (distanceRow target source) := by
  induction source with
  | nil =>
    rw [distanceRow]
    induction target with
    | nil => exact .cons (cheapest_nil []) .nil
    | cons d target ih =>
      rw [List.range_succ, List.reverse_append]
      exact .cons (cheapest_nil (d :: target)) ih
  | cons c source ih => exact forall₂_nextRow c ih

/-- The distance is the least number of edits. -/
theorem isLeast_distance (source target : String) :
    IsLeast {count | Edits count source.toList target.toList} (distance source target) := by
  obtain ⟨first, rest, hrow, hfirst⟩ :=
    exists_cons_of_forall₂_tails (forall₂_distanceRow target.toList source.toList)
  rw [distance, hrow, List.headD_cons]
  exact hfirst.isLeast_edits

/-- Only a text itself is at no distance. -/
theorem distance_eq_zero_iff {source target : String} :
    distance source target = 0 ↔ source = target := by
  rw [← String.toList_inj, ← edits_zero_iff]
  constructor
  · intro h
    rw [← h]
    exact (isLeast_distance source target).1
  · intro h
    exact Nat.le_zero.mp ((isLeast_distance source target).2 h)

end CommandLine.Text
