import CommandLine.Proofs.CommandTree.WellFormed
import Mathlib.Data.List.Basic

/-!
# The way up to the root

The ancestors of a symbol are found by going from parent to parent. In a well-formed tree each step
leads to a smaller number, so the way up ends and meets no symbol twice. It ends at the root, which
is the only symbol without a parent.
-/

namespace CommandLine.CommandTree

variable {β : Type} {tree : CommandTree β} {id parent : SymbolId} {chain : List SymbolId}

/-- The symbols met in going from parent to parent, up to the first one that has no parent. -/
inductive Lineage (tree : CommandTree β) : SymbolId → List SymbolId → Prop where
  | top {id : SymbolId} (hparent : tree.parent? id = none) : Lineage tree id []
  | up {id parent : SymbolId} {chain : List SymbolId} (hparent : tree.parent? id = some parent)
      (hchain : Lineage tree parent chain) : Lineage tree id (parent :: chain)

/-- There is one way up only. -/
theorem Lineage.unique (h : tree.Lineage id chain) {other : List SymbolId}
    (hother : tree.Lineage id other) : chain = other := by
  induction h generalizing other with
  | top hparent =>
    cases hother with
    | top => rfl
    | up hsome => simp [hparent] at hsome
  | up hparent _ ih =>
    cases hother with
    | top hnone => simp [hparent] at hnone
    | up hsome hchain =>
      have hsame := Option.some.inj (hparent.symm.trans hsome)
      subst hsame
      rw [ih hchain]

/-- A symbol without a parent has no ancestors. -/
theorem ancestors_of_parent?_eq_none (hparent : tree.parent? id = none) :
    tree.ancestors id = [] := by
  rw [ancestors, hparent]

/-- The ancestors of a symbol are its parent and the ancestors of its parent. -/
theorem ancestors_of_parent? (hparent : tree.parent? id = some parent) (hlt : parent < id) :
    tree.ancestors id = parent :: tree.ancestors parent := by
  rw [ancestors, hparent]
  exact dif_pos hlt

namespace WellFormed

/-- The ancestors of a symbol are met on the way up from it. -/
theorem lineage_ancestors (h : tree.WellFormed) (id : SymbolId) :
    tree.Lineage id (tree.ancestors id) := by
  induction id using Nat.strongRecOn with
  | ind id ih =>
    cases hparent : tree.parent? id with
    | none =>
      rw [ancestors_of_parent?_eq_none hparent]
      exact .top hparent
    | some parent =>
      have hlt : parent < id := h.parent_lt hparent
      rw [ancestors_of_parent? hparent hlt]
      exact .up hparent (ih parent hlt)

/-- The ancestors of a symbol are all that is met on the way up from it. -/
theorem lineage_iff (h : tree.WellFormed) : tree.Lineage id chain ↔ chain = tree.ancestors id := by
  constructor
  · exact fun hchain => hchain.unique (h.lineage_ancestors id)
  · rintro rfl
    exact h.lineage_ancestors id

/-- The way up leads to smaller and smaller numbers. -/
theorem pairwise_lineage (h : tree.WellFormed) (hchain : tree.Lineage id chain) :
    (id :: chain).Pairwise (· > ·) := by
  induction hchain with
  | top => exact List.pairwise_singleton _ _
  | @up id parent chain hparent _ ih =>
    have hlt : parent < id := h.parent_lt hparent
    refine List.pairwise_cons.mpr ⟨?_, ih⟩
    rw [List.forall_mem_cons]
    have hbelow := (List.pairwise_cons.mp ih).1
    exact ⟨hlt, fun ancestor hmem => Nat.lt_trans (hbelow ancestor hmem) hlt⟩

/-- An ancestor has a smaller number than its descendant. -/
theorem lt_of_mem_ancestors (h : tree.WellFormed) {ancestor : SymbolId}
    (hmem : ancestor ∈ tree.ancestors id) : ancestor < id :=
  (List.pairwise_cons.mp (h.pairwise_lineage (h.lineage_ancestors id))).1 ancestor hmem

/-- No symbol is its own ancestor, and none is met twice on the way up. -/
theorem nodup_ancestors (h : tree.WellFormed) (id : SymbolId) : (id :: tree.ancestors id).Nodup :=
  (h.pairwise_lineage (h.lineage_ancestors id)).imp Nat.ne_of_gt

/-- A symbol without a parent is the root. -/
theorem eq_root_of_parent?_eq_none (h : tree.WellFormed) (hid : id < tree.size)
    (hparent : tree.parent? id = none) : id = root := by
  by_contra hne
  have hsome := h.isSome_parent id hid hne
  simp [hparent] at hsome

/-- The way up ends at the root, also where it has not left the root yet. -/
theorem getLast?_lineage (h : tree.WellFormed) (hchain : tree.Lineage id chain)
    (hid : id < tree.size) : (id :: chain).getLast? = some root := by
  induction hchain with
  | top hparent =>
    rw [h.eq_root_of_parent?_eq_none hid hparent]
    rfl
  | @up id parent chain hparent _ ih =>
    have hlt : parent < id := h.parent_lt hparent
    rw [List.getLast?_cons_cons]
    exact ih (Nat.lt_trans hlt hid)

/-- The ancestors of a symbol other than the root end with the root. -/
theorem getLast?_ancestors (h : tree.WellFormed) (hid : id < tree.size) (hne : id ≠ root) :
    (tree.ancestors id).getLast? = some root := by
  have hlast := h.getLast?_lineage (h.lineage_ancestors id) hid
  obtain ⟨parent, hparent⟩ := Option.isSome_iff_exists.mp (h.isSome_parent id hid hne)
  rw [ancestors_of_parent? hparent (h.parent_lt hparent)] at hlast ⊢
  rwa [List.getLast?_cons_cons] at hlast

end WellFormed

end CommandLine.CommandTree
