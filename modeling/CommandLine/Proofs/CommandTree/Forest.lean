import CommandLine.CommandTree.Edit
import Mathlib.Data.List.Nodup

/-!
# Symbol trees as numbered forests

A tree stores the link between a symbol and its parent twice: the child names its parent, and the
parent lists its children by kind. In a forest the two agree, parents have smaller numbers than
their children, and each child is listed once.

The links are described by functions on numbers alone, so growth needs one lemma only: a new last
number below an old one. An option is added in two such steps, since its argument hangs below it.
-/

namespace CommandLine

/-- The kinds of symbols. -/
inductive Kind where
  | command
  | option
  | argument
  deriving DecidableEq, Repr

/-- Kinds, parents and children of the numbers below `size`, with 0 as the only root. -/
structure Forest (size : ℕ) (kind? : ℕ → Option Kind) (parent? : ℕ → Option ℕ)
    (children : Kind → ℕ → List ℕ) : Prop where
  isSome_kind : ∀ id, (kind? id).isSome ↔ id < size
  kind_root : kind? 0 = some .command
  parent_root : parent? 0 = none
  isSome_parent : ∀ id, id < size → id ≠ 0 → (parent? id).isSome
  parent_lt : ∀ {id parent}, parent? id = some parent → parent < id
  mem_children : ∀ {kind id parent},
    id ∈ children kind parent ↔ kind? id = some kind ∧ parent? id = some parent
  nodup_children : ∀ kind id, (children kind id).Nodup

namespace Forest

variable {size : ℕ} {kind? kind?' : ℕ → Option Kind} {parent? parent?' : ℕ → Option ℕ}
  {children children' : Kind → ℕ → List ℕ}

/-- There is a root. -/
theorem size_pos (h : Forest size kind? parent? children) : 0 < size := by
  rw [← h.isSome_kind, h.kind_root]
  rfl

/-- A number outside the forest is nobody's child. -/
theorem size_notMem_children (h : Forest size kind? parent? children) (kind : Kind) (id : ℕ) :
    size ∉ children kind id := by
  intro hmem
  have hkind := (h.mem_children.mp hmem).1
  exact Nat.lt_irrefl size ((h.isSome_kind size).mp (by rw [hkind]; rfl))

/-- A new last number below an old one leaves every other link in its place. -/
theorem attach (h : Forest size kind? parent? children) {top : ℕ} (new : Kind) (htop : top < size)
    (hkind : ∀ id, kind?' id = if id = size then some new else kind? id)
    (hparent : ∀ id, parent?' id = if id = size then some top else parent? id)
    (hchildren : ∀ kind id, children' kind id =
      if id = top ∧ kind = new then children kind id ++ [size] else children kind id) :
    Forest (size + 1) kind?' parent?' children' := by
  have hroot : (0 : ℕ) ≠ size := Nat.ne_of_lt h.size_pos
  refine ⟨?_, ?_, ?_, ?_, ?_, ?_, ?_⟩
  · intro id
    rw [hkind]
    split
    · simp [*]
    · rw [h.isSome_kind]
      omega
  · rw [hkind, if_neg hroot, h.kind_root]
  · rw [hparent, if_neg hroot, h.parent_root]
  · intro id hid hne
    rw [hparent]
    split
    · rfl
    · exact h.isSome_parent id (by omega) hne
  · intro id parent hid
    rw [hparent] at hid
    split at hid
    · obtain rfl := Option.some.inj hid
      omega
    · exact h.parent_lt hid
  · intro kind id parent
    rw [hchildren, hkind, hparent]
    by_cases hid : id = size
    · subst id
      by_cases hedge : parent = top ∧ kind = new
      · simp [hedge]
      · rw [if_neg hedge, if_pos rfl, if_pos rfl]
        simp only [h.size_notMem_children, Option.some.injEq, false_iff]
        rintro ⟨rfl, rfl⟩
        exact hedge ⟨rfl, rfl⟩
    · rw [if_neg hid, if_neg hid, ← h.mem_children]
      split
      · simp [hid]
      · rfl
  · intro kind id
    rw [hchildren]
    split
    · rw [List.nodup_append]
      refine ⟨h.nodup_children kind id, List.nodup_singleton size, ?_⟩
      rintro child hchild _ hsize rfl
      rw [List.mem_singleton] at hsize
      exact h.size_notMem_children kind id (hsize ▸ hchild)
    · exact h.nodup_children kind id

end Forest

/-! ## Links of a symbol -/

/-- The kind of a role. -/
def Role.kind {β : Type} : Role β → Kind
  | .command _ => .command
  | .option _ => .option
  | .argument _ => .argument

namespace Symbol

variable {β : Type}

/-- The symbols of a kind that a symbol lists; an option lists its argument. -/
def listed (kind : Kind) (symbol : Symbol β) : List SymbolId :=
  match kind, symbol.role with
  | .command, .command node => node.commands
  | .option, .command node => node.options
  | .argument, .command node => node.arguments
  | .argument, .option node => [node.argument]
  | _, _ => []

/-- Two symbols that hang in a tree in the same way. -/
structure SameLinks (first second : Symbol β) : Prop where
  kind : first.role.kind = second.role.kind
  parent : first.parent = second.parent
  listed : ∀ kind, first.listed kind = second.listed kind

end Symbol

namespace CommandTree

variable {β : Type}

/-- The kind of a symbol. -/
def kind? (tree : CommandTree β) (id : SymbolId) : Option Kind :=
  (tree.symbol? id).map (·.role.kind)

/-- The children of one kind. -/
def listed (tree : CommandTree β) (kind : Kind) (id : SymbolId) : List SymbolId :=
  (tree.symbol? id).elim [] (Symbol.listed kind)

/-- The links of a tree form a forest. -/
def WellFormed (tree : CommandTree β) : Prop :=
  Forest tree.size tree.kind? tree.parent? tree.listed

end CommandLine.CommandTree
