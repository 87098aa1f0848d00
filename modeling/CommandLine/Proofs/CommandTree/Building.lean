import CommandLine.CommandTree.Build
import CommandLine.Proofs.CommandTree.Editing

/-!
# Trees that are written down

A tree that is written down is reachable: a sequence of declarations is a sequence of edits, and
where one of them is refused there is no tree at all.
-/

namespace CommandLine.Build

open CommandTree

variable {β A B : Type}

/-- Declarations that make reachable trees out of reachable ones. -/
def Reaches (build : Build β A) : Prop :=
  ∀ tree value next, Reachable tree → build tree = .ok (value, next) → Reachable next

/-- Each declaration is an edit. -/
theorem reaches_edit (change : Edit β) : Reaches (edit change) := by
  intro tree value next htree hbuild
  obtain ⟨⟨reply, edited⟩, hedit, hsame⟩ := map_eq_ok.mp hbuild
  obtain ⟨-, rfl⟩ := Prod.mk.inj hsame
  exact htree.edit hedit

/-- Declarations may follow one another. -/
theorem reaches_bind {first : Build β A} {second : A → Build β B} (hfirst : Reaches first)
    (hsecond : ∀ value, Reaches (second value)) : Reaches (first >>= second) := by
  intro tree result next htree hbuild
  obtain ⟨⟨value, between⟩, hbetween, hnext⟩ := bind_eq_ok.mp hbuild
  exact hsecond value between result next (hfirst tree value between htree hbetween) hnext

/-- An attached action is an edit. -/
theorem reaches_action (id : SymbolId) (attached : Action β) : Reaches (action id attached) :=
  reaches_bind (reaches_edit _) fun _ tree value next htree hbuild => by
    obtain ⟨-, rfl⟩ := Prod.mk.inj (Except.ok.inj hbuild)
    exact htree

/-- The tree of a root command and declarations under it is reachable. -/
theorem Reaches.reachable {build : Build β Unit} (h : Reaches build) {root : CommandDecl β}
    {tree : CommandTree β} (hrun : run root build = .ok tree) : Reachable tree := by
  obtain ⟨⟨⟨⟩, built⟩, hbuilt, hrest⟩ := bind_eq_ok.mp hrun
  obtain ⟨_, -, hsame⟩ := bind_eq_ok.mp hrest
  obtain rfl := Except.ok.inj hsame
  exact h _ _ _ (.new root) hbuilt

end CommandLine.Build
