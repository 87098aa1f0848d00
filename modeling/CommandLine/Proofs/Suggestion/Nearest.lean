import CommandLine.Suggestion
import Mathlib.Data.List.Induction

/-!
# The text that is suggested

Candidates are tried one after another, and the best one so far is kept. What remains in the end is
the least of those that are near enough: by distance first, then as a text. The order is total, so
there is no more than one such candidate, and it depends on the set of candidates alone.
-/

namespace CommandLine.Suggestion

/-- A candidate that may be suggested: near enough, but not the same with letter case left aside. -/
structure Near (text candidate : String) : Prop where
  pos : 0 < apart text candidate
  le_reach : apart text candidate ≤ reach

/-- One text goes before another if it is nearer, or as near and not greater as a text. -/
def Before (text first second : String) : Prop :=
  apart text first < apart text second ∨ apart text first = apart text second ∧ first ≤ second

/-- A candidate that may be suggested and goes before all others. -/
structure Best (text : String) (candidates : List String) (suggestion : String) : Prop where
  mem : suggestion ∈ candidates
  near : Near text suggestion
  before : ∀ candidate ∈ candidates, Near text candidate → Before text suggestion candidate

/-- What is kept after some candidates: the best of them with its distance, if any is near. -/
inductive Kept (text : String) (candidates : List String) : Option (String × Nat) → Prop where
  | none (h : ∀ candidate ∈ candidates, ¬ Near text candidate) : Kept text candidates none
  | some {kept : String} (h : Best text candidates kept) :
      Kept text candidates (some (kept, apart text kept))

variable {text first second third suggestion : String} {candidates others : List String}

/-! ## The order of candidates -/

/-- Every text goes before itself. -/
theorem Before.refl (text candidate : String) : Before text candidate candidate :=
  Or.inr ⟨rfl, String.le_refl candidate⟩

/-- What goes before a text goes before all that this goes before. -/
theorem Before.trans (h : Before text first second) (hnext : Before text second third) :
    Before text first third := by
  unfold Before at *
  rcases h with hlt | ⟨heq, hle⟩
  · exact Or.inl (by omega)
  · rcases hnext with hlt | ⟨heq', hle'⟩
    · exact Or.inl (by omega)
    · exact Or.inr ⟨heq.trans heq', String.le_trans hle hle'⟩

/-- Two texts that go before each other are the same. -/
theorem Before.antisymm (h : Before text first second) (hback : Before text second first) :
    first = second := by
  unfold Before at *
  rcases h with hlt | ⟨heq, hle⟩
  · omega
  · rcases hback with hlt | ⟨-, hge⟩
    · omega
    · exact String.le_antisymm hle hge

/-- Of two texts one goes before the other. -/
theorem Before.of_not (h : ¬ Before text first second) : Before text second first := by
  unfold Before at *
  rw [not_or] at h
  rcases Nat.lt_trichotomy (apart text first) (apart text second) with hlt | heq | hgt
  · exact absurd hlt h.1
  · refine Or.inr ⟨heq.symm, ?_⟩
    exact (String.le_total first second).resolve_left fun hle => h.2 ⟨heq, hle⟩
  · exact Or.inl hgt

/-- There is no more than one best candidate. -/
theorem Best.unique (h : Best text candidates first) (hother : Best text candidates second) :
    first = second :=
  (h.before second hother.mem hother.near).antisymm (hother.before first h.mem h.near)

/-- Which candidate is the best depends on the set of candidates alone. -/
theorem Best.congr (h : Best text candidates suggestion)
    (hmem : ∀ candidate, candidate ∈ others ↔ candidate ∈ candidates) :
    Best text others suggestion where
  mem := (hmem suggestion).mpr h.mem
  near := h.near
  before candidate hcandidate := h.before candidate ((hmem candidate).mp hcandidate)

/-! ## Trying the candidates -/

/-- A candidate is near unless it is passed over when it is tried. -/
theorem near_iff : Near text first ↔ ¬ (apart text first = 0 ∨ reach < apart text first) := by
  rw [not_or, Nat.not_lt]
  exact ⟨fun h => ⟨Nat.ne_of_gt h.pos, h.le_reach⟩, fun h => ⟨Nat.pos_of_ne_zero h.1, h.2⟩⟩

/-- A candidate that is not near changes nothing. -/
theorem better_of_not_near (h : ¬ Near text first) (best : Option (String × Nat)) :
    better text best first = best := by
  simp only [better, if_pos (not_not.mp (mt near_iff.mpr h))]

/-- The first near candidate is kept. -/
theorem better_none (h : Near text first) :
    better text none first = some (first, apart text first) := by
  simp only [better, if_neg (near_iff.mp h)]

/-- A further near candidate is kept unless the one that was kept goes before it. -/
theorem better_some (h : Near text second) :
    (Before text first second ∧
        better text (some (first, apart text first)) second = some (first, apart text first)) ∨
      (Before text second first ∧
        better text (some (first, apart text first)) second =
          some (second, apart text second)) := by
  have hbefore : (apart text first < apart text second ∨
      (apart text second = apart text first ∧ first ≤ second)) ↔ Before text first second := by
    rw [Before, eq_comm]
  by_cases hfirst : Before text first second
  · refine Or.inl ⟨hfirst, ?_⟩
    simp only [better, if_neg (near_iff.mp h), if_pos (hbefore.mpr hfirst)]
  · refine Or.inr ⟨.of_not hfirst, ?_⟩
    simp only [better, if_neg (near_iff.mp h), if_neg (mt hbefore.mp hfirst)]

/-- The best candidate stays the best if it goes before one more that is near. -/
theorem Best.keep (h : Best text candidates first)
    (hlast : Near text second → Before text first second) :
    Best text (candidates ++ [second]) first := by
  refine ⟨List.mem_append_left _ h.mem, h.near, ?_⟩
  rw [List.forall_mem_append, List.forall_mem_singleton]
  exact ⟨h.before, hlast⟩

/-- One more candidate is the best if it is near and goes before all others that are. -/
theorem Best.replace (hnear : Near text second)
    (hbefore : ∀ candidate ∈ candidates, Near text candidate → Before text second candidate) :
    Best text (candidates ++ [second]) second := by
  refine ⟨List.mem_append_right _ List.mem_cons_self, hnear, ?_⟩
  rw [List.forall_mem_append, List.forall_mem_singleton]
  exact ⟨hbefore, fun _ => .refl text second⟩

/-- Trying one more candidate keeps the best of all. -/
theorem Kept.better {best : Option (String × Nat)} (h : Kept text candidates best)
    (last : String) : Kept text (candidates ++ [last]) (better text best last) := by
  by_cases hnear : Near text last
  · cases h with
    | none h =>
      rw [better_none hnear]
      exact .some (.replace hnear fun candidate hmem hother => absurd hother (h candidate hmem))
    | @some kept h =>
      rcases better_some hnear with ⟨hbefore, heq⟩ | ⟨hbefore, heq⟩
      · rw [heq]
        exact .some (h.keep fun _ => hbefore)
      · rw [heq]
        exact .some (.replace hnear fun candidate hmem hother =>
          hbefore.trans (h.before candidate hmem hother))
  · rw [better_of_not_near hnear]
    cases h with
    | none h => exact .none (List.forall_mem_append.mpr ⟨h, List.forall_mem_singleton.mpr hnear⟩)
    | some h => exact .some (h.keep fun hlast => absurd hlast hnear)

/-- Trying all candidates keeps the best of them. -/
theorem kept_foldl_better (text : String) (candidates : List String) :
    Kept text candidates (candidates.foldl (better text) none) := by
  induction candidates using List.reverseRecOn with
  | nil => exact .none fun candidate hmem => absurd hmem List.not_mem_nil
  | append_singleton candidates last ih =>
    rw [List.foldl_append, List.foldl_cons, List.foldl_nil]
    exact ih.better last

/-- The best candidate is suggested. -/
theorem nearest_eq_some_iff :
    nearest text candidates = some suggestion ↔ Best text candidates suggestion := by
  have hkept := kept_foldl_better text candidates
  rw [nearest]
  generalize candidates.foldl (better text) none = best at hkept
  cases hkept with
  | none hfar =>
    refine ⟨fun h => by simp at h, fun h => ?_⟩
    exact absurd h.near (hfar suggestion h.mem)
  | @some kept hbest =>
    rw [Option.map_some, Option.some.injEq]
    constructor
    · rintro rfl
      exact hbest
    · exact hbest.unique

/-- What is suggested does not depend on the order of the candidates, nor on repeats among them. -/
theorem nearest_congr (h : ∀ candidate, candidate ∈ others ↔ candidate ∈ candidates)
    (text : String) : nearest text others = nearest text candidates := by
  refine Option.ext fun suggestion => ?_
  rw [nearest_eq_some_iff, nearest_eq_some_iff]
  exact ⟨fun hbest => hbest.congr fun candidate => (h candidate).symm, fun hbest => hbest.congr h⟩

end CommandLine.Suggestion
