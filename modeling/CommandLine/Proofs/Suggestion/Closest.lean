import CommandLine.Proofs.Suggestion.Nearest
import CommandLine.Proofs.Text.Distance

/-!
# The closest of the texts that would have been recognized

The closest candidate is at the least number of edits, and the smallest as a text if there are
several. It is to be suggested if it is within reach. A candidate that differs in letter case alone is
the closest of all, yet it is passed over as the text itself would be: what is suggested is the closest
of the remaining candidates, and of all of them only if there is none of that kind.
-/

namespace CommandLine.Suggestion

/-- What is to be suggested for a text: the closest candidate, if any is within reach. -/
structure Suggests (text : String) (candidates : List String) (answer : Option String) : Prop where
  isSome_iff : answer.isSome = true ↔ ∃ candidate ∈ candidates, apart text candidate ≤ reach
  closest : ∀ suggestion, answer = some suggestion → suggestion ∈ candidates ∧
    ∀ candidate ∈ candidates, Before text suggestion candidate

/-- The candidates that differ from a text in more than letter case. -/
def distinct (text : String) (candidates : List String) : List String :=
  candidates.filter fun candidate => decide (Text.lower candidate ≠ Text.lower text)

variable {text candidate suggestion : String} {candidates : List String}

/-- A candidate is at no distance from a text if it differs in no more than letter case. -/
theorem apart_eq_zero_iff : apart text candidate = 0 ↔ Text.lower candidate = Text.lower text := by
  rw [apart, Text.distance_eq_zero_iff, eq_comm]

/-- A near candidate differs in more than letter case. -/
theorem Near.lower_ne (h : Near text candidate) : Text.lower candidate ≠ Text.lower text :=
  mt apart_eq_zero_iff.mpr (Nat.ne_of_gt h.pos)

/-- Of the candidates that differ in more than letter case, those within reach are near. -/
theorem near_of_lower_ne (h : Text.lower candidate ≠ Text.lower text)
    (hle : apart text candidate ≤ reach) : Near text candidate :=
  ⟨Nat.pos_of_ne_zero (mt apart_eq_zero_iff.mp h), hle⟩

/-- The candidates that differ in letter case alone are no choice for the best. -/
theorem best_distinct_iff :
    Best text (distinct text candidates) suggestion ↔ Best text candidates suggestion := by
  simp only [distinct]
  constructor
  · intro h
    refine ⟨List.mem_of_mem_filter h.mem, h.near, fun candidate hmem hnear => ?_⟩
    exact h.before candidate (List.mem_filter.mpr ⟨hmem, by simpa using hnear.lower_ne⟩) hnear
  · intro h
    refine ⟨List.mem_filter.mpr ⟨h.mem, by simpa using h.near.lower_ne⟩, h.near, ?_⟩
    exact fun candidate hmem => h.before candidate (List.mem_of_mem_filter hmem)

/-- Nothing else is suggested without the candidates that differ in letter case alone. -/
theorem nearest_distinct (text : String) (candidates : List String) :
    nearest text (distinct text candidates) = nearest text candidates := by
  refine Option.ext fun suggestion => ?_
  rw [nearest_eq_some_iff, nearest_eq_some_iff, best_distinct_iff]

/-- If there is a near candidate, something is suggested. -/
theorem isSome_nearest (hmem : candidate ∈ candidates) (hnear : Near text candidate) :
    (nearest text candidates).isSome = true := by
  have hkept := kept_foldl_better text candidates
  rw [nearest, Option.isSome_map]
  generalize candidates.foldl (better text) none = best at hkept
  cases hkept with
  | none hfar => exact absurd hnear (hfar candidate hmem)
  | some h => rfl

/-- The closest candidate is suggested if all of them differ in more than letter case. -/
theorem suggests_of_lower_ne
    (h : ∀ candidate ∈ candidates, Text.lower candidate ≠ Text.lower text) :
    Suggests text candidates (nearest text candidates) where
  isSome_iff := by
    constructor
    · intro hsome
      obtain ⟨suggestion, hsuggestion⟩ := Option.isSome_iff_exists.mp hsome
      have hbest := nearest_eq_some_iff.mp hsuggestion
      exact ⟨suggestion, hbest.mem, hbest.near.le_reach⟩
    · rintro ⟨candidate, hmem, hle⟩
      exact isSome_nearest hmem (near_of_lower_ne (h candidate hmem) hle)
  closest suggestion hsuggestion := by
    have hbest := nearest_eq_some_iff.mp hsuggestion
    refine ⟨hbest.mem, fun candidate hmem => ?_⟩
    by_cases hle : apart text candidate ≤ reach
    · exact hbest.before candidate hmem (near_of_lower_ne (h candidate hmem) hle)
    · exact Or.inl (hbest.near.le_reach.trans_lt (Nat.lt_of_not_le hle))

/-- A candidate that differs in letter case alone is the closest, but never suggested. -/
theorem Suggests.lower_ne (h : Suggests text candidates (nearest text candidates)) :
    ∀ candidate ∈ candidates, Text.lower candidate ≠ Text.lower text := by
  intro candidate hmem hlower
  have hzero : apart text candidate = 0 := apart_eq_zero_iff.mpr hlower
  have hsome := h.isSome_iff.mpr ⟨candidate, hmem, hzero.le.trans (Nat.zero_le reach)⟩
  obtain ⟨suggestion, hsuggestion⟩ := Option.isSome_iff_exists.mp hsome
  have hpos := (nearest_eq_some_iff.mp hsuggestion).near.pos
  rcases (h.closest suggestion hsuggestion).2 candidate hmem with hlt | ⟨heq, -⟩
  · rw [hzero] at hlt
    exact Nat.not_lt_zero _ hlt
  · exact Nat.ne_of_gt hpos (heq.trans hzero)

/-- For all texts and candidates, the one that is suggested is the closest of those that differ in
more than letter case, counted in edits; so it is the closest of all unless one differs in letter case
alone. -/
theorem suggests_distinct (text : String) (candidates : List String) :
    (∀ candidate, IsLeast
      {count | Text.Edits count (Text.lower text).toList (Text.lower candidate).toList}
      (apart text candidate)) ∧
    Suggests text (distinct text candidates) (nearest text candidates) ∧
    (Suggests text candidates (nearest text candidates) ↔
      ∀ candidate ∈ candidates, Text.lower candidate ≠ Text.lower text) := by
  refine ⟨fun candidate => Text.isLeast_distance _ _, ?_, Suggests.lower_ne, suggests_of_lower_ne⟩
  rw [← nearest_distinct]
  refine suggests_of_lower_ne fun candidate hmem => ?_
  simpa using (List.mem_filter.mp hmem).2

/-- The candidate that differs from the text in letter case alone is passed over for one that is two
characters longer. -/
theorem status_not_suggested : "STATUS" ∉ ["status", "statuses"] ∧
    ¬ Suggests "STATUS" ["status", "statuses"] (nearest "STATUS" ["status", "statuses"]) := by
  refine ⟨by decide, fun h => ?_⟩
  have hnearest : nearest "STATUS" ["status", "statuses"] = some "statuses" := by decide +kernel
  have hbefore := (h.closest "statuses" hnearest).2 "status" (by decide)
  revert hbefore
  rw [Before]
  decide +kernel

end CommandLine.Suggestion
