import CommandLine.Line
import Mathlib.Algebra.Group.Nat.Even
import Mathlib.Data.List.Basic
import Mathlib.Data.List.Infix

/-!
# The grammar of a raw line

A line is a sequence of items: a backslash with a double quote behind it, a double quote without a
backslash, or any other character. A space or a tab is a separator if the number of double quotes
before it, those behind a backslash apart, is even. The tokens of the line are the longest runs of
items without a separator, one token for each run, and each item but a bare double quote gives its
token one letter.

Splitting reads a line once and remembers whether a quote is open and what was read of a token. At
every place these are what the items before the place say: the parity of the bare double quotes,
and the part of a run that ends at the place.
-/

namespace CommandLine.Line

/-! ## Items -/

/-- What a line is read in. -/
inductive Item where
  /-- A backslash and a double quote, which stand for the double quote. -/
  | escaped
  /-- A double quote, which opens or closes a quoted stretch. -/
  | toggle
  /-- Any other character. -/
  | letter (c : Char)
  deriving DecidableEq, Repr

namespace Item

/-- How an item is written on a line. -/
def written : Item → List Char
  | .escaped => ['\\', '"']
  | .toggle => ['"']
  | .letter c => [c]

/-- The letter that an item gives to its token. -/
def read? : Item → Option Char
  | .escaped => some '"'
  | .toggle => none
  | .letter c => some c

/-- Whether an item is a space or a tab. -/
def isGap : Item → Bool
  | .letter c => c == ' ' || c == '\t'
  | _ => false

/-- A letter is a gap between items if it is one between tokens. -/
theorem isGap_letter (c : Char) : (letter c).isGap = Line.isGap c := rfl

end Item

/-- The items of a line from left to right. -/
def items : List Char → List Item
  | [] => []
  | '\\' :: '"' :: rest => .escaped :: items rest
  | c :: rest => (if c = '"' then .toggle else .letter c) :: items rest

/--
Items that make a line as it is read from left to right: they are written as the line, none of them
is a double quote as a mere letter, and a backslash before a double quote is no item of its own.
-/
structure Decomposes (found : List Item) (chars : List Char) : Prop where
  written : found.flatMap Item.written = chars
  letter : .letter '"' ∉ found
  escaped : ¬ [.letter '\\', .toggle] <:+: found

variable {found all rest : List Item} {item : Item} {chars : List Char} {start stop : ℕ}

/-- A character that begins no escaped quote is an item. -/
theorem items_cons {c : Char} (h : c = '\\' → chars.head? ≠ some '"') :
    items (c :: chars) = (if c = '"' then .toggle else .letter c) :: items chars := by
  rw [items]
  rintro rest rfl rfl
  exact h rfl rfl

/-- A list that does not begin with a character has no such head. -/
theorem head?_ne_of_rest {c : Char}
    (h : ∀ rest, c = '\\' → chars = '"' :: rest → False) : c = '\\' → chars.head? ≠ some '"' := by
  intro hbackslash hhead
  obtain ⟨rest, hrest⟩ := List.head?_eq_some_iff.mp hhead
  exact h rest hbackslash hrest

/-- There is one way to read a line as items. -/
theorem Decomposes.eq_items (h : Decomposes found chars) : found = items chars := by
  induction found generalizing chars with
  | nil =>
    obtain rfl : [] = chars := h.written
    rfl
  | cons item rest ih =>
    have hrest : Decomposes rest (rest.flatMap Item.written) :=
      ⟨rfl, fun hmem => h.letter (List.mem_cons_of_mem _ hmem),
        fun hinside => h.escaped (hinside.trans (List.suffix_cons _ _).isInfix)⟩
    have hchars := h.written
    rw [List.flatMap_cons] at hchars
    subst hchars
    cases item with
    | escaped => exact congrArg _ (ih hrest)
    | toggle => exact congrArg _ (ih hrest)
    | letter c =>
      have hquote : c ≠ '"' := by
        rintro rfl
        exact h.letter List.mem_cons_self
      have hescape : c = '\\' → (rest.flatMap Item.written).head? ≠ some '"' := by
        rintro rfl
        cases rest with
        | nil => simp
        | cons next rest =>
          cases next with
          | escaped => simp [Item.written]
          | toggle => exact absurd (List.prefix_append _ rest).isInfix h.escaped
          | letter d =>
            have hne : d ≠ '"' := by
              rintro rfl
              exact h.letter (by simp)
            simp [Item.written, hne]
      change _ = items (c :: rest.flatMap Item.written)
      rw [items_cons hescape, if_neg hquote, ← ih hrest]

/-- An item in front of a line that has it as its first one. -/
theorem Decomposes.cons (h : Decomposes found chars) (hletter : item ≠ .letter '"')
    (hescape : item = .letter '\\' → chars.head? ≠ some '"') :
    Decomposes (item :: found) (item.written ++ chars) where
  written := by rw [List.flatMap_cons, h.written]
  letter := by
    rintro (_ | hmem)
    · exact hletter rfl
    · exact h.letter ‹_›
  escaped := by
    rw [List.infix_cons_iff, not_or]
    refine ⟨?_, h.escaped⟩
    rintro ⟨more, heq⟩
    obtain ⟨hitem, hfound⟩ := List.cons.inj heq
    -- A toggle at the front of the items is a double quote at the front of the line.
    have hquote : chars.head? = some '"' := by
      rw [← h.written, ← hfound]
      rfl
    exact hescape hitem.symm hquote

/-- A line is read as its items. -/
theorem decomposes_items (chars : List Char) : Decomposes (items chars) chars := by
  fun_induction items chars with
  | case1 => exact ⟨rfl, List.not_mem_nil, by simp⟩
  | case2 rest ih => exact ih.cons (by simp) (by simp)
  | case3 c rest hescape ih =>
    by_cases hquote : c = '"'
    · rw [if_pos hquote, hquote]
      exact ih.cons (by simp) (by simp)
    · rw [if_neg hquote]
      exact ih.cons (by simpa using hquote) fun hitem =>
        head?_ne_of_rest hescape (Item.letter.inj hitem)

/-! ## Runs -/

/-- Whether a quote is open behind some items. -/
def isQuoted (before : List Item) : Bool := !decide (Even (before.count .toggle))

/-- Quotes are open behind items as the parts of the items open and close them. -/
theorem isQuoted_append (before after : List Item) :
    isQuoted (before ++ after) = (isQuoted before ^^ isQuoted after) := by
  simp only [isQuoted, List.count_append, Nat.even_add]
  by_cases hbefore : Even (before.count .toggle) <;>
    by_cases hafter : Even (after.count .toggle) <;> simp [hbefore, hafter]

/-- Only a toggle opens a quote. -/
theorem isQuoted_singleton (item : Item) : isQuoted [item] = decide (item = .toggle) := by
  rw [isQuoted, List.count_singleton]
  by_cases htoggle : item = .toggle <;> simp [htoggle]

/-- The item at a place separates tokens: it is a gap with an even number of toggles before it. -/
def Separates (all : List Item) (place : ℕ) : Prop :=
  all[place]?.any Item.isGap = true ∧ Even ((all.take place).count .toggle)

instance : Decidable (Separates all stop) := inferInstanceAs (Decidable (_ ∧ _))

/-- A gap is no toggle. -/
theorem ne_toggle_of_gap {quoted : Bool} (h : (item.isGap && !quoted) = true) : item ≠ .toggle := by
  rintro rfl
  simp [Item.isGap] at h

/-- The items from one place up to another are a maximal run without separators. -/
structure IsRun (all : List Item) (first next : ℕ) : Prop where
  lt : first < next
  le_length : next ≤ all.length
  not_separates : ∀ place, first ≤ place → place < next → ¬ Separates all place
  /-- It begins with the line or behind a separator. -/
  separates_before : ∀ place, place + 1 = first → Separates all place
  /-- It ends with the line or in front of a separator. -/
  separates_next : next < all.length → Separates all next

/-- The letters of the items from one place up to another. -/
def letters (all : List Item) (first next : ℕ) : List Char :=
  (all.extract first next).filterMap Item.read?

/-- The letter that the item at a place gives to the tokens, which is none if it separates them. -/
def kept? (all : List Item) (entry : Item × ℕ) : Option Char :=
  if Separates all entry.2 then none else entry.1.read?

/-- Runs are listed from a place on: each that begins there or behind it, in order. -/
structure RunsFrom (all : List Item) (start : ℕ) (runs : List (ℕ × ℕ)) : Prop where
  mem_iff : ∀ first next, (first, next) ∈ runs ↔ start ≤ first ∧ IsRun all first next
  pairwise : runs.Pairwise fun run other => run.2 < other.1

/-! ## Reading items -/

/-- The tokens of items; `token` holds the letters of the token that is being read. -/
def collect (quoted : Bool) (token : Option (List Char)) : List Item → List String
  | [] => (token.map String.ofList).toList
  | item :: rest =>
      if item.isGap && !quoted then
        (token.map String.ofList).toList ++ collect quoted none rest
      else
        collect (quoted ^^ decide (item = .toggle)) (some (token.getD [] ++ item.read?.toList)) rest

/-- Splitting a line reads its items. -/
theorem tokens_eq_collect (quoted : Bool) (token : Option (List Char)) (chars : List Char) :
    tokens quoted token chars = collect quoted (token.map List.reverse) (items chars) := by
  fun_induction tokens quoted token chars with
  | case1 quoted token => simp [items, collect, Function.comp_def]
  | case2 quoted token rest ih =>
    rw [ih, items, collect]
    cases token <;> simp [Item.isGap, Item.read?]
  | case3 quoted token rest hescape ih =>
    rw [ih, items_cons (by simp), if_pos rfl, collect]
    cases token <;> simp [Item.isGap, Item.read?]
  | case4 quoted token c rest hescape hquote hgap ih =>
    rw [ih, items_cons (head?_ne_of_rest hescape), if_neg hquote, collect, Item.isGap_letter,
      if_pos hgap]
    simp [Function.comp_def]
  | case5 quoted token c rest hescape hquote hgap ih =>
    rw [ih, items_cons (head?_ne_of_rest hescape), if_neg hquote, collect, Item.isGap_letter,
      if_neg hgap]
    cases token <;> simp [Item.read?]

/-! ## What splitting remembers -/

/-- The part of a run that is read so far; where it is empty, a run can begin. -/
structure Open (all : List Item) (start stop : ℕ) : Prop where
  le : start ≤ stop
  le_length : stop ≤ all.length
  not_separates : ∀ place, start ≤ place → place < stop → ¬ Separates all place
  separates_before : ∀ place, place + 1 = start → Separates all place

/-- The run that is read so far, if there is one. -/
def openRun (start stop : ℕ) : List (ℕ × ℕ) := if start < stop then [(start, stop)] else []

/-- The letters of the run that is read so far, if there is one. -/
def openToken (all : List Item) (start stop : ℕ) : Option (List Char) :=
  if start < stop then some (letters all start stop) else none

/-- The run that is read so far is the only one. -/
theorem mem_openRun {run : ℕ × ℕ} :
    run ∈ openRun start stop ↔ start < stop ∧ run = (start, stop) := by
  rw [openRun]
  split <;> simp [*]

/-- One run is in order. -/
theorem pairwise_openRun (start stop : ℕ) :
    (openRun start stop).Pairwise fun run other => run.2 < other.1 := by
  rw [openRun]
  split <;> simp

/-- The token that is read so far is that of the run. -/
theorem toList_openToken (all : List Item) (start stop : ℕ) :
    ((openToken all start stop).map String.ofList).toList =
      (openRun start stop).map fun run => String.ofList (letters all run.1 run.2) := by
  rw [openToken, openRun]
  split <;> rfl

/-- What the next item of a line does to the items before it. -/
theorem of_drop_eq_cons (h : all.drop stop = item :: rest) :
    stop < all.length ∧ all.drop (stop + 1) = rest ∧ all[stop]? = some item ∧
      isQuoted (all.take (stop + 1)) =
        (isQuoted (all.take stop) ^^ decide (item = .toggle)) ∧
      (Separates all stop ↔ (item.isGap && !isQuoted (all.take stop)) = true) := by
  have hget : all[stop]? = some item := by
    rw [← List.head?_drop, h, List.head?_cons]
  refine ⟨(List.getElem?_eq_some_iff.mp hget).1, ?_, hget, ?_, ?_⟩
  · rw [← List.tail_drop, h, List.tail_cons]
  · rw [List.take_add_one, hget, Option.toList_some, isQuoted_append, isQuoted_singleton]
  · simp [Separates, hget, isQuoted]

namespace Open

/-- At the beginning of a line nothing is read. -/
theorem zero (all : List Item) : Open all 0 0 :=
  ⟨Nat.le_refl 0, Nat.zero_le _, fun _ _ hlt => absurd hlt (Nat.not_lt_zero _),
    fun _ hplace => absurd hplace (Nat.succ_ne_zero _)⟩

/-- Behind a separator nothing is read of the next run. -/
theorem restart (hlt : stop < all.length) (hseparates : Separates all stop) :
    Open all (stop + 1) (stop + 1) :=
  ⟨Nat.le_refl _, hlt, fun _ hge hplace => absurd hplace (Nat.not_lt.mpr hge),
    fun _ hplace => Nat.succ_injective hplace ▸ hseparates⟩

/-- An item that is no separator is read as a part of the run. -/
theorem extend (h : Open all start stop) (hlt : stop < all.length)
    (hseparates : ¬ Separates all stop) : Open all start (stop + 1) where
  le := Nat.le_succ_of_le h.le
  le_length := hlt
  not_separates place hge hplace := by
    rcases Nat.lt_succ_iff_lt_or_eq.mp hplace with hless | rfl
    · exact h.not_separates place hge hless
    · exact hseparates
  separates_before := h.separates_before

/-- The letter of such an item is the last one of the token. -/
theorem openToken_succ (h : Open all start stop) (hget : all[stop]? = some item) :
    openToken all start (stop + 1) =
      some ((openToken all start stop).getD [] ++ item.read?.toList) := by
  have hletters : letters all start (stop + 1) = letters all start stop ++ item.read?.toList := by
    have hplace : (all.drop start)[stop - start]? = some item := by
      rw [List.getElem?_drop, Nat.add_sub_cancel' h.le, hget]
    rw [letters, letters, List.extract_eq_take_drop, List.extract_eq_take_drop,
      Nat.succ_sub h.le, Nat.succ_eq_add_one, List.take_add_one, hplace, List.filterMap_append]
    cases hread : item.read? <;> simp [hread]
  rw [openToken, if_pos (Nat.lt_succ_of_le h.le), hletters, openToken]
  split
  · rfl
  · have heq : start = stop := Nat.le_antisymm h.le (Nat.le_of_not_lt ‹_›)
    simp [heq, letters]

/-- A run that ends is the only one from its beginning to its end. -/
theorem isRun_iff (h : Open all start stop) (hend : stop < all.length → Separates all stop)
    {first next : ℕ} :
    start ≤ first ∧ first ≤ stop ∧ IsRun all first next ↔ (first, next) ∈ openRun start stop := by
  rw [mem_openRun, Prod.mk.injEq]
  constructor
  · rintro ⟨hstart, hstop, hrun⟩
    obtain rfl : first = start := by
      by_contra hne
      obtain ⟨before, rfl⟩ : ∃ before, first = before + 1 := ⟨first - 1, by omega⟩
      exact h.not_separates before (by omega) hstop (hrun.separates_before before rfl)
    have hlt : first < stop := by
      refine Nat.lt_of_le_of_ne hstop fun heq => ?_
      subst heq
      have hlength := Nat.lt_of_lt_of_le hrun.lt hrun.le_length
      exact hrun.not_separates first (Nat.le_refl _) hrun.lt (hend hlength)
    refine ⟨hlt, rfl, ?_⟩
    rcases Nat.lt_trichotomy next stop with hless | heq | hgreater
    · have hnext := hrun.separates_next (Nat.lt_of_lt_of_le hless h.le_length)
      exact absurd hnext (h.not_separates next (Nat.le_of_lt hrun.lt) hless)
    · exact heq
    · have hstops := hend (Nat.lt_of_lt_of_le hgreater hrun.le_length)
      exact absurd hstops (hrun.not_separates stop hstop hgreater)
  · rintro ⟨hlt, rfl, rfl⟩
    exact ⟨Nat.le_refl _, Nat.le_of_lt hlt, hlt, h.le_length, h.not_separates,
      h.separates_before, hend⟩

/-- At the end of a line the run that is read so far is the last one. -/
theorem runsFrom_length (h : Open all start all.length) :
    RunsFrom all start (openRun start all.length) where
  mem_iff first next := by
    rw [← h.isRun_iff fun hlt => absurd hlt (Nat.lt_irrefl _)]
    exact ⟨fun ⟨hstart, _, hrun⟩ => ⟨hstart, hrun⟩,
      fun ⟨hstart, hrun⟩ => ⟨hstart, Nat.le_trans (Nat.le_of_lt hrun.lt) hrun.le_length, hrun⟩⟩
  pairwise := pairwise_openRun start all.length

/-- At a separator the run that is read so far comes before all that begin behind it. -/
theorem runsFrom_append (h : Open all start stop) (hseparates : Separates all stop)
    {runs : List (ℕ × ℕ)} (hruns : RunsFrom all (stop + 1) runs) :
    RunsFrom all start (openRun start stop ++ runs) where
  mem_iff first next := by
    rw [List.mem_append, ← h.isRun_iff fun _ => hseparates, hruns.mem_iff]
    constructor
    · rintro (⟨hstart, -, hrun⟩ | ⟨hstop, hrun⟩)
      · exact ⟨hstart, hrun⟩
      · exact ⟨Nat.le_trans h.le (Nat.le_of_lt hstop), hrun⟩
    · rintro ⟨hstart, hrun⟩
      rcases Nat.lt_or_ge stop first with hgreater | hle
      · exact Or.inr ⟨hgreater, hrun⟩
      · exact Or.inl ⟨hstart, hle, hrun⟩
  pairwise := by
    rw [List.pairwise_append]
    refine ⟨pairwise_openRun start stop, hruns.pairwise, ?_⟩
    rintro run hrun ⟨first, next⟩ hother
    obtain ⟨-, rfl⟩ := mem_openRun.mp hrun
    exact ((hruns.mem_iff first next).mp hother).1

end Open

/-- Reading the rest of some items gives the tokens of the run that is read so far and of all runs
behind it. -/
theorem exists_runsFrom (h : Open all start stop) (hrest : all.drop stop = rest) :
    ∃ runs, RunsFrom all start runs ∧
      collect (isQuoted (all.take stop)) (openToken all start stop) rest =
        runs.map fun run => String.ofList (letters all run.1 run.2) := by
  induction rest generalizing start stop with
  | nil =>
    obtain rfl : stop = all.length := Nat.le_antisymm h.le_length (List.drop_eq_nil_iff.mp hrest)
    exact ⟨_, h.runsFrom_length, toList_openToken _ _ _⟩
  | cons item rest ih =>
    obtain ⟨hlt, hdrop, hget, hquoted, hiff⟩ := of_drop_eq_cons hrest
    by_cases hseparates : Separates all stop
    · obtain ⟨runs, hruns, hcollect⟩ := ih (.restart hlt hseparates) hdrop
      refine ⟨_, h.runsFrom_append hseparates hruns, ?_⟩
      rw [hquoted, decide_eq_false (ne_toggle_of_gap (hiff.mp hseparates)), Bool.xor_false,
        openToken, if_neg (Nat.lt_irrefl _)] at hcollect
      rw [collect, if_pos (hiff.mp hseparates), toList_openToken, hcollect, List.map_append]
    · obtain ⟨runs, hruns, hcollect⟩ := ih (h.extend hlt hseparates) hdrop
      refine ⟨runs, hruns, ?_⟩
      rw [collect, if_neg (mt hiff.mpr hseparates), ← hquoted, ← h.openToken_succ hget, hcollect]

/-- The letters of the tokens that are read are those of the items that do not separate tokens. -/
theorem flatMap_collect (token : Option (List Char)) (hrest : all.drop stop = rest) :
    (collect (isQuoted (all.take stop)) token rest).flatMap String.toList =
      token.getD [] ++ (rest.zipIdx stop).filterMap (kept? all) := by
  induction rest generalizing token stop with
  | nil => cases token <;> simp [collect]
  | cons item rest ih =>
    obtain ⟨-, hdrop, -, hquoted, hiff⟩ := of_drop_eq_cons hrest
    rw [List.zipIdx_cons, List.filterMap_cons, collect, kept?]
    by_cases hseparates : Separates all stop
    · have hnone := ih none hdrop
      rw [hquoted, decide_eq_false (ne_toggle_of_gap (hiff.mp hseparates)), Bool.xor_false] at hnone
      rw [if_pos (hiff.mp hseparates), if_pos hseparates, List.flatMap_append, hnone]
      cases token <;> simp
    · rw [if_neg (mt hiff.mpr hseparates), if_neg hseparates, ← hquoted, ih _ hdrop]
      cases hread : item.read? <;> simp

/-- The tokens of a line by its items: there is one way to read the line as items, there is one
token for each maximal run without separators, in order, with the letters of the run, and all
letters of the line but those of separators are in the tokens, in order. -/
theorem split_eq_map_runs (line : String) :
    (∀ found, Decomposes found line.toList ↔ found = items line.toList) ∧
      (∃ runs : List (ℕ × ℕ),
        (∀ first next, (first, next) ∈ runs ↔ IsRun (items line.toList) first next) ∧
        runs.Pairwise (fun run other => run.2 < other.1) ∧
        split line =
          runs.map fun run => String.ofList (letters (items line.toList) run.1 run.2)) ∧
      (split line).flatMap String.toList =
        (items line.toList).zipIdx.filterMap (kept? (items line.toList)) := by
  have hsplit : split line = collect (isQuoted ((items line.toList).take 0))
      (openToken (items line.toList) 0 0) (items line.toList) := tokens_eq_collect false none _
  refine ⟨fun found => ⟨Decomposes.eq_items, ?_⟩, ?_, ?_⟩
  · rintro rfl
    exact decomposes_items _
  · obtain ⟨runs, hruns, hcollect⟩ := exists_runsFrom (.zero _) List.drop_zero
    refine ⟨runs, fun first next => ?_, hruns.pairwise, hsplit.trans hcollect⟩
    rw [hruns.mem_iff, and_iff_right (Nat.zero_le first)]
  · rw [hsplit]
    exact flatMap_collect none List.drop_zero

example : items "a\\\"b \"".toList =
    [.letter 'a', .escaped, .letter 'b', .letter ' ', .toggle] := by decide

end CommandLine.Line
