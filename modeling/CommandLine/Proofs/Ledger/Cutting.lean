import CommandLine.Proofs.Ledger.Access

/-!
# Cutting texts at offsets in bytes

A text can be cut where a character ends, and the places are counted in bytes. A token with a value
in it is cut in front of its first delimiter and one byte behind that place. Whatever characters the
token is made of, the first cut falls between two of them, and so does the second one if the
delimiter takes one byte.
-/

namespace CommandLine.Inline

/-- The bytes that letters take. -/
def size : List Char → ℕ
  | [] => 0
  | c :: rest => c.utf8Size + size rest

/-- The letters up to an offset and those from there on. -/
def cut (letters : List Char) (offset : ℕ) : Except Mishap (List Char × List Char) :=
  match letters with
  | [] => if offset = 0 then return ([], []) else throw (.noBoundary offset)
  | c :: rest =>
      if offset = 0 then return ([], c :: rest)
      else if offset < c.utf8Size then throw (.noBoundary offset)
      else do
        let parts ← cut rest (offset - c.utf8Size)
        return (c :: parts.1, parts.2)

/-- The offset of the first delimiter. -/
def offset? (delimiters : List Char) : List Char → Option ℕ
  | [] => none
  | c :: rest =>
      if delimiters.contains c then some 0
      else (offset? delimiters rest).map (c.utf8Size + ·)

/-- The alias and the value in a token that starts like an option, cut at offsets in bytes. -/
def fetchParts (delimiters : List Char) (token : String) :
    Except Mishap (Option (String × String)) :=
  if token.toList.head?.any startsOption then
    match offset? delimiters token.toList with
    | none => return none
    | some 0 => return none
    | some offset => do
        let front ← cut token.toList offset
        let back ← cut token.toList (offset + 1)
        return some (String.ofList front.1, String.ofList back.2)
  else return none

variable {delimiters letters rest : List Char} {delimiter : Char}

/-- More letters take more bytes. -/
theorem size_append (letters rest : List Char) : size (letters ++ rest) = size letters + size rest := by
  induction letters with
  | nil => exact (Nat.zero_add _).symm
  | cons c letters ih => rw [List.cons_append, size, size, ih, Nat.add_assoc]

/-- The letters of a beginning are cut off at the bytes that they take. -/
theorem cut_append (letters rest : List Char) :
    cut (letters ++ rest) (size letters) = .ok (letters, rest) := by
  induction letters with
  | nil => cases rest <;> rfl
  | cons c letters ih =>
    have hpos := c.utf8Size_pos
    have hsize : size (c :: letters) = c.utf8Size + size letters := rfl
    rw [List.cons_append, cut, if_neg (by omega), if_neg (by omega), hsize, Nat.add_sub_cancel_left,
      ih]
    rfl

/-- The first delimiter stands behind the letters that are none. -/
theorem offset?_eq (delimiters letters : List Char) :
    offset? delimiters letters =
      ((letters.dropWhile (!delimiters.contains ·)).head?.map fun _ =>
        size (letters.takeWhile (!delimiters.contains ·))) := by
  induction letters with
  | nil => rfl
  | cons c rest ih =>
    rw [offset?]
    by_cases hc : delimiters.contains c = true
    · rw [if_pos hc, List.dropWhile_cons_of_neg (by simpa using hc),
        List.takeWhile_cons_of_neg (by simpa using hc)]
      rfl
    · rw [if_neg hc, ih, List.dropWhile_cons_of_pos (by simpa using hc),
        List.takeWhile_cons_of_pos (by simpa using hc), Option.map_map]
      rfl

/-- Cutting in front of a delimiter and one byte behind leaves out a delimiter of one byte. -/
theorem cut_delimiter (hdelimiter : delimiter.utf8Size = 1) (letters rest : List Char) :
    cut (letters ++ delimiter :: rest) (size letters) = .ok (letters, delimiter :: rest) ∧
      cut (letters ++ delimiter :: rest) (size letters + 1) =
        .ok (letters ++ [delimiter], rest) := by
  refine ⟨cut_append letters _, ?_⟩
  have hsize : size (letters ++ [delimiter]) = size letters + 1 := by
    rw [size_append, size, size, hdelimiter]
  rw [← hsize, List.append_cons]
  exact cut_append _ rest

/-- A token is left whole, or it is cut in front of a delimiter and one byte behind that place. -/
theorem fetchParts_cases (delimiters : List Char) (token : String) :
    (split delimiters token = .whole ∧ fetchParts delimiters token = .ok none) ∨
      ∃ letters delimiter rest, delimiter ∈ delimiters ∧
        split delimiters token = (if delimiter.utf8Size = 1 then
          .parts (String.ofList letters) (String.ofList rest) else .torn) ∧
        fetchParts delimiters token = (do
          let front ← cut (letters ++ delimiter :: rest) (size letters)
          let back ← cut (letters ++ delimiter :: rest) (size letters + 1)
          return some (String.ofList front.1, String.ofList back.2)) := by
  have htoken : token.toList.takeWhile (!delimiters.contains ·) ++
      token.toList.dropWhile (!delimiters.contains ·) = token.toList :=
    List.takeWhile_append_dropWhile
  have hfirst := List.head?_dropWhile_not (fun c => !delimiters.contains c) token.toList
  rw [split, fetchParts, offset?_eq]
  generalize token.toList.takeWhile (!delimiters.contains ·) = before at htoken ⊢
  generalize token.toList.dropWhile (!delimiters.contains ·) = after at htoken hfirst ⊢
  rw [← htoken]
  cases after with
  | nil => exact .inl ⟨rfl, ite_self _⟩
  | cons delimiter rest =>
    cases before with
    | nil => exact .inl ⟨rfl, ite_self _⟩
    | cons c before =>
      have hmem : delimiter ∈ delimiters := by simpa using hfirst
      -- The first delimiter is not the first character, so there is something to cut off.
      have hpos := c.utf8Size_pos
      have hsize : size (c :: before) = c.utf8Size + size before := rfl
      obtain ⟨offset, hoffset⟩ : ∃ offset, size (c :: before) = offset + 1 :=
        Nat.exists_eq_add_one.mpr (by omega)
      by_cases hstarts : startsOption c = true
      · refine .inr ⟨c :: before, delimiter, rest, hmem, if_pos hstarts, ?_⟩
        simp only [List.head?_cons, Option.map_some, hoffset]
        exact if_pos hstarts
      · exact .inl ⟨if_neg hstarts, if_neg hstarts⟩

/-- No text is cut inside of a character. -/
theorem cut_inside {offset : ℕ} (hpos : 0 < offset) (hsize : offset < delimiter.utf8Size)
    (letters rest : List Char) :
    cut (letters ++ delimiter :: rest) (size letters + offset) = .error (.noBoundary offset) := by
  induction letters with
  | nil =>
    have hempty : size [] + offset = offset := Nat.zero_add offset
    rw [List.nil_append, hempty, cut, if_neg (by omega), if_pos hsize]
    rfl
  | cons c letters ih =>
    have hletter := c.utf8Size_pos
    have hletters : size (c :: letters) + offset = c.utf8Size + (size letters + offset) :=
      Nat.add_assoc _ _ _
    rw [List.cons_append, hletters, cut, if_neg (by omega), if_neg (by omega),
      Nat.add_sub_cancel_left, ih]
    rfl

/-- Cut at offsets in bytes, a token falls into the same parts, and one that is torn is cut inside of
its delimiter. -/
theorem fetchParts_eq (delimiters : List Char) (token : String) :
    fetchParts delimiters token =
      match split delimiters token with
      | .whole => .ok none
      | .parts text value => .ok (some (text, value))
      | .torn => .error (.noBoundary 1) := by
  rcases fetchParts_cases delimiters token with
    ⟨hsplit, hparts⟩ | ⟨letters, delimiter, rest, hmem, hsplit, hparts⟩
  · rw [hsplit, hparts]
  · by_cases hone : delimiter.utf8Size = 1
    · obtain ⟨hfront, hback⟩ := cut_delimiter hone letters rest
      rw [hsplit, hparts, if_pos hone, hfront, Sequence.ok_bind, hback]
      rfl
    · have hwide : 1 < delimiter.utf8Size :=
        Nat.lt_of_le_of_ne delimiter.utf8Size_pos (Ne.symm hone)
      rw [hsplit, hparts, if_neg hone, cut_append, Sequence.ok_bind, cut_inside Nat.one_pos hwide]
      rfl

/-- A token is cut without mishap at a delimiter of one byte, into the same parts. -/
theorem fetchParts_eq_ok (hdelimiters : ∀ d ∈ delimiters, d.utf8Size = 1) (token : String) :
    fetchParts delimiters token = .ok
      (match split delimiters token with
        | .parts text value => some (text, value)
        | _ => none) := by
  rw [fetchParts_eq]
  cases hsplit : split delimiters token with
  | whole => rfl
  | parts text value => rfl
  | torn => exact absurd hsplit (split_ne_torn hdelimiters token)

end CommandLine.Inline
