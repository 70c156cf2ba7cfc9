import DatabaseProject.Xml.Char

/-!
# Scanning characters

The steps from which a reader of documents is made. Each gives what it has read and what follows;
that what follows is shorter makes the readers end.
-/

namespace DatabaseProject.Xml

/-- What comes before the first occurrence of a stop text, and what follows it. -/
def upTo? (stop : List Char) : List Char → Option (List Char × List Char)
  | [] => none
  | c :: cs =>
    match stop.isPrefixOf? (c :: cs) with
    | some rest => some ([], rest)
    | none => (upTo? stop cs).map fun found => (c :: found.1, found.2)

/-- The stop text occurs. -/
def hasInfix (stop s : List Char) : Bool := (upTo? stop s).isSome

/-- What follows leading white space. -/
def skipSpaces (s : List Char) : List Char := s.dropWhile isSpace

theorem length_skipSpaces_le (s : List Char) : (skipSpaces s).length ≤ s.length :=
  (List.dropWhile_sublist _).length_le

theorem length_of_isPrefixOf? {stop s rest : List Char} (h : stop.isPrefixOf? s = some rest) :
    s.length = stop.length + rest.length := by
  induction stop generalizing s with
  | nil =>
    cases h
    simp
  | cons a stop ih =>
    cases s with
    | nil => cases h
    | cons b s =>
      have hstep : (if a == b then stop.isPrefixOf? s else none) = some rest := h
      split at hstep
      · have := ih hstep
        simp only [List.length_cons]
        omega
      · cases hstep

theorem length_lt_of_upTo? {stop s front rest : List Char} (hs : stop ≠ [])
    (h : upTo? stop s = some (front, rest)) : rest.length < s.length := by
  induction s generalizing front rest with
  | nil => simp [upTo?] at h
  | cons c cs ih =>
    unfold upTo? at h
    split at h
    · rename_i found hf
      have hl := length_of_isPrefixOf? hf
      have hp := List.length_pos_iff.2 hs
      simp only [Option.some.injEq, Prod.mk.injEq] at h
      obtain ⟨_, rfl⟩ := h
      omega
    · simp only [Option.map_eq_some_iff, Prod.mk.injEq] at h
      obtain ⟨found, hf, _, rfl⟩ := h
      have : found.2.length < cs.length := ih hf
      simp only [List.length_cons]
      omega

end DatabaseProject.Xml
