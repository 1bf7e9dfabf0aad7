import LiveExcerpts.Text.Blank
/-!
# Splitting texts

One splitter at single characters, `pieces`, and the two readings of it that the formats need:
`words` between blanks and `lines` between line feeds.  `splitFirst?` cuts at the first occurrence
of a whole pattern.

Main statements: the pieces are those of `List.splitOnP` (`pieces_eq_splitOnP`), joined by the
separator they give the text back (`intercalate_pieces`), and a cut at the first occurrence loses
nothing but the pattern (`eq_append_of_splitFirst?`).
-/

namespace LiveExcerpts.Text

/-! ## Pieces between separators -/

/-- The text cut at every character that `sep` picks, which is dropped.  There is one piece more
than there are separators, so the list is never empty. -/
def pieces (sep : Char → Bool) (cs : List Char) : List (List Char) :=
  cs.foldr
    (fun c rest =>
      if sep c then [] :: rest
      else match rest with
        | [] => [[c]]
        | piece :: more => (c :: piece) :: more)
    [[]]

@[simp] theorem pieces_nil (sep : Char → Bool) : pieces sep [] = [[]] := rfl

/-- The pieces are those of the library's splitter, whose laws they take over. -/
theorem pieces_eq_splitOnP (sep : Char → Bool) (cs : List Char) :
    pieces sep cs = cs.splitOnP sep := by
  induction cs with
  | nil => rfl
  | cons c cs ih =>
      rw [List.splitOnP_cons_eq_if_modifyHead, ← ih]
      simp only [pieces, List.foldr_cons]
      split
      · rfl
      · -- There always is a first piece for the character to join.
        obtain ⟨piece, more, hp⟩ := List.exists_cons_of_ne_nil (List.splitOnP_ne_nil sep cs)
        rw [← ih, pieces] at hp
        rw [hp]
        rfl

theorem pieces_cons_of_sep {sep : Char → Bool} {c : Char} (h : sep c = true) (cs : List Char) :
    pieces sep (c :: cs) = [] :: pieces sep cs := by
  simp [pieces, h]

theorem pieces_ne_nil (sep : Char → Bool) (cs : List Char) : pieces sep cs ≠ [] := by
  rw [pieces_eq_splitOnP]
  exact List.splitOnP_ne_nil sep cs

/-- A character that does not separate joins the first piece of what follows. -/
theorem pieces_cons_of_not_sep {sep : Char → Bool} {c : Char} (h : sep c = false)
    (cs : List Char) :
    ∃ piece more, pieces sep cs = piece :: more ∧ pieces sep (c :: cs) = (c :: piece) :: more := by
  obtain ⟨piece, more, hp⟩ := List.exists_cons_of_ne_nil (pieces_ne_nil sep cs)
  refine ⟨piece, more, hp, ?_⟩
  rw [pieces_eq_splitOnP] at hp ⊢
  rw [List.splitOnP_cons_eq_if_modifyHead, h, hp]
  rfl

/-- The characters of the pieces are those of the text that do not separate. -/
theorem mem_of_mem_pieces {sep : Char → Bool} {cs piece : List Char} {c : Char}
    (hp : piece ∈ pieces sep cs) (hc : c ∈ piece) : c ∈ cs ∧ sep c = false := by
  induction cs generalizing piece with
  | nil =>
      obtain rfl : piece = [] := by simpa using hp
      simp at hc
  | cons d ds ih =>
      by_cases hd : sep d = true
      · rw [pieces_cons_of_sep hd, List.mem_cons] at hp
        rcases hp with rfl | hp
        · simp at hc
        · exact ⟨List.mem_cons_of_mem _ (ih hp hc).1, (ih hp hc).2⟩
      · rw [Bool.not_eq_true] at hd
        obtain ⟨first, more, hfirst, hcons⟩ := pieces_cons_of_not_sep hd ds
        rw [hcons, List.mem_cons] at hp
        rcases hp with rfl | hp
        · rcases List.mem_cons.1 hc with rfl | hc
          · exact ⟨List.mem_cons_self, hd⟩
          · have := ih (hfirst ▸ List.mem_cons_self) hc
            exact ⟨List.mem_cons_of_mem _ this.1, this.2⟩
        · have := ih (hfirst ▸ List.mem_cons_of_mem _ hp) hc
          exact ⟨List.mem_cons_of_mem _ this.1, this.2⟩

/-- Cutting at one character and joining by it are inverse. -/
theorem intercalate_pieces (d : Char) (cs : List Char) :
    [d].intercalate (pieces (· == d) cs) = cs := by
  rw [pieces_eq_splitOnP, ← List.splitOn_eq_splitOnP, List.intercalate_splitOn]

/-- A separator parts the pieces before it from those after it. -/
theorem pieces_append_of_sep {sep : Char → Bool} {c : Char} (h : sep c = true)
    (before after : List Char) :
    pieces sep (before ++ c :: after) = pieces sep before ++ pieces sep after := by
  simp only [pieces_eq_splitOnP, List.splitOnP_append_cons before after h]

/-- A text without separators is one piece. -/
theorem pieces_of_not_sep {sep : Char → Bool} {cs : List Char} (h : ∀ c ∈ cs, sep c = false) :
    pieces sep cs = [cs] := by
  rw [pieces_eq_splitOnP, List.splitOnP_eq_singleton h]

/-- Joining texts by a character that none of them has and cutting there are inverse. -/
theorem pieces_intercalate {d : Char} {texts : List (List Char)} (hne : texts ≠ [])
    (h : ∀ text ∈ texts, d ∉ text) : pieces (· == d) ([d].intercalate texts) = texts := by
  rw [pieces_eq_splitOnP, ← List.splitOn_eq_splitOnP, List.splitOn_intercalate d h hne]

/-! ## Words -/

/-- The maximal runs of characters that are not blank, in order. -/
def words (cs : List Char) : List (List Char) :=
  (pieces isBlank cs).filter fun piece => !piece.isEmpty

/-! ## Lines -/

/-- A line without the carriage return that belongs to its line end. -/
def dropReturn (line : List Char) : List Char :=
  if line.getLast? = some '\r' then line.dropLast else line

/-- The lines of a text.  A line ends at a line feed, and a carriage return right before it is
part of the line end; what follows the last line feed is a line of its own, as it stands, unless it
is empty. -/
def lines (cs : List Char) : List (List Char) :=
  let cut := pieces (· == '\n') cs
  cut.dropLast.map dropReturn ++ (cut.getLast?.toList.filter fun line => !line.isEmpty)

/-- Lines written one below the other, with no line feed after the last. -/
def joinLines (ls : List (List Char)) : List Char := ['\n'].intercalate ls

/-! ## The first occurrence of a pattern -/

/-- The text before and after the first occurrence of `pattern`. -/
def splitFirst? (pattern : List Char) : List Char → Option (List Char × List Char)
  | [] => if pattern.isEmpty then some ([], []) else none
  | c :: cs =>
    if pattern.isPrefixOf (c :: cs) then some ([], (c :: cs).drop pattern.length)
    else (splitFirst? pattern cs).map fun (before, after) => (c :: before, after)

/-- The text has `pattern` somewhere in it. -/
def contains (pattern : List Char) : List Char → Bool
  | [] => pattern.isEmpty
  | c :: cs => pattern.isPrefixOf (c :: cs) || contains pattern cs

/-- A cut at the first occurrence loses nothing but the pattern. -/
theorem eq_append_of_splitFirst? {pattern cs before after : List Char}
    (h : splitFirst? pattern cs = some (before, after)) : cs = before ++ pattern ++ after := by
  induction cs generalizing before with
  | nil =>
      rw [splitFirst?] at h
      split at h
      · next hp => obtain ⟨rfl, rfl⟩ : [] = before ∧ [] = after := by simpa using h
                   simpa using hp.symm
      · simp at h
  | cons c cs ih =>
      rw [splitFirst?] at h
      split at h
      · next hp =>
          obtain ⟨rest, hrest⟩ := List.isPrefixOf_iff_prefix.1 hp
          obtain ⟨rfl, rfl⟩ : [] = before ∧ (c :: cs).drop pattern.length = after := by
            simpa using h
          rw [← hrest]
          simp
      · obtain ⟨⟨b, a⟩, hb, hab⟩ := Option.map_eq_some_iff.1 h
        obtain ⟨rfl, rfl⟩ : c :: b = before ∧ a = after := by simpa using hab
        rw [ih hb]
        simp

/-- A pattern occurs exactly where there is a cut at its first occurrence. -/
theorem isSome_splitFirst? (pattern cs : List Char) :
    (splitFirst? pattern cs).isSome = contains pattern cs := by
  induction cs with
  | nil => simp only [splitFirst?, contains]; split <;> simp_all
  | cons c cs ih =>
      simp only [splitFirst?, contains]
      split
      · next hp => simp [hp]
      · next hp => simp [hp, ih]

/-! ## Strings -/

/-- The text of a string, worked on as a list of characters. -/
def onChars (f : List Char → List Char) (s : String) : String := String.ofList (f s.toList)

/-- Every occurrence of `c` replaced by `replacement`. -/
def substitute (c : Char) (replacement : List Char) (cs : List Char) : List Char :=
  cs.flatMap fun d => if d = c then replacement else [d]

end LiveExcerpts.Text
