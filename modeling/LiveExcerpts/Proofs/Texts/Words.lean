import LiveExcerpts.Text.Split
/-!
# Blanks around words

A text is its words with blanks around them and between them.  Which blanks these are, and how many,
cannot be told from the words, and neither do the trims keep any of those at the ends.

Main definition: `IsSpaced`.  Main statement: a text is spaced out from its words and from no others
(`isSpaced_iff_words_eq`).
-/

namespace LiveExcerpts.Text

/-! ## Blank texts -/

@[simp] theorem allBlank_nil : allBlank [] = true := rfl

theorem allBlank_cons (c : Char) (cs : List Char) :
    allBlank (c :: cs) = (isBlank c && allBlank cs) := rfl

theorem allBlank_append (cs ds : List Char) :
    allBlank (cs ++ ds) = (allBlank cs && allBlank ds) := List.all_append

theorem allBlank_reverse (cs : List Char) : allBlank cs.reverse = allBlank cs := List.all_reverse

/-! ## Trimming -/

/-- Leading blanks go with the trim. -/
theorem trimStart_append_of_blank {gap : List Char} (h : allBlank gap = true) (cs : List Char) :
    trimStart (gap ++ cs) = trimStart cs := by
  unfold trimStart
  rw [List.dropWhile_append_of_pos]
  exact fun c hc => List.all_eq_true.1 h c hc

/-- Trailing blanks go with the trim. -/
theorem trimEnd_append_of_blank {gap : List Char} (h : allBlank gap = true) (cs : List Char) :
    trimEnd (cs ++ gap) = trimEnd cs := by
  have hreverse := trimStart_append_of_blank ((allBlank_reverse gap).trans h) cs.reverse
  unfold trimStart at hreverse
  unfold trimEnd
  rw [List.reverse_append, hreverse]

/-- Blanks at both ends go with the trim. -/
theorem trim_append_of_blank {lead tail : List Char} (hlead : allBlank lead = true)
    (htail : allBlank tail = true) (cs : List Char) : trim (lead ++ cs ++ tail) = trim cs := by
  unfold trim
  rw [List.append_assoc, trimStart_append_of_blank hlead]
  by_cases hcs : allBlank cs = true
  · have hboth : allBlank (cs ++ tail) = true := by rw [allBlank_append, hcs, htail]; rfl
    rw [trimStart_eq_nil_iff.2 hcs, trimStart_eq_nil_iff.2 hboth]
  · have hstop : trimStart (cs ++ tail) = trimStart cs ++ tail := by
      unfold trimStart
      rw [List.dropWhile_append, if_neg]
      rwa [← trimStart, List.isEmpty_iff, trimStart_eq_nil_iff]
    rw [hstop, trimEnd_append_of_blank htail]

/-- The trim at the end leaves everything up to a character that is not blank. -/
theorem trimEnd_append_cons {c : Char} (h : isBlank c = false) (cs ds : List Char) :
    trimEnd (cs ++ c :: ds) = cs ++ c :: trimEnd ds := by
  have hstop : (ds.reverse ++ c :: cs.reverse).dropWhile isBlank =
      ds.reverse.dropWhile isBlank ++ c :: cs.reverse := by
    rw [List.dropWhile_append, List.dropWhile_cons_of_neg (by simp [h])]
    split
    · next hempty => rw [List.isEmpty_iff.1 hempty, List.nil_append]
    · rfl
  unfold trimEnd
  rw [List.reverse_append, List.reverse_cons, List.append_assoc, List.singleton_append, hstop]
  simp

/-- What is left of a text does not end with a blank. -/
theorem getLast?_trimEnd {cs : List Char} {c : Char} (h : (trimEnd cs).getLast? = some c) :
    isBlank c = false := by
  unfold trimEnd at h
  rw [List.getLast?_reverse] at h
  exact head?_trimStart h

/-- What the trim takes away at the end is blank. -/
theorem exists_eq_trimEnd_append (cs : List Char) :
    ∃ gap, allBlank gap = true ∧ cs = trimEnd cs ++ gap := by
  refine ⟨(cs.reverse.takeWhile isBlank).reverse, ?_, ?_⟩
  · rw [allBlank_reverse]
    exact List.all_takeWhile
  · unfold trimEnd
    rw [← List.reverse_append, List.takeWhile_append_dropWhile, List.reverse_reverse]

/-- What the trim takes away at both ends is blank. -/
theorem exists_eq_append_trim (cs : List Char) :
    ∃ lead tail, allBlank lead = true ∧ allBlank tail = true ∧ cs = lead ++ trim cs ++ tail := by
  obtain ⟨tail, htail, heq⟩ := exists_eq_trimEnd_append (trimStart cs)
  refine ⟨cs.takeWhile isBlank, tail, ?_, htail, ?_⟩
  · exact List.all_takeWhile
  · calc cs = cs.takeWhile isBlank ++ trimStart cs := (List.takeWhile_append_dropWhile).symm
      _ = cs.takeWhile isBlank ++ (trim cs ++ tail) := by rw [trim, ← heq]
      _ = cs.takeWhile isBlank ++ trim cs ++ tail := (List.append_assoc _ _ _).symm

theorem trim_eq_nil_iff {cs : List Char} : trim cs = [] ↔ allBlank cs = true := by
  constructor
  · intro h
    obtain ⟨lead, tail, hlead, htail, heq⟩ := exists_eq_append_trim cs
    rw [heq, h, List.append_nil, allBlank_append, hlead, htail]
    rfl
  · intro h
    unfold trim
    rw [trimStart_eq_nil_iff.2 h, trimEnd_nil]

theorem dropWhile_of_head? {α : Type} {p : α → Bool} {l : List α} (h : ∀ a ∈ l.head?, p a = false) :
    l.dropWhile p = l := by
  cases l with
  | nil => rfl
  | cons a l => exact List.dropWhile_cons_of_neg (Bool.not_eq_true _ ▸ h a rfl)

/-! ## Words -/

/-- A text that can be a word: it is not empty and has no blank in it. -/
def IsWord (word : List Char) : Prop := word ≠ [] ∧ ∀ c ∈ word, isBlank c = false

instance : DecidablePred IsWord := fun word =>
  decidable_of_iff (word ≠ [] ∧ word.all (fun c => !isBlank c) = true) (by simp [IsWord])

/-- The text is made of these words in order, with blanks before, between and after them. -/
inductive IsSpaced : List (List Char) → List Char → Prop
  /-- Blanks only. -/
  | nil {gap : List Char} (hgap : allBlank gap = true) : IsSpaced [] gap
  /-- Blanks and a word, after which the text ends or goes on with a blank. -/
  | cons {gap word rest : List Char} {words : List (List Char)} (hgap : allBlank gap = true)
      (hword : IsWord word) (hrest : ∀ c ∈ rest.head?, isBlank c = true)
      (hwords : IsSpaced words rest) : IsSpaced (word :: words) (gap ++ word ++ rest)

/-- Blanks in front change nothing. -/
theorem IsSpaced.append_of_blank {ws : List (List Char)} {cs gap : List Char} (h : IsSpaced ws cs)
    (hgap : allBlank gap = true) : IsSpaced ws (gap ++ cs) := by
  cases h with
  | nil hcs => exact .nil (by rw [allBlank_append, hgap, hcs]; rfl)
  | @cons gap' word rest words hgap' hword hrest hwords =>
      have hgaps : allBlank (gap ++ gap') = true := by rw [allBlank_append, hgap, hgap']; rfl
      have hcons := IsSpaced.cons hgaps hword hrest hwords
      simpa only [List.append_assoc] using hcons

/-- Every text is spaced out from some words. -/
theorem exists_isSpaced (cs : List Char) : ∃ ws, IsSpaced ws cs := by
  induction cs with
  | nil => exact ⟨[], .nil rfl⟩
  | cons c cs ih =>
      obtain ⟨ws, hws⟩ := ih
      by_cases hc : isBlank c = true
      · have hgap : allBlank [c] = true := by rw [allBlank_cons, hc]; rfl
        exact ⟨ws, hws.append_of_blank hgap⟩
      rw [Bool.not_eq_true] at hc
      have hone : IsWord [c] := ⟨List.cons_ne_nil c [], by simpa using hc⟩
      by_cases hhead : ∀ d ∈ cs.head?, isBlank d = true
      · exact ⟨[c] :: ws, .cons allBlank_nil hone hhead hws⟩
      -- The character goes on with a word, which is the first one of the rest.
      · cases hws with
        | @nil gap hgap =>
            refine absurd (fun d hd => ?_) hhead
            exact List.all_eq_true.1 hgap d (List.mem_of_mem_head? hd)
        | @cons gap word rest words hgap hword hrest hwords =>
            cases gap with
            | nil =>
                refine ⟨(c :: word) :: words, .cons allBlank_nil ⟨by simp, ?_⟩ hrest hwords⟩
                exact List.forall_mem_cons.2 ⟨hc, hword.2⟩
            | cons d gap =>
                refine absurd (fun e he => ?_) hhead
                obtain rfl : d = e := by simpa using he
                exact (Bool.and_eq_true_iff.1 hgap).1

/-- **Words split at a blank.** -/
theorem words_append_cons_of_blank {c : Char} (h : isBlank c = true) (cs ds : List Char) :
    words (cs ++ c :: ds) = words cs ++ words ds := by
  unfold words
  rw [pieces_append_of_sep h, List.filter_append]

theorem words_append_of_blank {gap : List Char} (h : allBlank gap = true) (cs : List Char) :
    words (gap ++ cs) = words cs := by
  induction gap with
  | nil => rfl
  | cons c gap ih =>
      obtain ⟨hc, hgap⟩ := Bool.and_eq_true_iff.1 h
      have hsplit := words_append_cons_of_blank hc [] (gap ++ cs)
      exact hsplit.trans (ih hgap)

theorem words_of_isWord {word : List Char} (h : IsWord word) : words word = [word] := by
  unfold words
  rw [pieces_of_not_sep h.2, List.filter_cons_of_pos]
  · rfl
  · simpa using h.1

/-- A word ends where the text ends or a blank follows. -/
theorem words_append_of_isWord {word rest : List Char} (h : IsWord word)
    (hrest : ∀ c ∈ rest.head?, isBlank c = true) : words (word ++ rest) = word :: words rest := by
  cases rest with
  | nil => rw [List.append_nil, words_of_isWord h]; rfl
  | cons c rest =>
      have hc : isBlank c = true := hrest c rfl
      have hskip : words (c :: rest) = words rest := words_append_cons_of_blank hc [] rest
      rw [words_append_cons_of_blank hc, words_of_isWord h, hskip]
      rfl

theorem IsSpaced.words_eq {ws : List (List Char)} {cs : List Char} (h : IsSpaced ws cs) :
    words cs = ws := by
  induction h with
  | @nil gap hgap => rw [← List.append_nil gap, words_append_of_blank hgap]; rfl
  | cons hgap hword hrest hwords ih =>
      rw [List.append_assoc, words_append_of_blank hgap, words_append_of_isWord hword hrest, ih]

/-- **A text is spaced out from its words**, and from no others. -/
theorem isSpaced_iff_words_eq {ws : List (List Char)} {cs : List Char} :
    IsSpaced ws cs ↔ words cs = ws := by
  constructor
  · exact IsSpaced.words_eq
  · rintro rfl
    obtain ⟨ws, hws⟩ := exists_isSpaced cs
    rwa [hws.words_eq]

/-- Blanks at the end belong to no word. -/
theorem words_append_blank {gap : List Char} (h : allBlank gap = true) (cs : List Char) :
    words (cs ++ gap) = words cs := by
  cases gap with
  | nil => rw [List.append_nil]
  | cons c gap =>
      obtain ⟨hc, hgap⟩ := Bool.and_eq_true_iff.1 h
      have hnone : words gap = [] := (IsSpaced.nil hgap).words_eq
      rw [words_append_cons_of_blank hc, hnone, List.append_nil]

end LiveExcerpts.Text
