/-!
# Blank characters

White space is what Unicode's property `White_Space` says it is, and nothing else: the zero-width
space, the byte order mark and the control characters `U+001C`–`U+001F` are not blank.

Main definitions: `isBlank`, the three trims, `allBlank`.  Main statements: a trimmed end carries
no blank (`head?_trimStart`), trimming is idempotent (`trimStart_trimStart`, `trimEnd_trimEnd`),
and every character that the core library counts as white space is blank
(`isBlank_of_isWhitespace`).
-/

namespace LiveExcerpts.Text

/-- The code points of Unicode's `White_Space` property, as closed intervals. -/
def blankRanges : List (Nat × Nat) :=
  [(0x09, 0x0D), (0x20, 0x20), (0x85, 0x85), (0xA0, 0xA0), (0x1680, 0x1680),
   (0x2000, 0x200A), (0x2028, 0x2029), (0x202F, 0x202F), (0x205F, 0x205F), (0x3000, 0x3000)]

/-- A character is blank when its code point lies in one of the `blankRanges`. -/
def isBlank (c : Char) : Bool :=
  blankRanges.any fun (lo, hi) => lo ≤ c.toNat && c.toNat ≤ hi

/-- A text is blank when every character of it is; the empty text is. -/
def allBlank (cs : List Char) : Bool := cs.all isBlank

/-- The text without its leading blanks. -/
def trimStart (cs : List Char) : List Char := cs.dropWhile isBlank

/-- The text without its trailing blanks. -/
def trimEnd (cs : List Char) : List Char := (cs.reverse.dropWhile isBlank).reverse

/-- The text without leading and trailing blanks. -/
def trim (cs : List Char) : List Char := trimEnd (trimStart cs)

/-! ## Laws of the trims -/

@[simp] theorem trimStart_nil : trimStart [] = [] := rfl

theorem trimStart_cons (c : Char) (cs : List Char) :
    trimStart (c :: cs) = if isBlank c then trimStart cs else c :: cs := by
  simp only [trimStart, List.dropWhile_cons]

@[simp] theorem trimEnd_nil : trimEnd [] = [] := rfl

/-- What is left of a text does not begin with a blank. -/
theorem head?_trimStart {cs : List Char} {c : Char} (h : (trimStart cs).head? = some c) :
    isBlank c = false := by
  induction cs with
  | nil => simp at h
  | cons d ds ih =>
      rw [trimStart_cons] at h
      split at h
      · exact ih h
      · next hd => obtain rfl : d = c := by simpa using h
                   simpa using hd

@[simp] theorem trimStart_trimStart (cs : List Char) : trimStart (trimStart cs) = trimStart cs := by
  induction cs with
  | nil => rfl
  | cons c cs ih =>
      rw [trimStart_cons]
      split
      · exact ih
      · next hc => rw [trimStart_cons, if_neg hc]

@[simp] theorem trimEnd_trimEnd (cs : List Char) : trimEnd (trimEnd cs) = trimEnd cs := by
  have h := trimStart_trimStart cs.reverse
  simp only [trimStart] at h
  simp only [trimEnd, List.reverse_reverse, h]

/-- A text is blank exactly when trimming leaves nothing of it. -/
theorem trimStart_eq_nil_iff {cs : List Char} : trimStart cs = [] ↔ allBlank cs = true := by
  induction cs with
  | nil => simp [allBlank]
  | cons c cs ih =>
      rw [trimStart_cons]
      by_cases hc : isBlank c = true
      · simp only [hc, if_true, ih, allBlank, List.all_cons, Bool.true_and]
      · simp [hc, allBlank]

/-- The core library's white space is blank. -/
theorem isBlank_of_isWhitespace {c : Char} (h : c.isWhitespace = true) : isBlank c = true := by
  simp only [Char.isWhitespace, Bool.or_eq_true, decide_eq_true_eq] at h
  rcases h with ((rfl | rfl) | rfl) | rfl <;> rfl

end LiveExcerpts.Text
