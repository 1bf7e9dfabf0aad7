import LiveExcerpts.Text.Split
/-!
# Segments

The text of an excerpt, parted into comments and code.  Source grammars do not matter here: a line
comment runs from `//` to the end of its line, a block comment from `/*` to the `*/` that balances
it, and all else is code.  A `/*` that is never balanced is code, too.

Main definitions: `Piece.ofText`, `Piece.clean?`, `Segment.ofText`, `Segment.toMarkdown`.  Main
statements: the pieces joined are the text (`Piece.flatMap_ofText`), and a block comment once closed
stays closed whatever is written after it (`closing?_append`).
-/

namespace LiveExcerpts

/-- The three sorts of text in an excerpt. -/
inductive SegmentKind where
  /-- A comment between `/*` and `*/`. -/
  | block
  /-- Code. -/
  | code
  /-- A comment after `//`. -/
  | line
deriving DecidableEq, Repr

/-- A stretch of text of one sort, as it stands. -/
structure Piece where
  /-- The sort of text. -/
  kind : SegmentKind
  /-- The text, with the marks of a comment. -/
  text : List Char
deriving DecidableEq, Repr

/-- A stretch of text of one sort, made ready for a page. -/
structure Segment where
  /-- The sort of text. -/
  kind : SegmentKind
  /-- The text: of a comment, without its marks. -/
  text : String
deriving DecidableEq, Repr

/-! ## Where comments end -/

/-- Given the text inside `depth` open block comments, the number of characters up to the end of
the outermost one, counted from `n`.  Pairs `/*` and `*/` are taken from the left and do not
overlap. -/
def closing? (depth n : Nat) : List Char → Option Nat
  | c :: d :: cs =>
    if c = '/' ∧ d = '*' then closing? (depth + 1) (n + 2) cs
    else if c = '*' ∧ d = '/' then
      if depth ≤ 1 then some (n + 2) else closing? (depth - 1) (n + 2) cs
    else closing? depth (n + 1) (d :: cs)
  | _ => none

/-- A character that ends a line comment. -/
def endsLine (c : Char) : Bool := c = '\r' || c = '\n'

/-- The comment that a text begins with: its sort and its length. -/
def commentAt? : List Char → Option (SegmentKind × Nat)
  | '/' :: '/' :: cs => some (.line, 2 + (cs.takeWhile fun c => !endsLine c).length)
  | '/' :: '*' :: cs => (closing? 1 2 cs).map (SegmentKind.block, ·)
  | _ => none

/-! ## Pieces -/

/-- A piece of code, unless there is none. -/
def Piece.code? : List Char → List Piece
  | [] => []
  | c :: cs => [⟨.code, c :: cs⟩]

/-- The pieces of a text that follows the code `code`, given backwards. -/
def Piece.scan (code : List Char) : List Char → List Piece
  | [] => code? code.reverse
  | c :: cs =>
    match commentAt? (c :: cs) with
    | some (kind, n) =>
      code? code.reverse ++ ⟨kind, c :: cs.take (n - 1)⟩ :: scan [] (cs.drop (n - 1))
    | none => scan (c :: code) cs
termination_by cs => cs.length

/-- The pieces of a text: its comments, and the code between them. -/
def Piece.ofText (cs : List Char) : List Piece := scan [] cs

/-! ## Cleaning -/

/-- The text without `lead` in front of it. -/
def dropLead (lead cs : List Char) : List Char :=
  if lead.isPrefixOf cs then cs.drop lead.length else cs

/-- The text without `trail` at its end. -/
def dropTrail (trail cs : List Char) : List Char :=
  if trail.isSuffixOf cs then cs.take (cs.length - trail.length) else cs

/-- The text without the one mark of a documentation comment, `mark` or `!`, in front of it. -/
def dropDocMark (mark : Char) : List Char → List Char
  | c :: cs => if c = mark ∨ c = '!' then cs else c :: cs
  | [] => []

/-- A line inside a block comment, without its indentation and the star that leads it. -/
def dropStar (line : List Char) : List Char :=
  match Text.trimStart line with
  | '*' :: ' ' :: cs => cs
  | '*' :: cs => cs
  | cs => cs

/-- What a block comment says. -/
def blockText (cs : List Char) : List Char :=
  let inner := dropDocMark '*' (dropTrail ['*', '/'] (dropLead ['/', '*'] cs))
  Text.trim (Text.joinLines ((Text.lines inner).map dropStar))

/-- What a line comment says. -/
def lineText (cs : List Char) : List Char :=
  Text.trim (dropDocMark '/' (dropLead ['/', '/'] cs))

/-- Code without the blank lines above it and the blanks below.  The first line keeps its
indentation. -/
def codeText (cs : List Char) : List Char :=
  let indent := ((cs.takeWhile Text.isBlank).reverse.takeWhile (· != '\n')).reverse
  Text.trimEnd (indent ++ cs.dropWhile Text.isBlank)

/-- The mark of a note to the authors, in lower case. -/
def todoMark : List Char := ['t', 'o', 'd', 'o', ':']

/-- There is a note to the authors in the text, in upper or lower case.  No character beyond ASCII
has a lower-case form with one of the mark's characters in it, so ASCII's lower case will do. -/
def hasTodo (cs : List Char) : Bool := Text.contains todoMark (cs.map Char.toLower)

/-- A piece made ready for a page; blank pieces and notes to the authors do not get there. -/
def Piece.clean? (piece : Piece) : Option Segment :=
  if Text.allBlank piece.text || hasTodo piece.text then none
  else
    let text := match piece.kind with
      | .block => blockText piece.text
      | .code => codeText piece.text
      | .line => lineText piece.text
    some ⟨piece.kind, String.ofList text⟩

/-- The segments of a text, in order. -/
def Segment.ofText (text : String) : List Segment :=
  (Piece.ofText text.toList).filterMap Piece.clean?

/-- A segment as Markdown: comments are prose, and code is a block with the fence `fence`. -/
def Segment.toMarkdown (fence : String) (segment : Segment) : String :=
  match segment.kind with
  | .block | .line => segment.text
  | .code => "```" ++ fence ++ "\n" ++ segment.text ++ "\n```"

/-! ## Laws -/

theorem Piece.flatMap_code? (cs : List Char) : (code? cs).flatMap Piece.text = cs := by
  cases cs <;> simp [code?]

theorem Piece.flatMap_scan (code cs : List Char) :
    (scan code cs).flatMap Piece.text = code.reverse ++ cs := by
  fun_induction scan code cs with
  | case1 code => simp [flatMap_code?]
  | case2 code c cs kind n hc ih => simp [flatMap_code?, ih]
  | case3 code c cs hc ih => simp [ih]

/-- Nothing of a text is lost in its pieces. -/
theorem Piece.flatMap_ofText (cs : List Char) : (ofText cs).flatMap Piece.text = cs := by
  simp [ofText, flatMap_scan]

/-- A block comment that is closed stays so whatever is written after it. -/
theorem closing?_append {depth n m : Nat} {cs : List Char} (h : closing? depth n cs = some m)
    (after : List Char) : closing? depth n (cs ++ after) = some m := by
  fun_induction closing? depth n cs with
  | case1 depth n c d cs hopen ih => simpa [closing?, hopen] using ih h
  | case2 depth n c d cs hopen hclose hd =>
      simpa [closing?, hopen, hclose, hd] using h
  | case3 depth n c d cs hopen hclose hd ih =>
      simpa [closing?, hopen, hclose, hd] using ih h
  | case4 depth n c d cs hopen hclose ih =>
      rw [List.cons_append, List.cons_append, closing?, if_neg hopen, if_neg hclose]
      exact ih h
  | case5 depth n cs hcs => simp at h

example : (Piece.ofText "a//b\n/*c*/".toList).map Piece.kind = [.code, .line, .code, .block] := by
  decide +kernel
example : (Piece.ofText "/*/".toList).map Piece.kind = [.code] := by decide +kernel
example : Segment.ofText "/** a\n * b\n */ let x" = [⟨.block, "a\nb"⟩, ⟨.code, " let x"⟩] := by
  decide +kernel

end LiveExcerpts
