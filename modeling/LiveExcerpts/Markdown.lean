import LiveExcerpts.Markdown.Inline
/-!
# Markdown

Fragments of Markdown as HTML: headings, fenced code, tags that have a line to themselves, and
paragraphs.  Blank lines part blocks; a heading or a fence also ends a paragraph.

Main definitions: `Block.ofLines`, `Markdown.html`.  Main statements: a blank fragment has no HTML
(`html_eq_empty_of_blank`), and a heading is told from a paragraph by what follows its signs
(`heading?_eq_none_of_level`).
-/

namespace LiveExcerpts.Markdown

/-- A line of text. -/
abbrev Line := List Char

/-- A block of a fragment. -/
inductive Block where
  /-- A heading: its level, and its text. -/
  | heading (level : Nat) (text : Line)
  /-- Code between fences: what the opening fence says of it, and its lines. -/
  | code (info : Line) (lines : List Line)
  /-- A tag that has a line to itself and what is written right below it, as it stands. -/
  | markup (lines : List Line)
  /-- A paragraph, line by line. -/
  | paragraph (lines : List Line)
deriving DecidableEq, Repr

/-! ## Lines -/

/-- The blanks of Markdown. -/
def isSpace (c : Char) : Bool := c = ' ' || c = '\t' || c = '\r'

/-- A line without the blanks at its ends. -/
def trimLine (line : Line) : Line :=
  ((line.dropWhile isSpace).reverse.dropWhile isSpace).reverse

/-- A line has nothing but blanks. -/
def isBlankLine (line : Line) : Bool := line.all isSpace

/-- A line is indented by so much that it is no heading and no fence. -/
def isDeep (line : Line) : Bool :=
  let indent := line.takeWhile isSpace
  4 ≤ indent.length || indent.contains '\t'

/-- The text of a heading without the signs that close it, which stand apart from the rest. -/
def dropClosingSigns (text : Line) : Line :=
  let kept := (text.reverse.dropWhile (· == '#')).reverse
  if kept.getLast?.all isSpace then trimLine kept else text

/-- The heading that a line is: one to six signs with a blank behind them or nothing. -/
def heading? (line : Line) : Option Block :=
  let cs := trimLine line
  let level := (cs.takeWhile (· == '#')).length
  let rest := cs.drop level
  if !isDeep line ∧ 1 ≤ level ∧ level ≤ 6 ∧ rest.head?.all isSpace then
    some (.heading level (dropClosingSigns (trimLine rest)))
  else none

/-- The length of the fence that a line opens code with, and what the line says of the code. -/
def fence? (line : Line) : Option (Nat × Line) :=
  let cs := trimLine line
  let n := (cs.takeWhile (· == '`')).length
  let info := trimLine (cs.drop n)
  if !isDeep line ∧ 3 ≤ n ∧ !info.contains '`' then some (n, info) else none

/-- A line closes code that a fence of length `n` opened. -/
def closesFence (n : Nat) (line : Line) : Bool :=
  let cs := trimLine line
  !isDeep line && n ≤ cs.length && cs.all (· == '`')

/-- A line is one tag and nothing else. -/
def isTagLine (line : Line) : Bool :=
  let cs := trimLine line
  tagLength? cs == some cs.length

/-- A line ends the paragraph above it. -/
def endsParagraph (line : Line) : Bool :=
  isBlankLine line || (heading? line).isSome || (fence? line).isSome

/-! ## Blocks -/

/-- The blocks of a fragment. -/
def Block.ofLines : List Line → List Block
  | [] => []
  | line :: rest =>
    if isBlankLine line then ofLines rest
    else
      match heading? line, fence? line with
      | some block, _ => block :: ofLines rest
      | none, some (n, info) =>
        let body := rest.takeWhile fun l => !closesFence n l
        .code info body :: ofLines (rest.drop (body.length + 1))
      | none, none =>
        if isTagLine line then
          let more := rest.takeWhile fun l => !isBlankLine l
          .markup (line :: more) :: ofLines (rest.drop more.length)
        else
          let more := rest.takeWhile fun l => !endsParagraph l
          .paragraph (line :: more) :: ofLines (rest.drop more.length)
termination_by lines => lines.length

/-- The opening tag of code: the first word that its fence says is its language. -/
def codeTag (info : Line) : List Char :=
  match (Text.words info).head? with
  | none => "<code>".toList
  | some language => "<code class=\"language-".toList ++ escape language ++ "\">".toList

/-- The HTML of a block. -/
def Block.html : Block → List Char
  | heading level text =>
    let name := s!"h{level}>".toList
    '<' :: name ++ inlineHtml text ++ '<' :: '/' :: name
  | code info lines =>
    "<pre>".toList ++ codeTag info ++ lines.flatMap (fun line => escape line ++ ['\n'])
      ++ "</code></pre>".toList
  | markup lines => Text.joinLines lines
  | paragraph lines =>
    "<p>".toList ++ inlineHtml (Text.joinLines (lines.map trimLine)) ++ "</p>".toList

/-- The HTML of a fragment. -/
def html (text : String) : String :=
  let lines := Text.pieces (· == '\n') text.toList
  String.ofList (Text.joinLines ((Block.ofLines lines).map Block.html))

/-! ## Laws -/

theorem ofLines_of_blank {lines : List Line} (h : ∀ line ∈ lines, isBlankLine line = true) :
    Block.ofLines lines = [] := by
  induction lines with
  | nil => rw [Block.ofLines]
  | cons line rest ih =>
      rw [Block.ofLines, if_pos (h line List.mem_cons_self)]
      exact ih fun l hl => h l (List.mem_cons_of_mem _ hl)

/-- A blank fragment has no HTML. -/
theorem html_eq_empty_of_blank {text : String}
    (h : ∀ c ∈ text.toList, isSpace c = true ∨ c = '\n') : html text = "" := by
  have blank : ∀ line ∈ Text.pieces (· == '\n') text.toList, isBlankLine line = true := by
    intro line hl
    rw [isBlankLine, List.all_eq_true]
    intro c hc
    obtain ⟨hmem, hsep⟩ := Text.mem_of_mem_pieces hl hc
    rcases h c hmem with hs | rfl
    · exact hs
    · simp at hsep
  rw [html, ofLines_of_blank blank]
  rfl

/-- More than six signs make no heading. -/
theorem heading?_eq_none_of_level {line : Line}
    (h : 6 < ((trimLine line).takeWhile (· == '#')).length) : heading? line = none := by
  rw [heading?, if_neg]
  omega

example : html "# Trail #" = "<h1>Trail</h1>" := by decide +kernel
example : html "#NoSpace" = "<p>#NoSpace</p>" := by decide +kernel
example : html "one\n\ntwo" = "<p>one</p>\n<p>two</p>" := by decide +kernel
example : html "a **b** `c<`" = "<p>a <strong>b</strong> <code>c&lt;</code></p>" := by
  decide +kernel
example : html "```\na\n    ```\n```" = "<pre><code>a\n    ```\n</code></pre>" := by decide +kernel
example : html "<img src='p.png' alt=\"x\">" = "<img src='p.png' alt=\"x\">" := by decide +kernel

end LiveExcerpts.Markdown
