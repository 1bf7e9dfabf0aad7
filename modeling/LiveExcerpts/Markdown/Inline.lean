import LiveExcerpts.Text.Split
/-!
# Inline Markdown

The marks inside a paragraph or heading: `` `code` ``, `*emphasis*`, `**strong**`, `[label](url)`
and tags such as `<b>`.  A text is first cut into marks, among which code and tags bind tightest,
and the marks are then nested.

Main definitions: `Mark.ofText`, `Inline.ofMarks`, `Inline.html`.  Main statements: no text is lost
in its marks (`Mark.flatMap_ofText`), and escaped text opens no tag (`not_mem_escape`).
-/

namespace LiveExcerpts.Markdown

/-! ## Escaping -/

/-- How a character is written in HTML, in text and between double quotes. -/
def escapeChar : Char → List Char
  | '&' => "&amp;".toList
  | '<' => "&lt;".toList
  | '>' => "&gt;".toList
  | '"' => "&quot;".toList
  | c => [c]

/-- How a text is written in HTML. -/
def escape (cs : List Char) : List Char := cs.flatMap escapeChar

/-- A character by the bytes of its UTF-8 form, as URLs have it. -/
def percentEncode (c : Char) : List Char :=
  (String.singleton c).toUTF8.toList.flatMap fun byte =>
    ['%', (Nat.digitChar (byte.toNat / 16)).toUpper, (Nat.digitChar (byte.toNat % 16)).toUpper]

/-- A character that stands for itself in a URL. -/
def isUrlChar (c : Char) : Bool := c.isAlphanum || "!#$&'()*+,-./:;=?@_~".toList.contains c

/-- A digit of a hexadecimal number. -/
def isHexDigit (c : Char) : Bool :=
  c.isDigit || ('a' ≤ c && c ≤ 'f') || ('A' ≤ c && c ≤ 'F')

/-- A URL with everything encoded that cannot stand in one; what is encoded already stays so. -/
def encodeUrl : List Char → List Char
  | [] => []
  | c :: cs =>
    if isUrlChar c || (c = '%' && (cs.take 2).length = 2 && (cs.take 2).all isHexDigit) then
      c :: encodeUrl cs
    else percentEncode c ++ encodeUrl cs

/-- The schemes that a link may have. -/
def safeSchemes : List String := ["http", "https", "irc", "ircs", "mailto", "xmpp"]

/-- A URL may be linked to: it has no scheme, or a safe one. -/
def isSafeUrl (url : List Char) : Bool :=
  let start := url.takeWhile fun c => !":?#/".toList.contains c
  if (url.drop start.length).head? = some ':' then
    safeSchemes.contains (String.ofList (start.map Char.toLower))
  else true

/-- The address of a link, ready to stand between quotes.  An unsafe one is left out. -/
def href (url : List Char) : List Char := if isSafeUrl url then escape (encodeUrl url) else []

/-! ## Tags -/

/-- A character that parts the attributes of a tag. -/
def isGap (c : Char) : Bool := c = ' ' || c = '\t' || c = '\n'

/-- A character of a tag's or an attribute's name. -/
def isNameChar (c : Char) : Bool := c.isAlphanum || c = '-' || c = '_' || c = '.' || c = ':'

/-- What follows the value of an attribute, with or without quotes around it. -/
def afterValue? : List Char → Option (List Char)
  | [] => none
  | c :: cs =>
    if c = '"' ∨ c = '\'' then
      match cs.dropWhile (· != c) with
      | _ :: rest => some rest
      | [] => none
    else
      let value := (c :: cs).takeWhile fun d => !isGap d && !"\"'=<>`".toList.contains d
      if value.isEmpty then none else some ((c :: cs).drop value.length)

/-- What follows an attribute. -/
def afterAttribute? (cs : List Char) : Option (List Char) :=
  let name := cs.takeWhile isNameChar
  if name.head?.any fun c => c.isAlpha || c = '_' || c = ':' then
    let rest := cs.drop name.length
    match rest.dropWhile isGap with
    | '=' :: value => afterValue? (value.dropWhile isGap)
    | _ => some rest
  else none

/-- What follows a tag, given what follows its name.  A gap stands in front of every attribute. -/
def afterTag? (cs : List Char) : Option (List Char) :=
  match cs.dropWhile isGap with
  | '>' :: rest => some rest
  | '/' :: '>' :: rest => some rest
  | rest =>
    if rest.length < cs.length then
      match afterAttribute? rest with
      | some more => if more.length < cs.length then afterTag? more else none
      | none => none
    else none
termination_by cs.length

/-- What follows the tag that a text begins with.  A closing tag has a slash in front of its name
and no attributes. -/
def tag? : List Char → Option (List Char)
  | '<' :: cs =>
    let isClosing := cs.head? = some '/'
    let cs := if isClosing then cs.drop 1 else cs
    let name := cs.takeWhile fun c => c.isAlphanum || c = '-'
    let rest := cs.drop name.length
    if name.head?.any Char.isAlpha then
      if isClosing then
        match rest.dropWhile isGap with
        | '>' :: after => some after
        | _ => none
      else afterTag? rest
    else none
  | _ => none

/-- The length of the tag that a text begins with. -/
def tagLength? (cs : List Char) : Option Nat := (tag? cs).map fun rest => cs.length - rest.length

/-! ## Marks -/

/-- What a stretch of inline text can be. -/
inductive MarkSort where
  /-- Code between backticks. -/
  | code
  /-- A run of stars. -/
  | stars
  /-- A tag. -/
  | tag
  /-- Anything else. -/
  | text
deriving DecidableEq, Repr

/-- A stretch of inline text of one sort, as it stands. -/
structure Mark where
  /-- The sort. -/
  sort : MarkSort
  /-- The text. -/
  source : List Char
deriving DecidableEq, Repr

/-- The length of the text before the first run of exactly `n` backticks; `run` are the backticks
right before what is given, and `k` is the length of all before it. -/
def beforeTicks? (n run k : Nat) : List Char → Option Nat
  | [] => if run = n then some (k - n) else none
  | c :: cs =>
    if c = '`' then beforeTicks? n (run + 1) (k + 1) cs
    else if run = n then some (k - n)
    else beforeTicks? n 0 (k + 1) cs

/-- The mark that a text begins with: its sort and its length.  Backticks that nothing closes are
text, all of them at once. -/
def markAt? : List Char → Option (MarkSort × Nat)
  | '`' :: cs =>
    let n := 1 + (cs.takeWhile (· == '`')).length
    match beforeTicks? n 0 0 (cs.drop (n - 1)) with
    | some k => some (.code, n + k + n)
    | none => some (.text, n)
  | '*' :: cs => some (.stars, 1 + (cs.takeWhile (· == '*')).length)
  | '<' :: cs => (tagLength? ('<' :: cs)).map (MarkSort.tag, ·)
  | _ => none

/-- The marks of a text, in order; what is no other mark is text, a character at a time. -/
def Mark.ofText : List Char → List Mark
  | [] => []
  | c :: cs =>
    match markAt? (c :: cs) with
    | some (sort, n) => ⟨sort, c :: cs.take (n - 1)⟩ :: ofText (cs.drop (n - 1))
    | none => ⟨.text, [c]⟩ :: ofText cs
termination_by cs => cs.length

/-! ## Nesting -/

/-- Inline text with its marks nested. -/
inductive Inline where
  /-- Text. -/
  | text (cs : List Char)
  /-- Code. -/
  | code (cs : List Char)
  /-- A tag, which is passed on as it stands. -/
  | tag (cs : List Char)
  /-- A link. -/
  | link (url : List Char) (label : List Inline)
  /-- Emphasised text. -/
  | emphasis (content : List Inline)
  /-- Strongly emphasised text. -/
  | strong (content : List Inline)
deriving Repr

/-- A mark is the text of one character. -/
def Mark.isChar (c : Char) (mark : Mark) : Bool := mark.sort = .text && mark.source == [c]

/-- The number of marks before the one that closes a pair opened `depth` times. -/
def beforeClosing? (opening closing : Char) (depth k : Nat) : List Mark → Option Nat
  | [] => none
  | mark :: rest =>
    if mark.isChar opening then beforeClosing? opening closing (depth + 1) (k + 1) rest
    else if mark.isChar closing then
      if depth = 0 then some k else beforeClosing? opening closing (depth - 1) (k + 1) rest
    else beforeClosing? opening closing depth (k + 1) rest

/-- The number of marks before the `n` stars that close what `n` stars opened.  They stand right
behind something that is not blank. -/
def beforeStars? (n k : Nat) : List Mark → Option Nat
  | mark :: next :: rest =>
    if next.sort = .stars ∧ next.source.length = n ∧
        mark.source.getLast?.any (fun c => !Text.isBlank c) then some (k + 1)
    else beforeStars? n (k + 1) (next :: rest)
  | _ => none

/-- The link behind an opening bracket: the number of marks in its label, its URL, and the number
of marks in all. -/
def link? (marks : List Mark) : Option (Nat × List Char × Nat) :=
  match beforeClosing? '[' ']' 0 0 marks with
  | none => none
  | some k =>
    match marks.drop (k + 1) with
    | [] => none
    | mark :: rest =>
      if mark.isChar '(' then
        match beforeClosing? '(' ')' 0 0 rest with
        | none => none
        | some m =>
          let url := (rest.take m).flatMap Mark.source
          if url.any Text.isBlank then none else some (k, url, k + 2 + m + 1)
      else none

/-- What stands between the backticks of code: a line end in it is a space, and one space on either
side is dropped if there is one on both and more than spaces between. -/
def codeText (source : List Char) : List Char :=
  let inner := source.dropWhile (· == '`')
  let cs := ((inner.reverse.dropWhile (· == '`')).reverse).map fun c => if c = '\n' then ' ' else c
  if cs.head? = some ' ' ∧ cs.getLast? = some ' ' ∧ cs.any (· != ' ') then cs.tail.dropLast
  else cs

/-- Stars open emphasis when something that is not blank stands right behind them. -/
def canOpen (rest : List Mark) : Bool :=
  rest.head?.any fun mark => mark.source.head?.any fun c => !Text.isBlank c

/-- Marks nested. -/
def Inline.ofMarks : List Mark → List Inline
  | [] => []
  | mark :: rest =>
    match mark.sort with
    | .code => .code (codeText mark.source) :: ofMarks rest
    | .tag => .tag mark.source :: ofMarks rest
    | .stars =>
      let n := mark.source.length
      match if canOpen rest then beforeStars? n 0 rest else none with
      | none => .text mark.source :: ofMarks rest
      | some k =>
        if n = 1 then .emphasis (ofMarks (rest.take k)) :: ofMarks (rest.drop (k + 1))
        else if n = 2 then .strong (ofMarks (rest.take k)) :: ofMarks (rest.drop (k + 1))
        else .text mark.source :: ofMarks rest
    | .text =>
      match if mark.isChar '[' then link? rest else none with
      | none => .text mark.source :: ofMarks rest
      | some (k, url, m) => .link url (ofMarks (rest.take k)) :: ofMarks (rest.drop m)
termination_by marks => marks.length
decreasing_by
  all_goals
    simp only [List.length_cons, List.length_take, List.length_drop]
    omega

/-- Inline text read from its marks. -/
def Inline.ofText (cs : List Char) : List Inline := ofMarks (Mark.ofText cs)

/-! ## HTML -/

mutual

/-- The HTML of an inline. -/
def Inline.html : Inline → List Char
  | .text cs => escape cs
  | .code cs => "<code>".toList ++ escape cs ++ "</code>".toList
  | .tag cs => cs
  | .link url label =>
    "<a href=\"".toList ++ href url ++ "\">".toList ++ htmlOfAll label ++ "</a>".toList
  | .emphasis content => "<em>".toList ++ htmlOfAll content ++ "</em>".toList
  | .strong content => "<strong>".toList ++ htmlOfAll content ++ "</strong>".toList

/-- The HTML of inlines, one after the other. -/
def htmlOfAll : List Inline → List Char
  | [] => []
  | inline :: rest => inline.html ++ htmlOfAll rest

end

/-- The HTML of a paragraph's or heading's text. -/
def inlineHtml (cs : List Char) : List Char := htmlOfAll (Inline.ofText cs)

/-! ## Laws -/

/-- No text is lost in its marks. -/
theorem Mark.flatMap_ofText (cs : List Char) : (ofText cs).flatMap Mark.source = cs := by
  fun_induction ofText cs with
  | case1 => rfl
  | case2 c cs sort n hn ih => simp [ih]
  | case3 c cs hn ih => simp [ih]

theorem escape_append (cs ds : List Char) : escape (cs ++ ds) = escape cs ++ escape ds :=
  List.flatMap_append

/-- Escaped text opens no tag, closes none and ends no quotation. -/
theorem not_mem_escape {c : Char} (h : c = '<' ∨ c = '>' ∨ c = '"') (cs : List Char) :
    c ∉ escape cs := by
  rw [escape, List.mem_flatMap]
  rintro ⟨d, -, hd⟩
  unfold escapeChar at hd
  split at hd
  · rcases h with rfl | rfl | rfl <;> revert hd <;> decide
  · rcases h with rfl | rfl | rfl <;> revert hd <;> decide
  · rcases h with rfl | rfl | rfl <;> revert hd <;> decide
  · rcases h with rfl | rfl | rfl <;> revert hd <;> decide
  · obtain rfl := List.mem_singleton.1 hd
    rcases h with rfl | rfl | rfl <;> contradiction

end LiveExcerpts.Markdown
