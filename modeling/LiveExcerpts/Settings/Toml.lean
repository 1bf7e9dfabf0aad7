import LiveExcerpts.Error
import LiveExcerpts.Settings
/-!
# The settings file

Settings are written in TOML.  Every one of them is a string under a top-level key, and any other
key or value is refused, so of TOML's grammar only this is needed: lines `key = string` with bare or
quoted keys, TOML's four sorts of strings, comments and blank lines.

Main definition: `Settings.parse`.
-/

namespace LiveExcerpts.Toml

/-! ## Characters -/

/-- A character that may stand in a comment or a string: no control character but the tab. -/
def isPlain (c : Char) : Bool := c = '\t' || (0x20 ≤ c.toNat && c.toNat ≠ 0x7F)

/-- A space or a tab. -/
def isSpace (c : Char) : Bool := c = ' ' || c = '\t'

/-- A character of a bare key. -/
def isBare (c : Char) : Bool := c.isAlphanum || c = '_' || c = '-'

/-- What follows a line end. -/
def afterNewline? : List Char → Option (List Char)
  | '\n' :: cs => some cs
  | '\r' :: '\n' :: cs => some cs
  | _ => none

/-- What follows the rest of a line that says nothing more: spaces, then perhaps a comment, then a
line end or the end of the file. -/
def endOfLine? (cs : List Char) : Option (List Char) :=
  let cs := cs.dropWhile isSpace
  let cs := if cs.head? = some '#' then cs.dropWhile isPlain else cs
  if cs.isEmpty then some [] else afterNewline? cs

/-- The character with this code point, given in hexadecimal digits. -/
def codePoint? (digits : List Char) : Option Char := do
  let value ← digits.foldlM
    (fun value c => do
      let digit ←
        if c.isDigit then some (c.toNat - 48)
        else if 'a' ≤ c ∧ c ≤ 'f' then some (c.toNat - 87)
        else if 'A' ≤ c ∧ c ≤ 'F' then some (c.toNat - 55)
        else none
      return value * 16 + digit)
    0
  if value.isValidChar then some (Char.ofNat value) else none

/-- The character that stands for what follows a backslash, and how many characters that is. -/
def escape? : List Char → Option (Char × Nat)
  | 'b' :: _ => some ('\x08', 1)
  | 't' :: _ => some ('\t', 1)
  | 'n' :: _ => some ('\n', 1)
  | 'f' :: _ => some ('\x0c', 1)
  | 'r' :: _ => some ('\r', 1)
  | '"' :: _ => some ('"', 1)
  | '\\' :: _ => some ('\\', 1)
  | 'u' :: cs => if 4 ≤ cs.length then (codePoint? (cs.take 4)).map (·, 5) else none
  | 'U' :: cs => if 8 ≤ cs.length then (codePoint? (cs.take 8)).map (·, 9) else none
  | _ => none

/-! ## Strings

Each reader is given what follows the opening quotes, and what it has read so far backwards; it
gives the string and what follows the closing quotes. -/

/-- A string in double quotes on one line. -/
def basic? (read : List Char) : List Char → Option (List Char × List Char)
  | [] => none
  | c :: cs =>
    if c = '"' then some (read.reverse, cs)
    else if c = '\\' then
      match escape? cs with
      | some (d, n) => basic? (d :: read) (cs.drop n)
      | none => none
    else if isPlain c then basic? (c :: read) cs
    else none
termination_by cs => cs.length

/-- A string in single quotes on one line. -/
def literal? (cs : List Char) : Option (List Char × List Char) :=
  let text := cs.takeWhile fun c => isPlain c && c != '\''
  match cs.drop text.length with
  | '\'' :: rest => some (text, rest)
  | _ => none

/-- How a run of `n` quotes inside a string of many lines is taken: the number of quotes that are
text, and whether the string ends there.  Up to two quotes may stand right before the end. -/
def splitQuotes (n : Nat) : Nat × Bool := if n < 3 then (n, false) else (min (n - 3) 2, true)

/-- A string in three double quotes. -/
def multiBasic? (read : List Char) : List Char → Option (List Char × List Char)
  | [] => none
  | c :: cs =>
    if c = '"' then
      let (text, ends) := splitQuotes (1 + (cs.takeWhile (· == '"')).length)
      let read := List.replicate text '"' ++ read
      if ends then some (read.reverse, cs.drop (text + 2))
      else multiBasic? read (cs.drop (text - 1))
    else if c = '\\' then
      match afterNewline? (cs.dropWhile isSpace) with
      | some _ => multiBasic? read (cs.dropWhile fun d => isSpace d || d = '\n' || d = '\r')
      | none =>
        match escape? cs with
        | some (d, n) => multiBasic? (d :: read) (cs.drop n)
        | none => none
    else if c = '\n' then multiBasic? ('\n' :: read) cs
    else if c = '\r' ∧ cs.head? = some '\n' then multiBasic? ('\n' :: read) (cs.drop 1)
    else if isPlain c then multiBasic? (c :: read) cs
    else none
termination_by cs => cs.length
decreasing_by
  all_goals simp only [List.length_cons, List.length_drop]
  all_goals first
    | omega
    | exact Nat.lt_succ_of_le (List.dropWhile_sublist _).length_le

/-- A string in three single quotes. -/
def multiLiteral? (read : List Char) : List Char → Option (List Char × List Char)
  | [] => none
  | c :: cs =>
    if c = '\'' then
      let (text, ends) := splitQuotes (1 + (cs.takeWhile (· == '\'')).length)
      let read := List.replicate text '\'' ++ read
      if ends then some (read.reverse, cs.drop (text + 2))
      else multiLiteral? read (cs.drop (text - 1))
    else if c = '\n' then multiLiteral? ('\n' :: read) cs
    else if c = '\r' ∧ cs.head? = some '\n' then multiLiteral? ('\n' :: read) (cs.drop 1)
    else if isPlain c then multiLiteral? (c :: read) cs
    else none
termination_by cs => cs.length

/-- A string of any sort, with its opening quotes.  A line end right after three opening quotes is
not part of the string. -/
def string? : List Char → Option (List Char × List Char)
  | '"' :: '"' :: '"' :: cs => multiBasic? [] ((afterNewline? cs).getD cs)
  | '\'' :: '\'' :: '\'' :: cs => multiLiteral? [] ((afterNewline? cs).getD cs)
  | '"' :: cs => basic? [] cs
  | '\'' :: cs => literal? cs
  | _ => none

/-! ## Lines -/

/-- A key. -/
def key? : List Char → Option (List Char × List Char)
  | '"' :: cs => basic? [] cs
  | '\'' :: cs => literal? cs
  | cs =>
    let name := cs.takeWhile isBare
    if name.isEmpty then none else some (name, cs.drop name.length)

/-- The entry that a text begins with, and what follows its line. -/
def keyValue? (cs : List Char) : Option ((List Char × List Char) × List Char) := do
  let (key, cs) ← key? cs
  match cs.dropWhile isSpace with
  | '=' :: cs =>
    let (value, cs) ← string? (cs.dropWhile isSpace)
    let rest ← endOfLine? cs
    return ((key, value), rest)
  | _ => none

/-- The entries of a file, in order, or none if a line is neither an entry nor blank.  Every line
leaves less to read. -/
def entries? (cs : List Char) : Option (List (List Char × List Char)) :=
  let line := cs.dropWhile isSpace
  if line.isEmpty then some []
  else
    match endOfLine? line with
    | some rest => if rest.length < cs.length then entries? rest else none
    | none =>
      match keyValue? line with
      | some (entry, rest) =>
        if rest.length < cs.length then (entries? rest).map (entry :: ·) else none
      | none => none
termination_by cs.length

end LiveExcerpts.Toml

namespace LiveExcerpts.Settings

/-- The settings with one key set, unless there is no such key. -/
def set? (settings : Settings) (key value : String) : Option Settings :=
  match key with
  | "extension" =>
    some { settings with extension := String.ofList (value.toList.dropWhile (· == '.')) }
  | "home" => some { settings with home := value }
  | "output" => some { settings with output := ⟨value⟩ }
  | "scenarios" => some { settings with scenarios := ⟨value⟩ }
  | _ => none

/-- Sets keys from left to right.  No key may be set twice. -/
def setAll (settings : Settings) : List (String × String) → Except Error Settings
  | [] => .ok settings
  | (key, value) :: rest =>
    if rest.any fun entry => entry.1 = key then
      .error (.malformedSettings s!"duplicate key `{key}`")
    else
      match settings.set? key value with
      | some settings => settings.setAll rest
      | none => .error (.malformedSettings s!"unknown key `{key}`")

/-- The settings that a settings file makes.  A byte order mark may stand in front; keys that are
not set keep their defaults, and the extension is taken without its leading dots. -/
def parse (content : String) : Except Error Settings :=
  let cs := content.toList
  match Toml.entries? (if cs.head? = some '\ufeff' then cs.drop 1 else cs) with
  | none => .error (.malformedSettings "expected lines of the form `key = \"value\"`")
  | some entries =>
    default.setAll (entries.map fun (key, value) => (String.ofList key, String.ofList value))

example : ((parse "home = \"a\" # c\n'extension' = '.kt'").toOption.map extension) = some "kt" := by
  decide +kernel
example : ((parse "home = \"\"\"\na\\\n  b\"\"\"\"").toOption.map home) = some "ab\"" := by
  decide +kernel

end LiveExcerpts.Settings
