import LiveExcerpts.Error
/-!
# Scenarios

A scenario is a text file that becomes one page.  Its first line names the root of the source tree,
its second the URL that links into that tree begin with; after any number of blank lines comes the
body, in which lines that begin with `@` are commands and all others are prose.

Main definitions: `Scenario.parse`, `Snippet.classify`.  Main statement: classifying loses nothing
(`map_text_classify`).
-/

namespace LiveExcerpts

/-- What a scenario file says. -/
structure Scenario where
  /-- The root of the source tree. -/
  root : Path
  /-- The URL of the root, without a slash at its end. -/
  url : String
  /-- The lines of the body. -/
  body : List String
deriving DecidableEq, Repr

/-- A URL without the slashes at its end. -/
def trimSlashes (url : List Char) : List Char := (url.reverse.dropWhile (· == '/')).reverse

/-- A line that says something, without the blanks around it. -/
def Scenario.headerLine? (line : Option (List Char)) : Option (List Char) :=
  (line.map Text.trim).filter fun cs => !cs.isEmpty

/-- The scenario that the file at `path` holds. -/
def Scenario.parse (path : Path) (content : String) : Except Error Scenario :=
  let lines := Text.lines content.toList
  match headerLine? lines[0]?, headerLine? lines[1]? with
  | none, _ => .error (.malformedScenario path "first line must name the source root")
  | some _, none => .error (.malformedScenario path "second line must be the base link URL")
  | some root, some url =>
    .ok
      { root := ⟨String.ofList root⟩
        url := String.ofList (trimSlashes url)
        body := ((lines.drop 2).dropWhile Text.allBlank).map String.ofList }

/-! ## Snippets -/

/-- A part of a page in the making.  Commands become prose, and prose becomes HTML. -/
inductive Snippet where
  /-- A command line, not carried out yet. -/
  | command (text : String)
  /-- HTML. -/
  | html (text : String)
  /-- Markdown. -/
  | prose (text : String)
deriving DecidableEq, Repr

namespace Snippet

/-- The text of a snippet. -/
def text : Snippet → String
  | command text => text
  | html text => text
  | prose text => text

/-- The snippet of a line of a scenario's body. -/
def ofLine (line : String) : Snippet :=
  if line.toList.head? = some '@' then command line else prose line

/-- The snippets of a scenario's body. -/
def classify (body : List String) : List Snippet := body.map ofLine

/-! ## Laws -/

@[simp] theorem text_ofLine (line : String) : (ofLine line).text = line := by
  rw [ofLine]
  split <;> rfl

/-- Classifying a body keeps every line as it is. -/
theorem map_text_classify (body : List String) : (classify body).map text = body := by
  simp [classify, Function.comp_def]

end Snippet

end LiveExcerpts
