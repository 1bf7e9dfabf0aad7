import LiveExcerpts.Error
import LiveExcerpts.Excerpt
/-!
# Commands

A command line of a scenario asks for an excerpt: `@decl <path>::<identifier>` for a signature,
`@def <path>::<identifier>` for a definition.  Blanks may stand around its words, and between the
`@` and the verb; the path ends at the first `::`.

Main statement: a command is written as its words, and reading gives it back
(`parse_of_words`).
-/

namespace LiveExcerpts

/-- A command as it was written. -/
structure Command where
  /-- How much it asks for. -/
  extent : Extent
  /-- The dotted path of the file. -/
  path : String
  /-- The name of the declaration. -/
  identifier : String
deriving DecidableEq, Repr

/-- What a verb asks for. -/
def Extent.ofVerb? (verb : String) : Option Extent :=
  if verb = "decl" then some .signature
  else if verb = "def" then some .definition
  else none

/-- The verb that asks for an extent. -/
def Extent.verb : Extent → String
  | .signature => "decl"
  | .definition => "def"

namespace Command

/-- The words of a command line after its `@`, if it has one. -/
def words? (raw : String) : Option (List String) :=
  match Text.trim raw.toList with
  | '@' :: cs => some ((Text.words cs).map String.ofList)
  | _ => none

/-- The path and the identifier of a target, which are parted by the first `::`. -/
def target (raw word : String) : Except Error (String × String) :=
  match Text.splitFirst? [':', ':'] word.toList with
  | none => .error (.malformedCommand raw "target has no `::<identifier>`")
  | some (path, identifier) =>
    if path.isEmpty || identifier.isEmpty then
      .error (.malformedCommand raw "empty path or identifier")
    else .ok (String.ofList path, String.ofList identifier)

/-- The command that a line writes down.  What is wrong with the verb is said before what is wrong
with the target, but only of a line with one or two words. -/
def parse (raw : String) : Except Error Command :=
  let shape := Error.malformedCommand raw "expected `@<verb> <path>::<identifier>`"
  match words? raw with
  | some [verb] =>
    match Extent.ofVerb? verb with
    | none => .error (.unknownCommand verb)
    | some _ => .error (.malformedCommand raw "missing target")
  | some [verb, word] =>
    match Extent.ofVerb? verb with
    | none => .error (.unknownCommand verb)
    | some extent => (target raw word).map fun (path, identifier) => ⟨extent, path, identifier⟩
  | _ => .error shape

/-! ## Laws -/

theorem ofVerb?_verb (extent : Extent) : Extent.ofVerb? extent.verb = some extent := by
  cases extent <;> rfl

/-- A line of two words, a verb and a target, is the command of that verb and target. -/
theorem parse_of_words {raw word path identifier : String} {extent : Extent}
    (hw : words? raw = some [extent.verb, word])
    (ht : target raw word = .ok (path, identifier)) :
    parse raw = .ok ⟨extent, path, identifier⟩ := by
  simp only [parse, hw, ofVerb?_verb, ht]
  rfl

example : (parse "@ decl ~.a::b::c ").toOption = some ⟨.signature, "~.a", "b::c"⟩ := by
  decide +kernel
example : (parse "@decl a b c").toOption = none := by decide +kernel

end Command

end LiveExcerpts
