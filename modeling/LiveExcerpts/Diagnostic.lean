import LiveExcerpts.Error
/-!
# Diagnostics

A failure as a page of Markdown: a heading, what happened and, where there is something to do about
it, how to put it right.  On a terminal the headings are set in bold.

Main definitions: `closestName?`, `Error.diagnostic`, `Error.terminalLines`.  Main statement: a
suggested name is one of those on offer and another than was asked for (`closestName?_eq_some`).
-/

namespace LiveExcerpts

/-! ## Suggestions -/

/-- Two names that differ in nothing but the case of ASCII letters. -/
def sameButForCase (a b : String) : Bool := a.toList.map Char.toLower == b.toList.map Char.toLower

/-- The first of the names that differs from `identifier` in case, and in case only. -/
def closestName? (identifier : String) (available : List String) : Option String :=
  available.find? fun name => sameButForCase name identifier && name != identifier

theorem closestName?_eq_some {identifier name : String} {available : List String}
    (h : closestName? identifier available = some name) :
    name ∈ available ∧ sameButForCase name identifier = true ∧ name ≠ identifier :=
  ⟨List.mem_of_find?_eq_some h, by simpa using List.find?_some h⟩

/-! ## Pages -/

/-- The lines of a page, those that begin with `#` changed by `onHeading`. -/
def mapHeadings (onHeading : String → String) (page : String) : List String :=
  (Text.lines page.toList).map fun line =>
    if line.head? = some '#' then onHeading (String.ofList line) else String.ofList line

/-- The verbs of commands, with what they include. -/
def verbs : List (String × String) :=
  [("decl", "leading comments and the signature, without the body"),
   ("def", "leading comments and the whole definition")]

/-- The page for a failure.  That of a failed command holds the page of its cause with every heading
one level down. -/
def Error.diagnostic : Error → String
  | bodyNotFound file identifier =>
    s!"# Error: Object Body Not Found

`{identifier}` in `{file}` is initialized with an object, but no opening brace was found.
"
  | commandFailed command cause =>
    s!"# Error: Command Failed

    {command}

## Cause

" ++ String.join ((mapHeadings ("#" ++ ·) cause.diagnostic).map (· ++ "\n"))
  | declarationNotFound available file identifier =>
    s!"# Error: Declaration Not Found

No declaration named `{identifier}` in `{file}`.
" ++ (match closestName? identifier available with
      | some name => s!"
## Did you mean `{name}`?
"
      | none =>
        if available.isEmpty then ""
        else "\n## Available declarations\n\n"
          ++ String.join (available.map fun name => s!"- `{name}`\n")) ++ s!"
## Fix

List what can be included:

    docstitch list {file}
"
  | fileNotFound path =>
    s!"# Error: File Not Found

`{path}` does not exist.

## Fix

Check the command's dotted path, and the `home` and `extension` keys in `.docstitch.toml`.
"
  | io cause => "# Error: I/O\n\n" ++ cause.message ++ "\n"
  | malformedCommand command reason =>
    s!"# Error: Malformed Command

`{command}`: {reason}

## Fix

Commands look like:

    @decl ~.render.mesh::Mesh
"
  | malformedScenario path reason =>
    s!"# Error: Malformed Scenario

`{path}`: {reason}

## Fix

A scenario starts with the source root, then the base link URL:

    ../engine
    https://github.com/acme/engine/blob/main

    Prose and commands follow.
"
  | parseFailed file reason =>
    s!"# Error: Parse Failed

Could not parse `{file}`: {reason}
"
  | renderFailed reason =>
    s!"# Error: Render Failed

A markdown fragment could not be rendered: {reason}
"
  | scenarioNotFound path =>
    s!"# Error: Scenario Not Found

`{path}` is not a scenario file or directory.

## Fix

Pass `--scenarios <dir>` or set `scenarios` in `.docstitch.toml`.
"
  | sourceRootNotFound path =>
    s!"# Error: Source Root Not Found

`{path}` does not exist.

## Fix

The first line of a scenario names the source root, relative to the working directory.
"
  | malformedSettings reason =>
    s!"# Error: Invalid TOML

{reason}
"
  | unknownCommand verb =>
    s!"# Error: Unknown Command

`@{verb}` is not implemented.

## Supported commands

" ++ String.join (verbs.map fun (name, includes) => s!"- `@{name}`: {includes}\n")
  | unresolvedCommand command =>
    s!"# Error: Unresolved Command

`{command}` reached the renderer before it was resolved.
"
  | unsupportedLanguage extension =>
    s!"# Error: Unsupported Language

No tree-sitter grammar for `.{extension}` files.

## Supported extensions

- `.rs`: Rust
- `.ts`, `.tsx`: TypeScript
- `.js`, `.jsx`: JavaScript
- `.go`: Go
- `.kt`, `.kts`: Kotlin
"
  | watch text => "# Error\n\n" ++ (watch text).message ++ "\n"

/-! ## Terminal -/

/-- The lines of a failure's page as a terminal shows them, headings in bold. -/
def Error.terminalLines (error : Error) : List String :=
  mapHeadings (fun line => "\x1b[1m" ++ line ++ "\x1b[0m") error.diagnostic

end LiveExcerpts
