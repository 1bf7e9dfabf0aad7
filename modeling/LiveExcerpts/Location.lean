import LiveExcerpts.Command
import LiveExcerpts.FileSystem
import LiveExcerpts.Settings
/-!
# Locations

Where a command finds its declaration: a file under the source root, named by the command's dotted
path.  In such a path dots part directories, `~` stands for the home directory of the settings, and
the extension is added.  Readers are shown the file without the home directory.

Main definitions: `Location.ofCommand`, `Location.resolve`, `visiblePath`, `Location.header`.
-/

namespace LiveExcerpts

/-- A declaration to look for in a file. -/
structure Location where
  /-- The root of the source tree. -/
  root : Path
  /-- The file, seen from the root. -/
  file : Path
  /-- The name of the declaration. -/
  identifier : String
  /-- The URL of the root. -/
  url : String
deriving DecidableEq, Repr

/-- A directory without the slashes at its end. -/
def trimDirectory (directory : String) : List Char :=
  (directory.toList.reverse.dropWhile (· == '/')).reverse

/-- The file that a dotted path stands for, without its extension.  Without a home directory the
leading `~` is dropped, with the slashes after it. -/
def expandPath (home path : String) : List Char :=
  let slashed := Text.substitute '.' ['/'] path.toList
  if home.isEmpty then (slashed.dropWhile (· == '~')).dropWhile (· == '/')
  else Text.substitute '~' (trimDirectory home) slashed

/-- A path as readers are shown it: without the home directory and without leading slashes. -/
def visiblePath (path home : String) : String :=
  let home := trimDirectory home
  let rest := if home.isPrefixOf path.toList then path.toList.drop home.length else path.toList
  String.ofList (rest.dropWhile (· == '/'))

namespace Location

/-- Where a command looks, in the source tree at `root`. -/
def ofCommand (settings : Settings) (root : Path) (url : String) (command : Command) : Location :=
  { root := root
    file := ⟨String.ofList (expandPath settings.home command.path) ++ "." ++ settings.extension⟩
    identifier := command.identifier
    url := url }

/-- The file seen from the working directory. -/
def sourcePath (location : Location) : Path := location.root.join location.file

/-- The file as links have it, with slashes only. -/
def unixPath (location : Location) : String :=
  Text.onChars (Text.substitute '\\' ['/']) location.file.text

/-- Where a command looks, if there is a file. -/
def resolve (fs : FileSystem) (settings : Settings) (root : Path) (url : String)
    (command : Command) : Except Error Location :=
  let location := ofCommand settings root url command
  if fs.isFile location.sourcePath then .ok location
  else .error (.fileNotFound location.sourcePath)

/-- The heading above an excerpt: a link to the line where the declaration starts. -/
def header (home : String) (line : Nat) (location : Location) : String :=
  let path := location.unixPath
  let visible := visiblePath path home
  s!"##### [{visible}::{location.identifier}]({location.url}/{path}#L{line})"

/-! ## Laws -/

/-- A command is looked for exactly where there is a file. -/
theorem resolve_eq_ok_iff {fs : FileSystem} {settings : Settings} {root : Path} {url : String}
    {command : Command} {location : Location} :
    resolve fs settings root url command = .ok location ↔
      location = ofCommand settings root url command ∧ fs.isFile location.sourcePath = true := by
  simp only [resolve]
  split
  · next h =>
      rw [Except.ok.injEq]
      exact ⟨fun e => e ▸ ⟨rfl, h⟩, fun e => e.1.symm⟩
  · next h =>
      refine ⟨nofun, ?_⟩
      rintro ⟨rfl, hf⟩
      exact absurd hf h

example : visiblePath "src/render/mesh.rs" "src/" = "render/mesh.rs" := by decide +kernel
example : String.ofList (expandPath "src/" "~.render.mesh") = "src/render/mesh" := by
  decide +kernel

end Location

end LiveExcerpts
