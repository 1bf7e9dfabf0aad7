import LiveExcerpts.Cache
import LiveExcerpts.Location
import LiveExcerpts.Scenario
import LiveExcerpts.Segment.Reader
/-!
# Extracting

From a command to fragments of Markdown.  An extractor keeps the source files it has parsed and the
excerpts it has parted into segments; two spellings of one path are one source file to it.

Main definitions: `SourceFile.load`, `Extractor.excerpt`, `Extractor.carryOut`.
-/

namespace LiveExcerpts

/-- The most bytes that a source file may have. -/
def maxFileSize : Nat := 16 * 1024 * 1024

/-- Reads and parses the source file at a path. -/
def SourceFile.load (grammars : Grammars) (fs : FileSystem) (path : Path) :
    Except Error SourceFile :=
  match fs.size path with
  | .error .notFound => .error (.fileNotFound path)
  | .error cause => .error (.io cause)
  | .ok size =>
    if maxFileSize < size then
      .error (.parseFailed path s!"file too large ({size} bytes, max {maxFileSize})")
    else
      match fs.readText path with
      | .error cause => .error (.io cause)
      | .ok source => SourceFile.parse grammars path source

/-- What a run has parsed so far, and the settings it goes by. -/
structure Extractor where
  /-- The settings. -/
  settings : Settings
  /-- The source files, by the steps of their paths. -/
  sources : Cache (List Path.Component) SourceFile := {}
  /-- The excerpts, by their texts. -/
  excerpts : Cache String SegmentReader := {}

/-- What is cut out of a source file. -/
structure Cutting where
  /-- The text. -/
  text : String
  /-- The label of code blocks in its language. -/
  fence : String
  /-- The line where the declaration starts. -/
  line : Nat
deriving DecidableEq, Repr

/-- Cuts the declaration with this name out of a file. -/
def SourceFile.cut (file : SourceFile) (identifier : String) (extent : Extent) :
    Except Error Cutting := do
  let declaration ← file.locate identifier
  let range ← declaration.range file.tokens file.path extent
  return ⟨file.tokens.textOf range.first range.last, file.language.fence, declaration.line⟩

namespace Extractor

/-- The extractor's answer, with the extractor after it. -/
abbrev Answer (α : Type) := Except Error α × Extractor

/-- Cuts out what a location names, parsing its file if that was not done before. -/
def cut (grammars : Grammars) (fs : FileSystem) (location : Location) (extent : Extent)
    (x : Extractor) : Answer Cutting :=
  let path := location.sourcePath
  let (result, sources) := Cache.use (m := Id) path.components
    (fun _ => SourceFile.load grammars fs path) id
    (fun file => (file.cut location.identifier extent, file)) x.sources
  (result, { x with sources })

/-- Parts a text into segments. -/
def segments (text : String) (x : Extractor) : Answer (List Segment) :=
  let (result, excerpts) := Cache.use (m := Id) text
    (fun _ => .ok (SegmentReader.ofText text)) SegmentReader.rewind
    (fun reader => (.ok reader.read.1, reader.read.2)) x.excerpts
  (result, { x with excerpts })

/-- The fragments of an excerpt: a heading that links to the declaration, then its segments. -/
def excerpt (grammars : Grammars) (fs : FileSystem) (location : Location) (extent : Extent)
    (x : Extractor) : Answer (List String) :=
  match x.cut grammars fs location extent with
  | (.error e, x) => (.error e, x)
  | (.ok cutting, x) =>
    match x.segments cutting.text with
    | (.error e, x) => (.error e, x)
    | (.ok segments, x) =>
      (.ok (location.header x.settings.home cutting.line
        :: segments.map (Segment.toMarkdown cutting.fence)), x)

/-- Carries out a command line of a scenario. -/
def carryOut (grammars : Grammars) (fs : FileSystem) (scenario : Scenario) (raw : String)
    (x : Extractor) : Answer (List String) :=
  let found := do
    let command ← Command.parse raw
    let location ← Location.resolve fs x.settings scenario.root scenario.url command
    return (location, command.extent)
  match found with
  | .error e => (.error (.commandFailed raw e), x)
  | .ok (location, extent) =>
    let (result, x) := x.excerpt grammars fs location extent
    (result.mapError (Error.commandFailed raw), x)

end Extractor

end LiveExcerpts
