import LiveExcerpts.CommandLine
import LiveExcerpts.TreeFile
/-!
# The program

Reads the files that a command line is about, has `CommandLine.run` do the work on them, and writes
back what it changed.  Nothing is decided here.
-/

namespace LiveExcerpts.Program

/-- The real path of a place. -/
def realPath (place : Place) : String := "/" ++ "/".intercalate place

/-- A place as an entry of its directory. -/
def handle (place : Place) : IO.FS.DirEntry :=
  ⟨realPath place.dropLast, place.getLast?.getD "."⟩

/-- The place of an absolute path, as it is spelled. -/
def placeOf (text : String) : Place :=
  (Path.mk text).components.foldl (fun place step =>
    match step with
    | .root => []
    | .here => place
    | .up => place.dropLast
    | .name name => place ++ [name]) []

/-- What really stands at a place.  A file that is too large to be read is known by its size. -/
def entryAt (place : Place) : IO (Option Entry) := do
  try
    let metadata ← (handle place).path.symlinkMetadata
    match metadata.type with
    | .dir => return some .directory
    | .symlink => return some (.link (← IO.FS.realPath (realPath place)).toString)
    | .file =>
      let size := metadata.byteSize.toNat
      if maxFileSize < size then return some (.file (.binary size))
      else
        let bytes ← IO.FS.readBinFile (realPath place)
        return some (.file ((String.fromUTF8? bytes).elim (.binary bytes.size) .text))
    | .other => return none
  catch _ => return none

/-- What really stands at a place, and all below it. -/
partial def below (place : Place) : IO (List (Place × Entry)) := do
  match ← entryAt place with
  | none => return []
  | some .directory =>
    let names ← try (← (handle place).path.readDir).toList.mapM fun e => pure e.fileName
      catch _ => pure []
    let inner ← names.mapM fun name => below (place ++ [name])
    return (place, .directory) :: inner.flatten
  | some entry => return [(place, entry)]

/-- The files with more entries, where they had none. -/
def extend (more : List (Place × Entry)) (fs : FileSystem) : FileSystem :=
  { fs with entries := fs.entries ++ more.filter fun e => (fs.lookup? e.1).isNone }

/-- The files with what stands at a place, above it and below, and where the links above it lead. -/
partial def explore (fs : FileSystem) (place : Place) : IO FileSystem := do
  let mut fs := fs
  for n in List.range place.length do
    let above := place.take n
    if let some entry ← entryAt above then
      fs := extend [(above, entry)] fs
      if let .link target := entry then
        return ← explore fs (placeOf target ++ place.drop n)
  fs := extend (← below place) fs
  if let some (.link target) := fs.lookup? place then
    if placeOf target != place then fs ← explore fs (placeOf target)
  return fs

/-- The files that a command line is about. -/
def survey (args : List String) : IO FileSystem := do
  let here := placeOf (← IO.currentDir).toString
  let mut fs ← explore ⟨[], here⟩ here
  match Request.parse args with
  | .error _ => return fs
  | .ok request =>
    -- The settings and scenarios come first; only they tell which source roots there are.
    for _ in List.range 2 do
      for p in CommandLine.paths request fs do
        fs ← explore fs (placeOf ((Path.mk (realPath here)).join p).text)
    return fs

/-- Writes out the files and directories that are not as they were. -/
def store (before after : FileSystem) : IO Unit := do
  let changed := after.entries.filter fun e => before.lookup? e.1 != some e.2
  for (place, entry) in changed.mergeSort fun a b => a.1.length ≤ b.1.length do
    match entry with
    | .directory => IO.FS.createDirAll (realPath place)
    | .file (.text text) => IO.FS.writeFile (realPath place) text
    | .file (.binary _) | .link _ => pure ()

/-- What the program works with. -/
def tools (fs : FileSystem) : Tools := ⟨Grammars.ofTreeFiles fs, Markdown.renderer⟩

/-- A time in seconds, to the hundredth. -/
def seconds (milliseconds : Nat) : String :=
  let hundredths := (milliseconds + 5) / 10
  let rest := toString (hundredths % 100)
  s!"{hundredths / 100}." ++ String.ofList (List.replicate (2 - rest.length) '0') ++ rest

/-- The files without those below the directory of pages. -/
def withoutOutput (watch : Watch) (fs : FileSystem) : List (Place × Entry) :=
  let output := placeOf ((Path.mk (realPath fs.workingDirectory)).join watch.settings.output).text
  fs.entries.filter fun e => !output.isPrefixOf e.1

/-- Goes on watching: builds again as soon as some file is not as it was. -/
partial def follow (args : List String) (watch : Watch) (seen : FileSystem) : IO UInt32 := do
  IO.sleep 500
  let fs ← survey args
  if withoutOutput watch fs == withoutOutput watch seen then follow args watch seen
  else
    let (lines, after) := watch.rebuild (tools fs) fs
    store fs after
    lines.forM fun line => IO.eprintln line
    follow args watch fs

/-- Does what a command line asks for, and answers with the exit code. -/
def run (args : List String) : IO UInt32 := do
  let started ← IO.monoMsNow
  let fs ← survey args
  let outcome := CommandLine.run (tools fs) args fs
  store fs outcome.fs
  let time := seconds ((← IO.monoMsNow) - started)
  outcome.errors.forM fun line => IO.eprintln line
  outcome.output.forM fun line => IO.println (line.inFull time)
  match outcome.ending with
  | .exit code => return code.toUInt32
  | .watching watch => follow args watch fs

end LiveExcerpts.Program

/-- The entry point. -/
def main (args : List String) : IO UInt32 := LiveExcerpts.Program.run args
