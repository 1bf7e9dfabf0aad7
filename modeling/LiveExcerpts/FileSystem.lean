import LiveExcerpts.Error
import LiveExcerpts.Table
/-!
# File systems

The files a run works on, as a value: what stands at each place, counted in names from the root,
and the directory that relative paths start from.  Paths are resolved name by name, through
symbolic links, as a POSIX system does it, and fail for its reasons.

Main definitions: `FileSystem.walk`, the questions `isFile`, `isDirectory`, `readText`, `list`,
and the changes `makeDirectory`, `makeDirectories`, `writeText`.  Main statements: putting an entry
changes what stands at its place (`lookup?_put_self`) and nowhere else (`lookup?_put_of_ne`).
-/

namespace LiveExcerpts

/-- What a regular file holds. -/
inductive Contents where
  /-- A text. -/
  | text (text : String)
  /-- So many bytes that are not UTF-8. -/
  | binary (size : Nat)
deriving DecidableEq, Repr

/-- The number of bytes. -/
def Contents.size : Contents → Nat
  | text t => t.utf8ByteSize
  | binary n => n

/-- What can stand at a place. -/
inductive Entry where
  /-- A regular file. -/
  | file (contents : Contents)
  /-- A directory. -/
  | directory
  /-- A symbolic link. -/
  | link (target : String)
deriving DecidableEq, Repr

/-- A place in a file system: the names from the root down to it. -/
abbrev Place := List String

/-- The files of a system, and where a run works among them. -/
structure FileSystem where
  /-- What stands where; the root is always a directory. -/
  entries : List (Place × Entry)
  /-- Where relative paths start. -/
  workingDirectory : Place
deriving Repr, DecidableEq

namespace FileSystem

/-! ## Entries -/

/-- What stands at a place. -/
def lookup? (fs : FileSystem) (place : Place) : Option Entry :=
  if place = [] then some .directory else fs.entries.lookup place

/-- The system with something else at a place. -/
def put (place : Place) (entry : Entry) (fs : FileSystem) : FileSystem :=
  { fs with entries := Table.put place entry fs.entries }

/-- The system with nothing at a place. -/
def remove (place : Place) (fs : FileSystem) : FileSystem :=
  { fs with entries := Table.erase place fs.entries }

/-- The entries right inside the directory at a place, in the order of their names. -/
def inside (fs : FileSystem) (place : Place) : List (String × Entry) :=
  (fs.entries.filterMap fun (p, entry) =>
    match p.getLast? with
    | some name => if p.dropLast = place then some (name, entry) else none
    | none => none).mergeSort fun a b => a.1 ≤ b.1

/-! ## Resolving paths -/

/-- Where a path leads. -/
inductive Spot where
  /-- To something. -/
  | occupied (place : Place) (entry : Entry)
  /-- To nothing yet, in a directory that does exist. -/
  | vacant (place : Place)
deriving DecidableEq, Repr

/-- Follows the names `todo` from the place `here`.  At most `links` symbolic links are gone
through, and one at the very end only if `follow` says so. -/
def walk (fs : FileSystem) (follow : Bool) (links : Nat) (here : Place) (todo : List String) :
    Except IoCause Spot :=
  match todo with
  | [] =>
    match fs.lookup? here with
    | some entry => .ok (.occupied here entry)
    | none => .error .notFound
  | name :: rest =>
    match fs.lookup? here with
    | none => .error .notFound
    | some (.file _) | some (.link _) => .error .notADirectory
    | some .directory =>
      if name = "" ∨ name = "." then walk fs follow links here rest
      else if name = ".." then walk fs follow links here.dropLast rest
      else if 255 < name.utf8ByteSize then .error .nameTooLong
      else
        match fs.lookup? (here ++ [name]) with
        | none => if rest.isEmpty then .ok (.vacant (here ++ [name])) else .error .notFound
        | some (.link target) =>
          if rest.isEmpty && !follow then .ok (.occupied (here ++ [name]) (.link target))
          else
            match links with
            | 0 => .error .tooManyLinks
            | links + 1 =>
              walk fs follow links (if (Path.mk target).isAbsolute then [] else here)
                ((Path.mk target).parts ++ rest)
        | some _ => walk fs follow links (here ++ [name]) rest
termination_by (links, todo.length)

/-- The most symbolic links that one path may lead through. -/
def maxLinks : Nat := 40

/-- The number of bytes from which on a path is too long. -/
def maxPathSize : Nat := 4096

/-- What is wrong with the spelling of a path, whatever stands where.  The empty path leads
nowhere. -/
def fault? (p : Path) : Option IoCause :=
  if p.text.toList.contains '\x00' then some .nulInName
  else if p.text = "" then some .notFound
  else if maxPathSize ≤ p.text.utf8ByteSize then some .nameTooLong
  else none

/-- The place that a path starts from. -/
def startOf (fs : FileSystem) (p : Path) : Place := if p.isAbsolute then [] else fs.workingDirectory

/-- Where a path leads. -/
def spot (fs : FileSystem) (follow : Bool) (p : Path) : Except IoCause Spot :=
  match fault? p with
  | some cause => .error cause
  | none => fs.walk follow maxLinks (fs.startOf p) p.parts

/-! ## Questions -/

/-- What a path leads to, through all links. -/
def stat (fs : FileSystem) (p : Path) : Except IoCause Entry :=
  match fs.spot true p with
  | .ok (.occupied _ entry) => .ok entry
  | .ok (.vacant _) => .error .notFound
  | .error cause => .error cause

/-- A path leads to a regular file. -/
def isFile (fs : FileSystem) (p : Path) : Bool :=
  match fs.stat p with
  | .ok (.file _) => true
  | _ => false

/-- A path leads to a directory. -/
def isDirectory (fs : FileSystem) (p : Path) : Bool :=
  match fs.stat p with
  | .ok .directory => true
  | _ => false

/-- A path leads to anything at all. -/
def leadsSomewhere (fs : FileSystem) (p : Path) : Bool := (fs.stat p).toBool

/-- The size of what a path leads to.  That of a directory is of no account. -/
def size (fs : FileSystem) (p : Path) : Except IoCause Nat :=
  (fs.stat p).map fun
    | .file contents => contents.size
    | .directory | .link _ => 0

/-- The text of the file that a path leads to. -/
def readText (fs : FileSystem) (p : Path) : Except IoCause String :=
  match fs.stat p with
  | .ok (.file (.text text)) => .ok text
  | .ok (.file (.binary _)) => .error .invalidUtf8
  | .ok .directory => .error .isADirectory
  | .ok (.link _) => .error .tooManyLinks
  | .error cause => .error cause

/-- The entries of the directory that a path leads to, in the order of their names. -/
def list (fs : FileSystem) (p : Path) : Except IoCause (List (String × Entry)) :=
  match fs.spot true p with
  | .ok (.occupied place .directory) => .ok (fs.inside place)
  | .ok (.occupied _ _) => .error .notADirectory
  | .ok (.vacant _) => .error .notFound
  | .error cause => .error cause

/-- The regular files below the directory that a path leads to, with the paths that lead to them
through no other link; a path that leads to a file has that one. -/
def filesUnder (fs : FileSystem) (p : Path) : List (Path × Contents) :=
  match fs.spot true p with
  | .ok (.occupied _ (.file contents)) => [(p, contents)]
  | .ok (.occupied top .directory) =>
    fs.entries.filterMap fun (place, entry) =>
      match entry with
      | .file contents =>
        if top.isPrefixOf place then
          some (p.join ⟨"/".intercalate (place.drop top.length)⟩, contents)
        else none
      | _ => none
  | _ => []

/-! ## Changes

A change answers whether it was made, and with the system after it: one that fails on its way keeps
what it did before. -/

/-- A path without the slashes at its end, unless it is nothing but slashes. -/
def dropSlashes (p : Path) : Path :=
  let kept := (p.text.toList.reverse.dropWhile (· == '/')).reverse
  if kept.isEmpty then p else ⟨String.ofList kept⟩

/-- Where a directory would be made. -/
def siteOf (fs : FileSystem) (p : Path) : Except IoCause Spot :=
  match fault? p with
  | some cause => .error cause
  | none => fs.spot false (dropSlashes p)

/-- Makes one directory, in a directory that exists. -/
def makeDirectory (p : Path) (fs : FileSystem) : Except IoCause Unit × FileSystem :=
  match fs.siteOf p with
  | .ok (.vacant place) => (.ok (), fs.put place .directory)
  | .ok (.occupied _ _) => (.error .alreadyExists, fs)
  | .error cause => (.error cause, fs)

/-- Makes the first of some directories, each inside the next one, with all of them that are
missing.  Those that exist are left alone. -/
def makeFirst : List Path → FileSystem → Except IoCause Unit × FileSystem
  | [], fs => (.ok (), fs)
  | p :: above, fs =>
    match fs.makeDirectory p with
    | (.ok (), fs) => (.ok (), fs)
    | (.error .notFound, _) =>
      match makeFirst above fs with
      | (.error cause, fs) => (.error cause, fs)
      | (.ok (), fs) =>
        match fs.makeDirectory p with
        | (.ok (), fs) => (.ok (), fs)
        | (.error cause, fs) => (if fs.isDirectory p then .ok () else .error cause, fs)
    | (.error cause, _) => (if fs.isDirectory p then .ok () else .error cause, fs)

/-- Makes a directory and all those above it that are missing. -/
def makeDirectories (p : Path) (fs : FileSystem) : Except IoCause Unit × FileSystem :=
  makeFirst p.ancestors fs

/-- Writes a text to a file, which is made if it is missing and replaced if it is not. -/
def writeText (p : Path) (text : String) (fs : FileSystem) : Except IoCause Unit × FileSystem :=
  match fs.spot true p with
  | .ok (.vacant place) => (.ok (), fs.put place (.file (.text text)))
  | .ok (.occupied place (.file _)) => (.ok (), fs.put place (.file (.text text)))
  | .ok (.occupied _ .directory) => (.error .isADirectory, fs)
  | .ok (.occupied _ (.link _)) => (.error .tooManyLinks, fs)
  | .error cause => (.error cause, fs)

/-! ## Laws -/

theorem lookup?_put_self {place : Place} (h : place ≠ []) (entry : Entry) (fs : FileSystem) :
    (fs.put place entry).lookup? place = some entry := by
  simp [lookup?, put, h]

theorem lookup?_put_of_ne {place other : Place} (h : other ≠ place) (entry : Entry)
    (fs : FileSystem) : (fs.put place entry).lookup? other = fs.lookup? other := by
  simp only [lookup?, put, Table.lookup_put_of_ne h]

end FileSystem

end LiveExcerpts
