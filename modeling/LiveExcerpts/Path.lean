import LiveExcerpts.Text.Split
/-!
# Paths

A path is kept as it was written, since messages and links show it so.  What it means is its list
of components: empty parts and inner `.` parts mean nothing, so `a//b`, `a/./b` and `a/b/` are
three spellings of one path, while `./a` and `a` are two paths.

Main definitions: `Path.components`, `Path.SameAs`, `Path.join`, `Path.fileName?`,
`Path.extension?`, `Path.ancestors`.
-/

namespace LiveExcerpts

/-- A path as written, with `/` between its parts. -/
structure Path where
  /-- The spelling. -/
  text : String
deriving DecidableEq, Repr, Inhabited

namespace Path

/-- One step of a path. -/
inductive Component where
  /-- The leading `/` of an absolute path. -/
  | root
  /-- A leading `.`. -/
  | here
  /-- A `..`. -/
  | up
  /-- A name. -/
  | name (text : String)
deriving DecidableEq, Repr

instance : ToString Path := ⟨Path.text⟩

/-! ## Parts and components -/

/-- What stands between the slashes, empty parts included. -/
def parts (p : Path) : List String :=
  (Text.pieces (· == '/') p.text.toList).map String.ofList

/-- The path begins with a slash. -/
def isAbsolute (p : Path) : Bool := p.text.toList.head? == some '/'

/-- The component that a part after the first stands for, if it stands for one. -/
def component? (part : String) : Option Component :=
  if part = "" ∨ part = "." then none
  else if part = ".." then some .up
  else some (.name part)

/-- The steps of a path.  A `.` counts only at the very start of a relative path. -/
def components (p : Path) : List Component :=
  let first := if p.isAbsolute then [Component.root]
    else if p.parts.head? = some "." then [Component.here]
    else []
  first ++ p.parts.filterMap component?

/-- Two spellings of one path. -/
def SameAs (p q : Path) : Prop := p.components = q.components

instance (p q : Path) : Decidable (p.SameAs q) := inferInstanceAs (Decidable (_ = _))

/-- How a path of these components is written. -/
def ofComponents : List Component → Path
  | [] => ⟨""⟩
  | .root :: rest => ⟨"/" ++ "/".intercalate (rest.map spell)⟩
  | steps => ⟨"/".intercalate (steps.map spell)⟩
where
  /-- The part that a component is written as. -/
  spell : Component → String
    | .root => ""
    | .here => "."
    | .up => ".."
    | .name text => text

/-! ## Operations -/

/-- The path `q` seen from `p`: an absolute `q` stands for itself, any other is written after `p`
and one slash, unless `p` is empty or already ends in one. -/
def join (p q : Path) : Path :=
  if q.isAbsolute || p.text.isEmpty then q
  else if p.text.toList.getLast? = some '/' then ⟨p.text ++ q.text⟩
  else ⟨p.text ++ "/" ++ q.text⟩

/-- The last component, if it is a name. -/
def fileName? (p : Path) : Option String :=
  match p.components.getLast? with
  | some (.name text) => some text
  | _ => none

/-- What follows the last dot of the file name.  A dot at the very start of the name does not
count. -/
def extension? (p : Path) : Option String := do
  let name ← p.fileName?
  let reversed := name.toList.reverse
  let after := reversed.takeWhile (· != '.')
  match reversed.drop after.length with
  | _ :: _ :: _ => some (String.ofList after.reverse)
  | _ => none

/-- The path itself and all that lie above it, the nearest first.  The empty path is not among
them. -/
def ancestors (p : Path) : List Path :=
  let steps := p.components
  (List.range steps.length).map fun k =>
    if k = 0 then p else ofComponents (steps.take (steps.length - k))

/-! ## Laws -/

theorem SameAs.refl (p : Path) : p.SameAs p := rfl

theorem SameAs.symm {p q : Path} (h : p.SameAs q) : q.SameAs p := Eq.symm h

theorem SameAs.trans {p q r : Path} (h : p.SameAs q) (h' : q.SameAs r) : p.SameAs r :=
  Eq.trans h h'

example : (⟨"a//./b/"⟩ : Path).SameAs ⟨"a/b"⟩ := by decide +kernel
example : ¬ (⟨"./a"⟩ : Path).SameAs ⟨"a"⟩ := by decide +kernel
example : (⟨"a"⟩ : Path).join ⟨"b"⟩ = ⟨"a/b"⟩ := by decide +kernel
example : (⟨"x/.rs"⟩ : Path).extension? = none := by decide +kernel
example : (⟨"x/a.tar.gz"⟩ : Path).extension? = some "gz" := by decide +kernel

end Path

end LiveExcerpts
