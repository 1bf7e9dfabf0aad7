import LiveExcerpts.FileSystem
import LiveExcerpts.Node.Rows
import LiveExcerpts.SourceFile
/-!
# Tree files

Parsers leave the tree of a source file beside it, in a file with `.tree` behind its name.  A tree
file has a line for each node in pre-order, with six fields that tabs part: depth, first byte, byte
after the last, `1` for a named node and `0` for another, field or nothing, and kind.

Main definitions: `TreeFile.row?`, `Grammars.ofTreeFiles`.  Main statements: an escaped kind is read
back (`unescape_escape`) and has no tabs and no line feeds (`not_mem_escape_of_parts`).
-/

namespace LiveExcerpts

namespace TreeFile

/-! ## Kinds -/

/-- A kind on a line: tabs, line feeds and backslashes are escaped. -/
def escape : List Char → List Char
  | [] => []
  | '\t' :: cs => '\\' :: 't' :: escape cs
  | '\n' :: cs => '\\' :: 'n' :: escape cs
  | '\\' :: cs => '\\' :: '\\' :: escape cs
  | c :: cs => c :: escape cs

/-- The kind that was escaped. -/
def unescape : List Char → List Char
  | '\\' :: 't' :: cs => '\t' :: unescape cs
  | '\\' :: 'n' :: cs => '\n' :: unescape cs
  | '\\' :: '\\' :: cs => '\\' :: unescape cs
  | c :: cs => c :: unescape cs
  | [] => []

/-- An escaped kind is read back. -/
theorem unescape_escape (cs : List Char) : unescape (escape cs) = cs := by
  fun_induction escape cs with
  | case1 => rfl
  | case2 cs ih => simp [unescape, ih]
  | case3 cs ih => simp [unescape, ih]
  | case4 cs ih => simp [unescape, ih]
  | case5 c cs ht hn hb ih =>
      rw [unescape, ih] <;> exact fun _ h => absurd h hb

/-- An escaped kind stays in its field, on its line. -/
theorem not_mem_escape_of_parts {c : Char} (h : c = '\t' ∨ c = '\n') (cs : List Char) :
    c ∉ escape cs := by
  have hslash : c ≠ '\\' := by rintro rfl; revert h; decide
  have hletter : c ≠ 't' ∧ c ≠ 'n' := by
    constructor <;> (rintro rfl; revert h; decide)
  fun_induction escape cs with
  | case1 => exact List.not_mem_nil
  | case2 cs ih => simp [hslash, hletter.1, ih]
  | case3 cs ih => simp [hslash, hletter.2, ih]
  | case4 cs ih => simp [hslash, ih]
  | case5 d cs ht hn hb ih =>
      rw [List.mem_cons, not_or]
      refine ⟨?_, ih⟩
      rintro rfl
      exact h.elim ht hn

/-! ## Lines -/

/-- The row that a line writes down. -/
def row? (line : List Char) : Option Node.Row :=
  match (Text.pieces (· == '\t') line).map String.ofList with
  | [depth, start, stop, named, field, kind] => do
    let depth ← depth.toNat?
    let start ← start.toNat?
    let stop ← stop.toNat?
    return ⟨depth, Text.onChars unescape kind, named == "1",
      if field.isEmpty then none else some field, start, stop⟩
  | _ => none

/-- The tree that a tree file holds. -/
def tree? (text : String) : Option Node :=
  ((Text.lines text.toList).mapM row?).bind Node.ofRows?

/-- The place of the tree file for the source file at a place. -/
def placeFor (source : Place) : Place :=
  source.dropLast ++ [(source.getLast?.getD "") ++ ".tree"]

/-- A file is a source file in a language with this text. -/
def isSource (language : Language) (text : String) (file : Place × Entry) : Bool :=
  file.2 = .file (.text text) &&
    (Language.ofPath ⟨file.1.getLast?.getD ""⟩).toOption = some language

end TreeFile

/-- The parsers that look a text's tree up beside a source file with that text. -/
def Grammars.ofTreeFiles (fs : FileSystem) : Grammars := fun language text =>
  match fs.entries.find? (TreeFile.isSource language text) with
  | none => .error "there is no source file with this text"
  | some (place, _) =>
    match fs.lookup? (TreeFile.placeFor place) with
    | some (.file (.text tree)) =>
      match TreeFile.tree? tree with
      | some root => .ok root
      | none => .error "the tree file beside it is not well formed"
    | _ => .error "there is no tree file beside it"

end LiveExcerpts
