import LiveExcerpts.Error
import LiveExcerpts.Language
import LiveExcerpts.Token
/-!
# Source files

A source file as the declaration finder sees it: its language, its tree and its tokens.  Trees come
from parsers that are handed in, so that the library itself knows no language's grammar.
-/

namespace LiveExcerpts

/-- The parsers: the tree of a text in a language, or why there is none. -/
abbrev Grammars := Language → String → Except String Node

/-- A parsed source file. -/
structure SourceFile where
  /-- The path it was first asked for by. -/
  path : Path
  /-- Its language. -/
  language : Language
  /-- The tree of its text. -/
  root : Node
  /-- Its tokens, with its text. -/
  tokens : TokenStream
deriving Repr, Inhabited

/-- The language of a file, told by its extension. -/
def Language.ofPath (path : Path) : Except Error Language :=
  let extension := path.extension?.getD ""
  match Language.ofExtension? extension with
  | some language => .ok language
  | none => .error (.unsupportedLanguage extension)

namespace SourceFile

/-- The file at `path` with this text, read through its tree. -/
def ofTree (path : Path) (language : Language) (source : String) (root : Node) : SourceFile :=
  ⟨path, language, root, .ofTree source root⟩

/-- The file at `path` with this text. -/
def parse (grammars : Grammars) (path : Path) (source : String) : Except Error SourceFile := do
  let language ← Language.ofPath path
  match grammars language source with
  | .ok root => .ok (ofTree path language source root)
  | .error reason => .error (.parseFailed path reason)

/-- The text of the file. -/
def source (file : SourceFile) : String := file.tokens.source

end SourceFile

end LiveExcerpts
