import LiveExcerpts.Text.Split
import LiveExcerpts.Text.Slice
/-!
# Trees of source files

A source file is read through the concrete tree that a parser made of it.  A `Node` is such a tree:
its kind, the field it fills in its parent, the bytes it spans, and its children in order.

`Node.leaves` are the tokens of the grammar, and `Node.sites` are all nodes in pre-order, each with
the way up to the root, so that a node's parents and the siblings before it can be asked for.

Main statements: `Node.sites` begins with the node itself (`head?_sites`), and lists as many sites
as the tree has nodes (`length_sites`).
-/

namespace LiveExcerpts

/-- A node of a concrete tree. -/
structure Node where
  /-- The kind that the grammar gives it. -/
  kind : String
  /-- Whether it is a named node, rather than a piece of punctuation or a keyword. -/
  isNamed : Bool
  /-- The field that it fills in its parent. -/
  field? : Option String
  /-- The byte it starts at. -/
  start : Nat
  /-- The byte after its last. -/
  stop : Nat
  /-- Its children, in order. -/
  children : List Node
deriving Repr, Inhabited

namespace Node

/-! ## Questions about one node -/

/-- The kind of an opening brace. -/
def openBrace : String := "\x7b"

/-- The kind of a node tells whether it is a comment. -/
def isComment (node : Node) : Bool :=
  Text.contains "comment".toList node.kind.toList

/-- The first child that fills `field`. -/
def childByField? (node : Node) (field : String) : Option Node :=
  node.children.find? fun child => child.field? == some field

/-- The first child of one of `kinds`. -/
def childOfKind? (node : Node) (kinds : List String) : Option Node :=
  node.children.find? fun child => kinds.contains child.kind

/-- The text that a node spans. -/
def text? (source : String) (node : Node) : Option String :=
  Text.slice? source node.start node.stop

mutual

/-- The number of nodes of a tree. -/
def size : Node → Nat
  | ⟨_, _, _, _, _, children⟩ => 1 + sizeAmong children

/-- The number of nodes of a row of trees. -/
def sizeAmong : List Node → Nat
  | [] => 0
  | node :: rest => node.size + sizeAmong rest

end

/-! ## Leaves -/

mutual

/-- The tokens of the grammar in a tree: the childless nodes and the comments, which are taken
whole, without those that span nothing. -/
def leaves : Node → List Node
  | node@⟨_, _, _, start, stop, children⟩ =>
    if children.isEmpty || node.isComment then
      if start < stop then [node] else []
    else leavesAmong children

/-- The tokens of the grammar in a row of trees. -/
def leavesAmong : List Node → List Node
  | [] => []
  | node :: rest => node.leaves ++ leavesAmong rest

end

/-! ## First of a kind below a node -/

mutual

/-- The first node of one of `kinds` below a node, in pre-order. -/
def descendant? (kinds : List String) : Node → Option Node
  | ⟨_, _, _, _, _, children⟩ => descendantAmong? kinds children

/-- The first node of one of `kinds` in a row of trees, in pre-order. -/
def descendantAmong? (kinds : List String) : List Node → Option Node
  | [] => none
  | node :: rest =>
    if kinds.contains node.kind then some node
    else (node.descendant? kinds).or (descendantAmong? kinds rest)

end

/-! ## Sites -/

/-- One step up a tree: the parent, and the children it has before the one stepped up from, the
nearest first. -/
structure Step where
  /-- The parent. -/
  parent : Node
  /-- The earlier siblings, the nearest first. -/
  before : List Node
deriving Repr, Inhabited

/-- A node together with the way from it up to the root. -/
structure Site where
  /-- The node. -/
  node : Node
  /-- The steps up, the nearest first. -/
  above : List Step
deriving Repr, Inhabited

mutual

/-- All nodes of a tree in pre-order, with the way up from each; `above` leads up from the tree
itself. -/
def sitesUnder (above : List Step) : Node → List Site
  | node@⟨_, _, _, _, _, children⟩ => ⟨node, above⟩ :: sitesAmong above node [] children

/-- The sites in a row of children of `parent` that follow the children `before`. -/
def sitesAmong (above : List Step) (parent : Node) (before : List Node) : List Node → List Site
  | [] => []
  | node :: rest =>
    node.sitesUnder (⟨parent, before⟩ :: above) ++ sitesAmong above parent (node :: before) rest

end

/-- All nodes of a tree in pre-order, each with the way up to the root. -/
def sites (root : Node) : List Site := root.sitesUnder []

/-- The site seen from its parents: stepping up as long as the parent is one of `kinds`. -/
def Site.climb (kinds : List String) (site : Site) : Site :=
  go site.node site.above
where
  /-- Steps up from `node` along `above`. -/
  go (node : Node) : List Step → Site
    | [] => ⟨node, []⟩
    | step :: above =>
      if kinds.contains step.parent.kind then go step.parent above else ⟨node, step :: above⟩

/-- The siblings before a site, the nearest first. -/
def Site.before (site : Site) : List Node :=
  match site.above with
  | [] => []
  | step :: _ => step.before

/-! ## Laws -/

theorem head?_sites (root : Node) : root.sites.head? = some ⟨root, []⟩ := by
  cases root
  simp [sites, sitesUnder]

mutual

theorem length_sitesUnder (above : List Step) : ∀ node : Node,
    (node.sitesUnder above).length = node.size
  | ⟨_, _, _, _, _, children⟩ => by
      rw [sitesUnder, size, List.length_cons, length_sitesAmong, Nat.add_comm]

theorem length_sitesAmong (above : List Step) (parent : Node) (before : List Node) :
    ∀ nodes : List Node, (sitesAmong above parent before nodes).length = sizeAmong nodes
  | [] => rfl
  | node :: rest => by
      rw [sitesAmong, sizeAmong, List.length_append, length_sitesUnder, length_sitesAmong]

end

/-- There are as many sites as nodes. -/
theorem length_sites (root : Node) : root.sites.length = root.size := length_sitesUnder [] root

end Node

end LiveExcerpts
