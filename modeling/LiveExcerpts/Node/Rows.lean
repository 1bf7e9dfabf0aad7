import LiveExcerpts.Node
/-!
# Trees as rows

A tree is written down as its nodes in pre-order, one row a node, each with its depth.  `rows`
writes a tree so, and `ofRows?` reads it back.

Main statement: what `rows` writes, `ofRows?` reads (`ofRows?_rows`).
-/

namespace LiveExcerpts.Node

/-- A node without its children, and how deep in the tree it is. -/
structure Row where
  /-- The number of steps up to the root. -/
  depth : Nat
  /-- The kind of the node. -/
  kind : String
  /-- Whether it is a named node. -/
  isNamed : Bool
  /-- The field that it fills in its parent. -/
  field? : Option String
  /-- The byte it starts at. -/
  start : Nat
  /-- The byte after its last. -/
  stop : Nat
deriving Repr, DecidableEq

/-! ## Writing -/

mutual

/-- The rows of a tree whose root is at `depth`. -/
def rows (depth : Nat) : Node → List Row
  | ⟨kind, isNamed, field?, start, stop, children⟩ =>
    ⟨depth, kind, isNamed, field?, start, stop⟩ :: rowsAmong (depth + 1) children

/-- The rows of a row of trees whose roots are at `depth`. -/
def rowsAmong (depth : Nat) : List Node → List Row
  | [] => []
  | node :: rest => node.rows depth ++ rowsAmong depth rest

end

/-! ## Reading -/

/-- Puts a row in front of the trees that the rows after it make, each under its depth: the trees
one deeper than the row are its children, and no tree after those may be deeper than the row. -/
def Row.adopt (row : Row) (trees : List (Nat × Node)) : Option (List (Nat × Node)) :=
  let isChild := fun tree : Nat × Node => tree.1 == row.depth + 1
  let children := (trees.takeWhile isChild).map Prod.snd
  let rest := trees.dropWhile isChild
  if rest.head?.all fun tree => tree.1 ≤ row.depth then
    some ((row.depth, ⟨row.kind, row.isNamed, row.field?, row.start, row.stop, children⟩) :: rest)
  else none

/-- The trees that rows in pre-order write down, in front of other trees. -/
def forest? (rows : List Row) (after : List (Nat × Node)) : Option (List (Nat × Node)) :=
  rows.foldr (fun row trees => trees.bind row.adopt) (some after)

/-- The tree that rows in pre-order write down, if they are one tree's. -/
def ofRows? (rows : List Row) : Option Node :=
  match forest? rows [] with
  | some [(0, root)] => some root
  | _ => none

/-! ## Reading back what was written -/

theorem forest?_append (upper lower : List Row) (after : List (Nat × Node)) :
    forest? (upper ++ lower) after = (forest? lower after).bind (forest? upper) := by
  simp only [forest?, List.foldr_append]
  cases List.foldr (fun row trees => trees.bind row.adopt) (some after) lower with
  | some trees => rfl
  | none =>
      induction upper with
      | nil => rfl
      | cons row upper ih => rw [List.foldr_cons, ih]; rfl

/-- A row takes in its children and nothing after them. -/
theorem adopt_map_append (row : Row) (children : List Node) (after : List (Nat × Node))
    (h : ∀ tree ∈ after.head?, tree.1 ≤ row.depth) :
    row.adopt (children.map (row.depth + 1, ·) ++ after) =
      some ((row.depth, ⟨row.kind, row.isNamed, row.field?, row.start, row.stop, children⟩)
        :: after) := by
  have hafter : after.takeWhile (fun tree => tree.1 == row.depth + 1) = []
      ∧ after.dropWhile (fun tree => tree.1 == row.depth + 1) = after := by
    cases after with
    | nil => simp
    | cons tree after =>
        have : tree.1 ≤ row.depth := h tree (by simp)
        have hne : (tree.1 == row.depth + 1) = false := by simp; omega
        simp [hne]
  have hall : ∀ tree ∈ children.map (row.depth + 1, ·), (tree.1 == row.depth + 1) = true := by
    simp
  have hhead : (after.head?.all fun tree => decide (tree.1 ≤ row.depth)) = true := by
    cases hh : after.head? with
    | none => rfl
    | some tree => simpa using h tree (by simp [hh])
  simp only [Row.adopt, List.takeWhile_append_of_pos hall, List.dropWhile_append_of_pos hall,
    hafter.1, hafter.2, hhead, if_true, List.append_nil, List.map_map]
  congr 3
  simp [Function.comp_def]

mutual

theorem forest?_rows (depth : Nat) (after : List (Nat × Node))
    (h : ∀ tree ∈ after.head?, tree.1 ≤ depth) :
    ∀ node : Node, forest? (node.rows depth) after = some ((depth, node) :: after)
  | ⟨kind, isNamed, field?, start, stop, children⟩ => by
      have ih := forest?_rowsAmong (depth + 1) after (fun t ht => by have := h t ht; omega) children
      rw [rows, show ∀ r rs, forest? (r :: rs) after = (forest? rs after).bind r.adopt from
        fun _ _ => rfl, ih]
      exact adopt_map_append ⟨depth, kind, isNamed, field?, start, stop⟩ children after h

theorem forest?_rowsAmong (depth : Nat) (after : List (Nat × Node))
    (h : ∀ tree ∈ after.head?, tree.1 ≤ depth) :
    ∀ nodes : List Node, forest? (rowsAmong depth nodes) after =
      some (nodes.map (depth, ·) ++ after)
  | [] => rfl
  | node :: rest => by
      rw [rowsAmong, forest?_append, forest?_rowsAmong depth after h rest]
      refine forest?_rows depth _ (fun tree ht => ?_) node
      cases rest with
      | nil => exact h tree (by simpa using ht)
      | cons sibling rest =>
          obtain rfl : (depth, sibling) = tree := by simpa using ht
          exact Nat.le_refl _

end

/-- What `rows` writes, `ofRows?` reads. -/
theorem ofRows?_rows (root : Node) : ofRows? (root.rows 0) = some root := by
  rw [ofRows?, forest?_rows 0 [] (by simp) root]
  rfl

end LiveExcerpts.Node
