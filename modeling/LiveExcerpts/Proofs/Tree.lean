import LiveExcerpts.Node
/-!
# Trees of a source

What a parser promises of a tree, and what follows for its nodes, its leaves and its sites.  A tree
is **well nested** when the span of each node holds the spans of its children, and these follow one
another; it is **well formed** for a source when, besides, every span begins and ends on an edge of
a character.

Main definitions: `Node.Part`, `Node.All`, `Node.WellNested`, `Node.WellFormed`,
`Node.Site.Under`.  Main statements: the leaves of a well-nested tree follow one another
(`pairwise_leaves`), a part of a well-nested tree lies inside it (`Part.inside`), and every site
of a tree leads down from its root (`under_of_mem_sites`), also after stepping up (`Under.climb`).
-/

namespace LiveExcerpts.Node

/-! ## Induction over a tree -/

mutual

/-- **Induction on trees.**  What passes from the children of every node to the node holds of every
tree. -/
theorem childrenInduction {motive : Node → Prop}
    (step : ∀ node : Node, (∀ child ∈ node.children, motive child) → motive node) :
    ∀ node : Node, motive node
  | ⟨kind, isNamed, field?, start, stop, children⟩ =>
      step ⟨kind, isNamed, field?, start, stop, children⟩ (childrenInductionAmong step children)

theorem childrenInductionAmong {motive : Node → Prop}
    (step : ∀ node : Node, (∀ child ∈ node.children, motive child) → motive node) :
    ∀ nodes : List Node, ∀ node ∈ nodes, motive node
  | [] => nofun
  | first :: rest => fun node hnode => by
      rcases List.mem_cons.1 hnode with h | h
      · rw [h]; exact childrenInduction step first
      · exact childrenInductionAmong step rest node h

end

/-! ## Parts of a tree -/

/-- A part of a tree: its root, or a child of a part. -/
inductive Part (root : Node) : Node → Prop
  | root : Part root root
  | child {parent node : Node} : Part root parent → node ∈ parent.children → Part root node

/-- A part of a part is a part. -/
theorem Part.trans {root middle node : Node} (h : Part root middle) (hnode : Part middle node) :
    Part root node := by
  induction hnode with
  | root => exact h
  | child _ hmem ih => exact .child ih hmem

theorem part_of_mem_children {root child : Node} (h : child ∈ root.children) : Part root child :=
  .child .root h

/-- A property of every node of a tree. -/
inductive All (p : Node → Prop) : Node → Prop
  | intro {node : Node} : p node → (∀ child ∈ node.children, All p child) → All p node

theorem All.here {p : Node → Prop} {node : Node} (h : node.All p) : p node := by
  cases h with
  | intro here _ => exact here

theorem All.child {p : Node → Prop} {node child : Node} (h : node.All p)
    (hchild : child ∈ node.children) : child.All p := by
  cases h with
  | intro _ below => exact below child hchild

/-- What holds of every node of a tree holds of every node of its parts. -/
theorem All.part {p : Node → Prop} {root node : Node} (h : root.All p) (hnode : Part root node) :
    node.All p := by
  induction hnode with
  | root => exact h
  | child _ hmem ih => exact ih.child hmem

mutual

/-- Whether a property holds of every node of a tree. -/
def decideAll (p : Node → Prop) [DecidablePred p] : (node : Node) → Decidable (node.All p)
  | ⟨kind, isNamed, field?, start, stop, children⟩ =>
    let node : Node := ⟨kind, isNamed, field?, start, stop, children⟩
    have : Decidable (∀ child ∈ children, child.All p) := decideAllAmong p children
    decidable_of_iff (p node ∧ ∀ child ∈ children, child.All p)
      ⟨fun h => .intro h.1 h.2, fun h => ⟨h.here, fun _ hchild => h.child hchild⟩⟩

/-- Whether a property holds of every node of a row of trees. -/
def decideAllAmong (p : Node → Prop) [DecidablePred p] :
    (nodes : List Node) → Decidable (∀ node ∈ nodes, node.All p)
  | [] => .isTrue nofun
  | node :: rest =>
    have := decideAll p node
    have := decideAllAmong p rest
    decidable_of_iff (node.All p ∧ ∀ other ∈ rest, other.All p) List.forall_mem_cons.symm

end

instance (p : Node → Prop) [DecidablePred p] : DecidablePred (All p) := decideAll p

/-! ## Promises of a parser -/

/-- The span of a node runs forwards and ends within `bound` bytes. -/
def SpansWithin (bound : Nat) (node : Node) : Prop := node.start ≤ node.stop ∧ node.stop ≤ bound

/-- The span of a node holds the spans of its children, and these follow one another. -/
def HoldsChildren (node : Node) : Prop :=
  (∀ child ∈ node.children, node.start ≤ child.start ∧ child.stop ≤ node.stop) ∧
    node.children.Pairwise fun a b => a.stop ≤ b.start

/-- The span of a node begins and ends on edges of characters of the source. -/
def OnEdges (source : String) (node : Node) : Prop :=
  Text.IsEdge source node.start ∧ Text.IsEdge source node.stop

instance (bound : Nat) : DecidablePred (SpansWithin bound) := fun node =>
  inferInstanceAs (Decidable (node.start ≤ node.stop ∧ node.stop ≤ bound))

instance : DecidablePred HoldsChildren := fun node =>
  inferInstanceAs (Decidable ((∀ child ∈ node.children, _ ∧ _) ∧ List.Pairwise _ _))

instance (source : String) : DecidablePred (OnEdges source) := fun node =>
  inferInstanceAs (Decidable (Text.IsEdge source node.start ∧ Text.IsEdge source node.stop))

/-- A tree whose spans lie within `bound` bytes, nested and in order. -/
structure WellNested (bound : Nat) (root : Node) : Prop where
  /-- Spans run forwards and end within the bound. -/
  spans : root.All (SpansWithin bound)
  /-- Each span holds those of the children, which follow one another. -/
  holds : root.All HoldsChildren

/-- A tree of a source: its spans are nested, in order, and on edges of characters. -/
structure WellFormed (source : String) (root : Node) : Prop
    extends WellNested source.utf8ByteSize root where
  /-- Spans begin and end on edges of characters. -/
  edges : root.All (OnEdges source)

instance (bound : Nat) (root : Node) : Decidable (WellNested bound root) :=
  decidable_of_iff (root.All (SpansWithin bound) ∧ root.All HoldsChildren)
    ⟨fun h => ⟨h.1, h.2⟩, fun h => ⟨h.spans, h.holds⟩⟩

instance (source : String) (root : Node) : Decidable (WellFormed source root) :=
  decidable_of_iff (WellNested source.utf8ByteSize root ∧ root.All (OnEdges source))
    ⟨fun h => ⟨h.1, h.2⟩, fun h => ⟨h.toWellNested, h.edges⟩⟩

/-- A part of a well-nested tree is well nested. -/
theorem WellNested.part {bound : Nat} {root node : Node} (h : WellNested bound root)
    (hnode : Part root node) : WellNested bound node :=
  ⟨h.spans.part hnode, h.holds.part hnode⟩

theorem WellNested.start_le_stop {bound : Nat} {node : Node} (h : WellNested bound node) :
    node.start ≤ node.stop := h.spans.here.1

/-- **A part of a well-nested tree lies inside it.** -/
theorem Part.inside {bound : Nat} {root node : Node} (hnode : Part root node)
    (h : WellNested bound root) : root.start ≤ node.start ∧ node.stop ≤ root.stop := by
  induction hnode with
  | root => exact ⟨Nat.le_refl _, Nat.le_refl _⟩
  | @child parent node hparent hmem ih =>
      have hspan := (h.holds.part hparent).here.1 node hmem
      omega

/-! ## Leaves -/

theorem leavesAmong_eq_flatMap (nodes : List Node) : leavesAmong nodes = nodes.flatMap leaves := by
  induction nodes with
  | nil => rfl
  | cons node rest ih => rw [leavesAmong, ih, List.flatMap_cons]

/-- The leaves of a node: itself where the descent ends, else those of its children. -/
theorem leaves_eq (node : Node) :
    node.leaves =
      if node.children.isEmpty || node.isComment then
        if node.start < node.stop then [node] else []
      else node.children.flatMap leaves := by
  cases node
  rw [leaves, leavesAmong_eq_flatMap]

/-- No leaf is empty. -/
theorem start_lt_stop_of_mem_leaves {root leaf : Node} (h : leaf ∈ root.leaves) :
    leaf.start < leaf.stop := by
  induction root using childrenInduction with
  | step node ih =>
      rw [leaves_eq] at h
      split at h
      · split at h
        · next hlt => rw [List.mem_singleton.1 h]; exact hlt
        · simp at h
      · obtain ⟨child, hchild, hleaf⟩ := List.mem_flatMap.1 h
        exact ih child hchild hleaf

/-- The leaves of a tree are parts of it. -/
theorem part_of_mem_leaves {root leaf : Node} (h : leaf ∈ root.leaves) : Part root leaf := by
  induction root using childrenInduction with
  | step node ih =>
      rw [leaves_eq] at h
      split at h
      · split at h
        · rw [List.mem_singleton.1 h]; exact .root
        · simp at h
      · obtain ⟨child, hchild, hleaf⟩ := List.mem_flatMap.1 h
        exact (part_of_mem_children hchild).trans (ih child hchild hleaf)

/-- **The leaves of a well-nested tree follow one another.** -/
theorem pairwise_leaves {bound : Nat} {root : Node} (h : WellNested bound root) :
    root.leaves.Pairwise fun a b => a.stop ≤ b.start := by
  induction root using childrenInduction with
  | step node ih =>
      rw [leaves_eq]
      split
      · split <;> simp
      · rw [List.pairwise_flatMap]
        refine ⟨fun child hchild => ih child hchild (h.part (part_of_mem_children hchild)), ?_⟩
        -- Leaves of two children are kept apart by the children's own spans.
        refine h.holds.here.2.imp_of_mem fun {a b} ha hb hab x hx y hy => ?_
        have hxa := (part_of_mem_leaves hx).inside (h.part (part_of_mem_children ha))
        have hyb := (part_of_mem_leaves hy).inside (h.part (part_of_mem_children hb))
        omega

/-! ## Sites -/

/-- The site leads down from the root: each step up from it goes from a child to its parent, past
the children before it. -/
inductive Site.Under (root : Node) : Site → Prop
  | root : Under root ⟨root, []⟩
  | child {parent node : Node} {above : List Step} {before after : List Node} :
      Under root ⟨parent, above⟩ → parent.children = before.reverse ++ node :: after →
      Under root ⟨node, ⟨parent, before⟩ :: above⟩

mutual

theorem Site.under_of_mem_sitesUnder {root : Node} (above : List Step) :
    ∀ node : Node, Under root ⟨node, above⟩ → ∀ site ∈ node.sitesUnder above, Under root site
  | ⟨kind, isNamed, field?, start, stop, children⟩ => fun hnode site hsite => by
      rw [sitesUnder, List.mem_cons] at hsite
      rcases hsite with rfl | hsite
      · exact hnode
      · exact under_of_mem_sitesAmong above [] hnode children rfl site hsite

theorem Site.under_of_mem_sitesAmong {root parent : Node} (above : List Step)
    (before : List Node) (hparent : Under root ⟨parent, above⟩) :
    ∀ nodes : List Node, parent.children = before.reverse ++ nodes →
      ∀ site ∈ sitesAmong above parent before nodes, Under root site
  | [] => fun _ site hsite => by simp [sitesAmong] at hsite
  | node :: rest => fun hchildren site hsite => by
      rw [sitesAmong, List.mem_append] at hsite
      rcases hsite with hsite | hsite
      · exact under_of_mem_sitesUnder _ node (.child hparent hchildren) site hsite
      · refine under_of_mem_sitesAmong above (node :: before) hparent rest ?_ site hsite
        rw [hchildren, List.reverse_cons, List.append_assoc]
        rfl

end

/-- **Every site of a tree leads down from its root.** -/
theorem Site.under_of_mem_sites {root : Node} {site : Site} (h : site ∈ root.sites) :
    site.Under root :=
  under_of_mem_sitesUnder [] root .root site h

namespace Site

theorem Under.part {root : Node} {site : Site} (h : site.Under root) : Part root site.node := by
  induction h with
  | root => exact .root
  | child _ hchildren ih => exact .child ih (by rw [hchildren]; simp)

/-- Stepping up keeps a site in its tree, and leads to a node that the site's node is a part of. -/
theorem Under.climb {root : Node} {site : Site} (h : site.Under root) (kinds : List String) :
    (site.climb kinds).Under root ∧ Part (site.climb kinds).node site.node := by
  obtain ⟨node, above⟩ := site
  show (climb.go kinds node above).Under root ∧ Part (climb.go kinds node above).node node
  induction above generalizing node with
  | nil => exact ⟨h, .root⟩
  | cons step above ih =>
      rw [climb.go]
      split
      · cases h with
        | @child parent _ _ before after hparent hchildren =>
            obtain ⟨hunder, hpart⟩ := ih parent hparent
            exact ⟨hunder, .child hpart (by rw [hchildren]; simp)⟩
      · exact ⟨h, .root⟩

/-- A sibling before a site is a part of the tree, and ends where the site's node starts, or
earlier. -/
theorem Under.before {bound : Nat} {root sibling : Node} {site : Site} (h : site.Under root)
    (hroot : WellNested bound root) (hsibling : sibling ∈ site.before) :
    Part root sibling ∧ sibling.stop ≤ site.node.start := by
  cases h with
  | root => simp [Site.before] at hsibling
  | @child parent node above before after hparent hchildren =>
      have hmem : sibling ∈ before.reverse := List.mem_reverse.2 hsibling
      refine ⟨.child hparent.part (by rw [hchildren]; simp [hmem]), ?_⟩
      -- The parent's children are in order, and the sibling is among those before the node.
      have horder := (hroot.holds.part hparent.part).here.2
      rw [hchildren, List.pairwise_append] at horder
      exact horder.2.2 sibling hmem node List.mem_cons_self

end Site

end LiveExcerpts.Node
