import LiveExcerpts.Proofs.Bindings
/-!
# Leaves around a site

The leaves of a tree do not lie inside comments, so a node that is not inside a comment either is
never across one of them: a leaf is a leaf of the node, or it lies before the node or behind it.
What lies between a node and one of the siblings before it are therefore the leaves of the siblings
in between.

Main definition: `Node.Site.isOutside`.  Main statements: the sites of a tree are those that lead
down from its root (`Node.Site.mem_sites_iff_under`), `Node.Site.Under.leaf_cases`, and
`Node.Site.Under.exists_sibling_of_leaf` on the leaves between siblings.
-/

namespace LiveExcerpts.Node

/-! ## Sites below sites -/

mutual

/-- A child of a node that a walk comes to is come to right below it. -/
theorem mem_sitesUnder_of_parent {parent child : Node} {steps : List Step}
    {before after : List Node} (hchildren : parent.children = before.reverse ++ child :: after)
    (above : List Step) : ∀ node : Node, ⟨parent, steps⟩ ∈ node.sitesUnder above →
      ⟨child, ⟨parent, before⟩ :: steps⟩ ∈ node.sitesUnder above
  | ⟨kind, isNamed, field?, start, stop, children⟩ => by
      intro h
      rw [sitesUnder, List.mem_cons] at h ⊢
      right
      rcases h with h | h
      · obtain ⟨rfl, rfl⟩ := Site.mk.inj h
        have hindex : children[before.length]? = some child := by
          rw [show children = before.reverse ++ child :: after from hchildren,
            List.getElem?_append_right (by simp)]
          simp
        have hbefore : (children.take before.length).reverse ++ [] = before := by
          rw [show children = before.reverse ++ child :: after from hchildren,
            List.take_left' (by simp), List.reverse_reverse, List.append_nil]
        have hsub := sitesUnder_subset_sitesAmong steps
          ⟨kind, isNamed, field?, start, stop, children⟩ hindex []
        rw [hbefore] at hsub
        apply hsub
        cases child
        rw [sitesUnder]
        exact List.mem_cons_self
      · exact mem_sitesAmong_of_parent hchildren above _ [] children h

theorem mem_sitesAmong_of_parent {parent child : Node} {steps : List Step}
    {before after : List Node} (hchildren : parent.children = before.reverse ++ child :: after)
    (above : List Step) (top : Node) (earlier : List Node) : ∀ nodes : List Node,
      ⟨parent, steps⟩ ∈ sitesAmong above top earlier nodes →
      ⟨child, ⟨parent, before⟩ :: steps⟩ ∈ sitesAmong above top earlier nodes
  | [] => by
      intro h
      simp [sitesAmong] at h
  | node :: rest => by
      intro h
      rw [sitesAmong, List.mem_append] at h ⊢
      rcases h with h | h
      · left
        exact mem_sitesUnder_of_parent hchildren _ node h
      · right
        exact mem_sitesAmong_of_parent hchildren above top (node :: earlier) rest h

end

namespace Site

/-- **The sites of a tree are those that lead down from its root.** -/
theorem mem_sites_iff_under {root : Node} {site : Site} : site ∈ root.sites ↔ site.Under root := by
  constructor
  · exact under_of_mem_sites
  · intro h
    induction h with
    | root => exact List.mem_of_head? (head?_sites root)
    | child _ hchildren ih => exact mem_sitesUnder_of_parent hchildren [] root ih

/-! ## Sites outside comments -/

/-- Whether a site is not inside a comment: none of its parents is one. -/
def isOutside (site : Site) : Bool := site.above.all fun step => !step.parent.isComment

variable {bound : Nat} {root node parent : Node} {before : List Node} {above : List Step}

theorem isOutside_cons_iff :
    isOutside ⟨node, ⟨parent, before⟩ :: above⟩ = true ↔
      parent.isComment = false ∧ isOutside ⟨parent, above⟩ = true := by
  unfold isOutside
  rw [List.all_cons, Bool.and_eq_true, Bool.not_eq_true']

/-- The leaves of a node that is no comment but has children are those of the children. -/
theorem mem_leaves_iff_of_child {leaf : Node} (hparent : parent.isComment = false)
    (hne : parent.children ≠ []) :
    leaf ∈ parent.leaves ↔ ∃ child ∈ parent.children, leaf ∈ child.leaves := by
  have hempty : parent.children.isEmpty = false := List.isEmpty_eq_false_iff.2 hne
  rw [leaves_eq, hparent, hempty, if_neg (by simp), List.mem_flatMap]

/-- The leaves of a node lie within its span. -/
theorem span_of_mem_leaves {leaf : Node} (hnode : WellNested bound node) (h : leaf ∈ node.leaves) :
    node.start ≤ leaf.start ∧ leaf.stop ≤ node.stop :=
  (part_of_mem_leaves h).inside hnode

/-- A child of the parent of a site is one of the siblings before it, or its node, or lies behind
it. -/
theorem child_cases {after : List Node} {child : Node} (hparent : Part root parent)
    (hroot : WellNested bound root) (hchildren : parent.children = before.reverse ++ node :: after)
    (hchild : child ∈ parent.children) :
    child ∈ before ∧ child.stop ≤ node.start ∨ child = node ∨ node.stop ≤ child.start := by
  have horder := (hroot.holds.part hparent).here.2
  rw [hchildren, List.pairwise_append, List.pairwise_cons] at horder
  obtain ⟨-, ⟨hlater, -⟩, hearlier⟩ := horder
  rw [hchildren, List.mem_append, List.mem_cons] at hchild
  rcases hchild with hchild | heq | hchild
  · exact .inl ⟨List.mem_reverse.1 hchild, hearlier child hchild node List.mem_cons_self⟩
  · exact .inr (.inl heq)
  · exact .inr (.inr (hlater child hchild))

/-- **A leaf and a node outside comments are never across each other.**  The leaf is one of the
node's, or lies before the node or behind it. -/
theorem Under.leaf_cases {site : Site} {leaf : Node} (h : site.Under root)
    (hroot : WellNested bound root) (hout : site.isOutside = true) (hleaf : leaf ∈ root.leaves) :
    leaf ∈ site.node.leaves ∨ leaf.stop ≤ site.node.start ∨ site.node.stop ≤ leaf.start := by
  induction h with
  | root => exact .inl hleaf
  | @child parent node above before after hparent hchildren ih =>
      obtain ⟨hcomment, hout⟩ := isOutside_cons_iff.1 hout
      have hnode : node ∈ parent.children := by
        rw [hchildren]
        simp
      have hspan : parent.start ≤ node.start ∧ node.stop ≤ parent.stop :=
        (hroot.holds.part hparent.part).here.1 node hnode
      show leaf ∈ node.leaves ∨ leaf.stop ≤ node.start ∨ node.stop ≤ leaf.start
      have habove : leaf ∈ parent.leaves ∨ leaf.stop ≤ parent.start ∨ parent.stop ≤ leaf.start :=
        ih hout
      rcases habove with hinside | hoff
      · obtain ⟨child, hchild, hin⟩ :=
          (mem_leaves_iff_of_child hcomment (List.ne_nil_of_mem hnode)).1 hinside
        have hbounds := span_of_mem_leaves (hroot.part (.child hparent.part hchild)) hin
        rcases child_cases hparent.part hroot hchildren hchild with ⟨-, hle⟩ | rfl | hle
        · right; left
          omega
        · left
          exact hin
        · right; right
          omega
      · right
        omega

/-! ## Siblings -/

/-- The siblings before a site stand in order, the nearest first. -/
theorem Under.pairwise_before {site : Site} (h : site.Under root) (hroot : WellNested bound root) :
    site.before.Pairwise fun a b => b.stop ≤ a.start := by
  cases h with
  | root => exact List.Pairwise.nil
  | @child parent node above before after hparent hchildren =>
      have horder := (hroot.holds.part hparent.part).here.2
      rw [hchildren, List.pairwise_append, List.pairwise_reverse] at horder
      exact horder.1

/-- A sibling before a site has a site of its own, inside the same nodes. -/
theorem Under.exists_site_of_before {site : Site} {sibling : Node} (h : site.Under root)
    (hsibling : sibling ∈ site.before) :
    ∃ other : Site, other.Under root ∧ other.node = sibling ∧ other.isOutside = site.isOutside := by
  cases h with
  | root => simp [Site.before] at hsibling
  | @child parent node above before after hparent hchildren =>
      obtain ⟨later, earlier, hbefore⟩ := List.append_of_mem hsibling
      have hsplit : parent.children =
          earlier.reverse ++ sibling :: (later.reverse ++ node :: after) := by
        rw [hchildren, show before = later ++ sibling :: earlier from hbefore]
        simp
      exact ⟨_, .child hparent hsplit, rfl, rfl⟩

/-- **Between a sibling and a site there are only leaves of siblings.** -/
theorem Under.exists_sibling_of_leaf {site : Site} {first leaf : Node} (h : site.Under root)
    (hroot : WellNested bound root) (hout : site.isOutside = true) (hfirst : first ∈ site.before)
    (hleaf : leaf ∈ root.leaves) (hstart : first.start ≤ leaf.start)
    (hstop : leaf.stop ≤ site.node.start) : ∃ sibling ∈ site.before, leaf ∈ sibling.leaves := by
  have hne := start_lt_stop_of_mem_leaves hleaf
  cases h with
  | root => simp [Site.before] at hfirst
  | @child parent node above before after hparent hchildren =>
      obtain ⟨hcomment, hout⟩ := isOutside_cons_iff.1 hout
      have hnode : node ∈ parent.children := by
        rw [hchildren]
        simp
      have hmem : first ∈ parent.children := by
        rw [hchildren]
        exact List.mem_append_left _ (List.mem_reverse.2 hfirst)
      have hspan : ∀ child ∈ parent.children,
          parent.start ≤ child.start ∧ child.stop ≤ parent.stop :=
        (hroot.holds.part hparent.part).here.1
      have hlow := (hspan first hmem).1
      have hhigh := (hspan node hnode).2
      have hforward := (hroot.part (.child hparent.part hnode)).start_le_stop
      have hstop : leaf.stop ≤ node.start := hstop
      have habove : leaf ∈ parent.leaves ∨ leaf.stop ≤ parent.start ∨ parent.stop ≤ leaf.start :=
        hparent.leaf_cases hroot hout hleaf
      rcases habove with hinside | hoff
      · obtain ⟨child, hchild, hin⟩ :=
          (mem_leaves_iff_of_child hcomment (List.ne_nil_of_mem hnode)).1 hinside
        have hbounds := span_of_mem_leaves (hroot.part (.child hparent.part hchild)) hin
        rcases child_cases hparent.part hroot hchildren hchild with ⟨hbefore, -⟩ | rfl | hle
        · exact ⟨child, hbefore, hin⟩
        · omega
        · omega
      · omega

end Site

end LiveExcerpts.Node
