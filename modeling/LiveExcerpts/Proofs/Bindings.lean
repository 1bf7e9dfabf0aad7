import Mathlib.Data.List.Lex
import LiveExcerpts.Proofs.Declarations
import LiveExcerpts.Proofs.Outcomes
/-!
# The walk over a tree's declarations

A node has an **address**: the way down to it from the root, given by the index of a child at each
step.  Pre-order is the lexicographic order of addresses, in which a node comes before all that is
inside it.  The names that a file declares are recorded in this order, and listing and locating
read the same record: what is located is what the list has first under the name.

Main definitions: `Node.at?`, `Node.Site.address`, `Binding.StandsAt`.  Main statements: sites are
walked in the order of their addresses (`Node.pairwise_address_sites`), every address has its site
(`Node.exists_site_of_at?`), the bindings of a file are those that stand somewhere, in order
(`SourceFile.exists_places`), and `SourceFile.locate_eq_first_listed`.
-/

namespace LiveExcerpts

/-! ## Addresses -/

/-- The node at an address: at each step down, the child with that index. -/
def Node.at? : Node → List Nat → Option Node
  | node, [] => some node
  | node, index :: address => node.children[index]?.bind fun child => child.at? address

/-- The address of a site: each step up leads past as many siblings as its index says. -/
def Node.Site.address (site : Node.Site) : List Nat :=
  (site.above.map fun step => step.before.length).reverse

namespace Node

theorem Site.address_cons (node : Node) (step : Step) (above : List Step) :
    Site.address ⟨node, step :: above⟩ =
      Site.address ⟨step.parent, above⟩ ++ [step.before.length] := by
  simp [Site.address]

theorem at?_append (root : Node) (upper lower : List Nat) :
    root.at? (upper ++ lower) = (root.at? upper).bind fun node => node.at? lower := by
  induction upper generalizing root with
  | nil => rfl
  | cons index upper ih =>
      rw [List.cons_append, at?, at?]
      cases root.children[index]? with
      | none => rfl
      | some child => exact ih child

/-- A site stands at its address. -/
theorem Site.Under.at?_address {root : Node} {site : Site} (h : site.Under root) :
    root.at? site.address = some site.node := by
  induction h with
  | root => rfl
  | @child parent node above before after _ hchildren ih =>
      have hchild : parent.children[before.length]? = some node := by
        rw [hchildren, List.getElem?_append_right (by simp)]
        simp
      rw [Site.address_cons, at?_append, ih]
      simp [at?, hchild]

mutual

/-- Below a node, addresses go on from that of the node. -/
theorem address_of_mem_sitesUnder (above : List Step) : ∀ node : Node,
    ∀ site ∈ node.sitesUnder above, ∃ tail, site.address = Site.address ⟨node, above⟩ ++ tail
  | ⟨kind, isNamed, field?, start, stop, children⟩ => by
      intro site hsite
      rw [sitesUnder, List.mem_cons] at hsite
      rcases hsite with rfl | hsite
      · exact ⟨[], by simp⟩
      · obtain ⟨index, tail, -, htail⟩ := address_of_mem_sitesAmong above _ [] children site hsite
        exact ⟨index :: tail, htail⟩

theorem address_of_mem_sitesAmong (above : List Step) (parent : Node) (before : List Node) :
    ∀ nodes : List Node, ∀ site ∈ sitesAmong above parent before nodes,
      ∃ index tail, before.length ≤ index ∧
        site.address = Site.address ⟨parent, above⟩ ++ index :: tail
  | [] => by
      intro site hsite
      simp [sitesAmong] at hsite
  | node :: rest => by
      intro site hsite
      rw [sitesAmong, List.mem_append] at hsite
      rcases hsite with hsite | hsite
      · obtain ⟨tail, htail⟩ := address_of_mem_sitesUnder _ node site hsite
        refine ⟨before.length, tail, Nat.le_refl _, ?_⟩
        rw [htail, Site.address_cons, List.append_assoc, List.singleton_append]
      · obtain ⟨index, tail, hindex, htail⟩ :=
          address_of_mem_sitesAmong above parent (node :: before) rest site hsite
        rw [List.length_cons] at hindex
        exact ⟨index, tail, by omega, htail⟩

end

mutual

theorem pairwise_address_sitesUnder (above : List Step) : ∀ node : Node,
    (node.sitesUnder above).Pairwise fun a b => List.Lex (· < ·) a.address b.address
  | ⟨kind, isNamed, field?, start, stop, children⟩ => by
      rw [sitesUnder, List.pairwise_cons]
      refine ⟨fun site hsite => ?_, pairwise_address_sitesAmong above _ [] children⟩
      -- The node itself has the shortest address of all.
      obtain ⟨index, tail, -, htail⟩ := address_of_mem_sitesAmong above _ [] children site hsite
      rw [htail]
      nth_rewrite 1 [← List.append_nil (Site.address _)]
      exact .append_left _ .nil _

theorem pairwise_address_sitesAmong (above : List Step) (parent : Node) (before : List Node) :
    ∀ nodes : List Node,
      (sitesAmong above parent before nodes).Pairwise fun a b =>
        List.Lex (· < ·) a.address b.address
  | [] => by
      rw [sitesAmong]
      exact List.Pairwise.nil
  | node :: rest => by
      rw [sitesAmong, List.pairwise_append]
      refine ⟨pairwise_address_sitesUnder _ node,
        pairwise_address_sitesAmong above parent (node :: before) rest, ?_⟩
      intro a ha b hb
      obtain ⟨tail, htail⟩ := address_of_mem_sitesUnder _ node a ha
      obtain ⟨index, tail', hindex, htail'⟩ :=
        address_of_mem_sitesAmong above parent (node :: before) rest b hb
      rw [htail, htail', Site.address_cons, List.append_assoc, List.singleton_append]
      rw [List.length_cons] at hindex
      exact .append_left _ (.rel (Nat.lt_of_succ_le hindex)) _

end

/-- **Sites are walked in the order of their addresses.** -/
theorem pairwise_address_sites (root : Node) :
    root.sites.Pairwise fun a b => List.Lex (· < ·) a.address b.address :=
  pairwise_address_sitesUnder [] root

/-- The sites of a child are among those of its parent. -/
theorem sitesUnder_subset_sitesAmong (above : List Step) (parent : Node) {nodes : List Node}
    {index : Nat} {child : Node} (h : nodes[index]? = some child) (before : List Node) :
    child.sitesUnder (⟨parent, (nodes.take index).reverse ++ before⟩ :: above) ⊆
      sitesAmong above parent before nodes := by
  induction nodes generalizing index before with
  | nil => simp at h
  | cons node rest ih =>
      rw [sitesAmong]
      cases index with
      | zero =>
          obtain rfl : node = child := by simpa using h
          exact List.subset_append_left _ _
      | succ index =>
          have hrest := ih (by simpa using h) (node :: before)
          simp only [List.take_succ_cons, List.reverse_cons, List.append_assoc,
            List.singleton_append]
          exact fun site hsite => List.mem_append_right _ (hrest hsite)

/-- **Every address has its site.** -/
theorem exists_site_of_at? {root node : Node} {address : List Nat}
    (h : root.at? address = some node) :
    ∃ site ∈ root.sites, site.node = node ∧ site.address = address := by
  suffices hall : ∀ (above : List Step) (top : Node), top.at? address = some node →
      ∃ site ∈ top.sitesUnder above, site.node = node ∧
        site.address = Site.address ⟨top, above⟩ ++ address by
    exact hall [] root h
  clear h
  induction address with
  | nil =>
      intro above top h
      obtain rfl : top = node := by simpa [at?] using h
      refine ⟨⟨top, above⟩, ?_, rfl, (List.append_nil _).symm⟩
      cases top
      rw [sitesUnder]
      exact List.mem_cons_self
  | cons index address ih =>
      intro above top h
      rw [at?] at h
      obtain ⟨child, hchild, hbelow⟩ := Option.bind_eq_some_iff.1 h
      obtain ⟨kind, isNamed, field?, start, stop, children⟩ := top
      obtain ⟨site, hsite, hnode, haddress⟩ := ih
        (⟨⟨kind, isNamed, field?, start, stop, children⟩, (children.take index).reverse⟩ :: above)
        child hbelow
      have hlength : (children.take index).reverse.length = index := by
        obtain ⟨hlt, -⟩ := List.getElem?_eq_some_iff.1 hchild
        rw [List.length_reverse, List.length_take]
        exact Nat.min_eq_left (Nat.le_of_lt hlt)
      refine ⟨site, ?_, hnode, ?_⟩
      · rw [sitesUnder]
        have hsub := sitesUnder_subset_sitesAmong above
          ⟨kind, isNamed, field?, start, stop, children⟩ hchild []
        rw [List.append_nil] at hsub
        exact List.mem_cons_of_mem _ (hsub hsite)
      · rw [haddress, Site.address_cons, hlength, List.append_assoc, List.singleton_append]

/-! ## The names of one node -/

/-- A node has a rule by which it binds a name, as which `kind` of declaration.  The name is in a
field of the node itself, which then carries it, or in one of the child at `index`. -/
inductive Binds (language : Language) (source : String) (node : Node) :
    (index : Nat) → (carrier : Node) → DeclarationKind → (name : String) → Prop
  | field {rule : DeclarationRule} {field name : String} :
      language.rule? node.kind = some rule → rule.name = .field field →
      node.nameIn? source field = some name → Binds language source node 0 node rule.kind name
  | nested {rule : DeclarationRule} {childKind field name : String} {index : Nat} {child : Node} :
      language.rule? node.kind = some rule → rule.name = .nested childKind field →
      node.children[index]? = some child → child.kind = childKind →
      child.nameIn? source field = some name → Binds language source node index child rule.kind name

end Node

/-- What a partial function keeps of a list stands at increasing indices, at all those where the
function has a value. -/
theorem exists_indices_filterMap {α β : Type} (f : α → Option β) (l : List α) :
    ∃ indices : List Nat, indices.Pairwise (· < ·) ∧
      List.Forall₂ (fun i b => ∃ a, l[i]? = some a ∧ f a = some b) indices (l.filterMap f) ∧
      ∀ i a, l[i]? = some a → (f a).isSome → i ∈ indices := by
  induction l with
  | nil => exact ⟨[], .nil, .nil, by simp⟩
  | cons first rest ih =>
      obtain ⟨indices, hsorted, haligned, hall⟩ := ih
      have hsorted' : (indices.map (· + 1)).Pairwise (· < ·) := by
        rw [List.pairwise_map]
        exact hsorted.imp fun h => Nat.succ_lt_succ h
      have haligned' : List.Forall₂ (fun i b => ∃ a, (first :: rest)[i]? = some a ∧ f a = some b)
          (indices.map (· + 1)) (rest.filterMap f) :=
        List.forall₂_map_left_iff.2 haligned
      cases hfirst : f first with
      | none =>
          rw [List.filterMap_cons_none hfirst]
          refine ⟨indices.map (· + 1), hsorted', haligned', fun i a hi ha => ?_⟩
          cases i with
          | zero =>
              obtain rfl : first = a := by simpa using hi
              simp [hfirst] at ha
          | succ i => exact List.mem_map_of_mem (hall i a (by simpa using hi) ha)
      | some b =>
          rw [List.filterMap_cons_some hfirst]
          refine ⟨0 :: indices.map (· + 1), ?_, .cons ⟨first, rfl, hfirst⟩ haligned', ?_⟩
          · exact List.pairwise_cons.2 ⟨by simp, hsorted'⟩
          · intro i a hi ha
            cases i with
            | zero => exact List.mem_cons_self
            | succ i =>
                exact List.mem_cons_of_mem _ (List.mem_map_of_mem (hall i a (by simpa using hi) ha))

/-- The bindings at a site are the names that its node binds, in the order of the children that
carry them. -/
theorem Node.Site.exists_indices_bindings (language : Language) (source : String)
    (site : Node.Site) :
    ∃ indices : List Nat, indices.Pairwise (· < ·) ∧
      List.Forall₂ (fun i (b : Binding) => b.site = site ∧
        site.node.Binds language source i b.carrier b.kind b.name) indices
        (site.bindings language source) ∧
      ∀ i carrier kind name, site.node.Binds language source i carrier kind name → i ∈ indices := by
  unfold bindings
  cases hrule : language.rule? site.node.kind with
  | none =>
      refine ⟨[], .nil, .nil, fun i carrier kind name hbinds => ?_⟩
      cases hbinds <;> simp_all
  | some rule =>
      simp only [DeclarationRule.names]
      cases hname : rule.name with
      | field field =>
          dsimp only
          cases hfound : site.node.nameIn? source field with
          | none =>
              refine ⟨[], .nil, .nil, fun i carrier kind name hbinds => ?_⟩
              cases hbinds <;> simp_all
          | some found =>
              refine ⟨[0], List.pairwise_singleton _ _, ?_, fun i carrier kind name hbinds => ?_⟩
              · exact .cons ⟨rfl, .field hrule hname hfound⟩ .nil
              · cases hbinds <;> simp_all
      | nested childKind field =>
          obtain ⟨indices, hsorted, haligned, hall⟩ := exists_indices_filterMap
            (fun child => if child.kind = childKind then
              (child.nameIn? source field).map (·, child) else none) site.node.children
          refine ⟨indices, hsorted, ?_, fun i carrier kind name hbinds => ?_⟩
          · refine List.forall₂_map_right_iff.2 (haligned.imp fun i found h => ?_)
            obtain ⟨child, hchild, hfound⟩ := h
            split at hfound
            · next hkind =>
                obtain ⟨name, hnamed, rfl⟩ := Option.map_eq_some_iff.1 hfound
                exact ⟨rfl, .nested hrule hname hchild hkind hnamed⟩
            · simp at hfound
          · cases hbinds with
            | field hrule' hname' _ => simp_all
            | nested hrule' hname' hchild hkind hnamed =>
                refine hall i carrier hchild ?_
                simp_all

/-! ## The names of a file -/

/-- A binding stands at a place, an address in the tree and the index of a child: its declaring node
has that address, and that child of it, or the node itself, carries the name. -/
structure Binding.StandsAt (file : SourceFile) (place : List Nat × Nat) (binding : Binding) :
    Prop where
  /-- The site of the binding has this address. -/
  address : binding.site.address = place.1
  /-- The declaring node has this address. -/
  node : file.root.at? place.1 = some binding.site.node
  /-- The node binds the name. -/
  binds : binding.site.node.Binds file.language file.source place.2 binding.carrier binding.kind
    binding.name

/-- Places in the order of their addresses, and at one address in that of the children. -/
def PlaceBefore : List Nat × Nat → List Nat × Nat → Prop :=
  Prod.Lex (List.Lex (· < ·)) (· < ·)

namespace SourceFile

/-- The bindings at some sites of a file, which are in order, stand in order themselves. -/
theorem exists_places_of_sites (file : SourceFile) {sites : List Node.Site}
    (hunder : ∀ site ∈ sites, site.Under file.root)
    (hsorted : sites.Pairwise fun a b => List.Lex (· < ·) a.address b.address) :
    ∃ places : List (List Nat × Nat), places.Pairwise PlaceBefore ∧
      List.Forall₂ (Binding.StandsAt file) places
        (sites.flatMap (Node.Site.bindings file.language file.source)) ∧
      (∀ place ∈ places, ∃ site ∈ sites, place.1 = site.address) ∧
      ∀ site ∈ sites, ∀ index carrier kind name,
        site.node.Binds file.language file.source index carrier kind name →
          (site.address, index) ∈ places := by
  induction sites with
  | nil => exact ⟨[], .nil, .nil, by simp, by simp⟩
  | cons site rest ih =>
      obtain ⟨hfirst, hrest⟩ := List.pairwise_cons.1 hsorted
      obtain ⟨hsite, hunderRest⟩ := List.forall_mem_cons.1 hunder
      obtain ⟨places, hplaces, haligned, hfrom, hall⟩ := ih hunderRest hrest
      obtain ⟨indices, hindices, hbindings, hcomplete⟩ :=
        site.exists_indices_bindings file.language file.source
      refine ⟨indices.map (site.address, ·) ++ places, ?_, ?_, ?_, ?_⟩
      · rw [List.pairwise_append, List.pairwise_map]
        refine ⟨hindices.imp fun h => .right _ h, hplaces, fun a ha b hb => ?_⟩
        obtain ⟨index, -, rfl⟩ := List.mem_map.1 ha
        obtain ⟨other, hother, hb⟩ := hfrom b hb
        obtain ⟨address, index'⟩ := b
        obtain rfl : address = other.address := hb
        exact .left _ _ (hfirst other hother)
      · rw [List.flatMap_cons]
        refine List.rel_append ?_ haligned
        refine List.forall₂_map_left_iff.2 (hbindings.imp fun index binding h => ?_)
        obtain ⟨rfl, hbinds⟩ := h
        exact ⟨rfl, hsite.at?_address, hbinds⟩
      · intro place hplace
        rcases List.mem_append.1 hplace with h | h
        · obtain ⟨index, -, rfl⟩ := List.mem_map.1 h
          exact ⟨site, List.mem_cons_self, rfl⟩
        · obtain ⟨other, hother, heq⟩ := hfrom place h
          exact ⟨other, List.mem_cons_of_mem _ hother, heq⟩
      · intro other hother index carrier kind name hbinds
        rcases List.mem_cons.1 hother with rfl | hother
        · exact List.mem_append_left _
            (List.mem_map_of_mem (hcomplete index carrier kind name hbinds))
        · exact List.mem_append_right _ (hall other hother index carrier kind name hbinds)

/-- **The walk records exactly the names that are bound, in pre-order.**  Each binding stands at a
place, the places come in order, and there is no other place where a node binds a name. -/
theorem exists_places (file : SourceFile) :
    ∃ places : List (List Nat × Nat), places.Pairwise PlaceBefore ∧
      List.Forall₂ (Binding.StandsAt file) places file.bindings ∧
      ∀ address node, file.root.at? address = some node → ∀ index carrier kind name,
        node.Binds file.language file.source index carrier kind name →
          (address, index) ∈ places := by
  obtain ⟨places, hsorted, haligned, -, hall⟩ := file.exists_places_of_sites
    (fun site => Node.Site.under_of_mem_sites) (Node.pairwise_address_sites file.root)
  refine ⟨places, hsorted, haligned, fun address node hnode index carrier kind name hbinds => ?_⟩
  obtain ⟨site, hsite, rfl, rfl⟩ := Node.exists_site_of_at? hnode
  exact hall site hsite index carrier kind name hbinds

/-- What a file binds, the node at its site binds. -/
theorem exists_binds {file : SourceFile} {binding : Binding} (h : binding ∈ file.bindings) :
    ∃ index, binding.site.node.Binds file.language file.source index binding.carrier binding.kind
      binding.name := by
  obtain ⟨site, -, hbinding⟩ := List.mem_flatMap.1 h
  obtain ⟨indices, -, haligned, -⟩ := site.exists_indices_bindings file.language file.source
  obtain ⟨index, -, hsite, hbinds⟩ := exists_mem_of_forall₂ haligned.flip hbinding
  rw [hsite]
  exact ⟨index, hbinds⟩

end SourceFile

/-! ## Listing and locating -/

/-- Leaving out what follows itself loses no member. -/
theorem mem_eraseReps {α : Type} [BEq α] [LawfulBEq α] {x : α} {l : List α} :
    x ∈ l.eraseReps ↔ x ∈ l := by
  suffices hloop : ∀ (l : List α) (a : α) (kept : List α),
      x ∈ List.eraseRepsBy.loop (· == ·) a l kept ↔ x = a ∨ x ∈ l ∨ x ∈ kept by
    cases l with
    | nil => simp [List.eraseReps, List.eraseRepsBy]
    | cons a l =>
        unfold List.eraseReps List.eraseRepsBy
        rw [hloop l a []]
        simp
  intro l
  induction l with
  | nil =>
      intro a kept
      simp [List.eraseRepsBy.loop, or_comm]
  | cons b l ih =>
      intro a kept
      unfold List.eraseRepsBy.loop
      cases hab : a == b with
      | true =>
          obtain rfl := eq_of_beq hab
          simp only [ih, List.mem_cons]
          tauto
      | false =>
          simp only [ih, List.mem_cons]
          tauto

namespace SourceFile

/-- A file offers the names that it declares. -/
theorem mem_availableNames {file : SourceFile} {name : String} :
    name ∈ file.availableNames ↔ name ∈ file.bindings.map Binding.name := mem_eraseReps

/-- A file's declarations, if there are all, are those of its bindings, one by one. -/
theorem declarations_eq_ok_iff {file : SourceFile} {listed : List Declaration} :
    file.declarations = .ok listed ↔
      List.Forall₂ (fun binding d => file.declare binding = .ok d) file.bindings listed :=
  mapM_eq_ok_iff

/-- Declarations have the names of their bindings. -/
theorem map_name_of_declare {file : SourceFile} {bindings : List Binding}
    {listed : List Declaration}
    (h : List.Forall₂ (fun binding d => file.declare binding = .ok d) bindings listed) :
    listed.map Declaration.name = bindings.map Binding.name := by
  induction h with
  | nil => rfl
  | cons hd _ ih => rw [List.map_cons, List.map_cons, ih, name_of_declare hd]

/-- The first binding of a name becomes the first declaration of that name. -/
theorem find?_of_declare {file : SourceFile} {bindings : List Binding}
    {listed : List Declaration} (identifier : String)
    (h : List.Forall₂ (fun binding d => file.declare binding = .ok d) bindings listed) :
    Option.Rel (fun binding d => file.declare binding = .ok d)
      (bindings.find? fun binding => binding.name == identifier)
      (listed.find? fun d => d.name == identifier) := by
  induction h with
  | nil => exact .none
  | @cons binding d bindings listed hd _ ih =>
      rw [List.find?_cons, List.find?_cons, name_of_declare hd]
      cases binding.name == identifier with
      | true => exact .some hd
      | false => exact ih

/-- **Listing and locating agree.**  The walk records the names that nodes bind, all of them and in
pre-order, the names of one node in the order of its children.  If all of a file's declarations can
be listed, the list has exactly these names in this order; a name is located if it is on the list,
as the first declaration that the list has under it; and for any other name the failure offers the
names on the list, each of which is located. -/
theorem locate_eq_first_listed (file : SourceFile) (identifier : String) :
    (∃ places : List (List Nat × Nat), places.Pairwise PlaceBefore ∧
      List.Forall₂ (Binding.StandsAt file) places file.bindings ∧
      ∀ address node, file.root.at? address = some node → ∀ index carrier kind name,
        node.Binds file.language file.source index carrier kind name →
          (address, index) ∈ places) ∧
    ∀ listed, file.declarations = .ok listed →
      listed.map Declaration.name = file.bindings.map Binding.name ∧
      (∀ d, file.locate identifier = .ok d ↔
        listed.find? (fun entry => entry.name == identifier) = some d) ∧
      ((∃ d, file.locate identifier = .ok d) ↔ ∃ entry ∈ listed, entry.name = identifier) ∧
      ((∀ entry ∈ listed, entry.name ≠ identifier) →
        ∃ available,
          file.locate identifier = .error (.declarationNotFound available file.path identifier) ∧
          (∀ name, name ∈ available ↔ ∃ entry ∈ listed, entry.name = name) ∧
          ∀ name ∈ available, ∃ d, file.locate name = .ok d) := by
  refine ⟨file.exists_places, fun listed hlisted => ?_⟩
  have hdeclare := declarations_eq_ok_iff.1 hlisted
  have hnames := map_name_of_declare hdeclare
  have hlocate : ∀ (name : String) (d : Declaration), file.locate name = .ok d ↔
      listed.find? (fun entry => entry.name == name) = some d := by
    intro name d
    have hrel := find?_of_declare name hdeclare
    unfold locate
    cases hfound : file.bindings.find? fun binding => binding.name == name with
    | none =>
        rw [hfound] at hrel
        cases hentry : listed.find? fun entry => entry.name == name with
        | none => simp
        | some entry => rw [hentry] at hrel; cases hrel
    | some binding =>
        rw [hfound] at hrel
        cases hentry : listed.find? fun entry => entry.name == name with
        | none => rw [hentry] at hrel; cases hrel
        | some entry =>
            rw [hentry] at hrel
            cases hrel with
            | some hd => simp [hd]
  have hlocated : ∀ name : String,
      (∃ d, file.locate name = .ok d) ↔ ∃ entry ∈ listed, entry.name = name := by
    intro name
    simp only [hlocate, ← Option.isSome_iff_exists, List.find?_isSome, beq_iff_eq]
  refine ⟨hnames, hlocate identifier, hlocated identifier, fun habsent => ?_⟩
  have havailable : ∀ name, name ∈ file.availableNames ↔ ∃ entry ∈ listed, entry.name = name := by
    intro name
    rw [mem_availableNames, ← hnames, List.mem_map]
  refine ⟨file.availableNames, ?_, havailable, fun name hname => ?_⟩
  · have hnone := find?_bindings_eq_none_iff.2 (by
      rw [← mem_availableNames, havailable]
      rintro ⟨entry, hentry, hname⟩
      exact habsent entry hentry hname)
    unfold locate
    rw [hnone]
  · exact (hlocated name).2 ((havailable name).1 hname)

end SourceFile

/-- A file in which one node binds two names, and another one of them again. -/
def groupedText : String := "type (A int\nB int)\nfunc A() \x7b\x7d"

/-- The tree of `groupedText`. -/
def grouped : Node :=
  ⟨"source_file", true, none, 0, 30, [
    ⟨"type_declaration", true, none, 0, 18, [
      ⟨"type", false, none, 0, 4, []⟩,
      ⟨"(", false, none, 5, 6, []⟩,
      ⟨"type_spec", true, none, 6, 11, [
        ⟨"type_identifier", true, some "name", 6, 7, []⟩,
        ⟨"type_identifier", true, some "type", 8, 11, []⟩]⟩,
      ⟨"type_spec", true, none, 12, 17, [
        ⟨"type_identifier", true, some "name", 12, 13, []⟩,
        ⟨"type_identifier", true, some "type", 14, 17, []⟩]⟩,
      ⟨")", false, none, 17, 18, []⟩]⟩,
    ⟨"function_declaration", true, none, 19, 30, [
      ⟨"func", false, none, 19, 23, []⟩,
      ⟨"identifier", true, some "name", 24, 25, []⟩,
      ⟨"parameter_list", true, some "parameters", 25, 27, [
        ⟨"(", false, none, 25, 26, []⟩,
        ⟨")", false, none, 26, 27, []⟩]⟩,
      ⟨"block", true, some "body", 28, 30, [
        ⟨Node.openBrace, false, none, 28, 29, []⟩,
        ⟨"\x7d", false, none, 29, 30, []⟩]⟩]⟩]⟩

/-- The file of `groupedText`. -/
def groupedFile : SourceFile := .ofTree ⟨"a.go"⟩ .go groupedText grouped

/-- The declarations of `groupedText`. -/
def groupedDeclarations : List Declaration :=
  [⟨.type, "A", 1, 0, 10, none, none⟩, ⟨.type, "B", 1, 0, 10, none, none⟩,
   ⟨.function, "A", 3, 12, 19, some 18, none⟩]

theorem declarations_grouped : groupedFile.declarations = .ok groupedDeclarations := by
  have hlisted : groupedFile.declarations.toOption = some groupedDeclarations := by decide +kernel
  cases h : groupedFile.declarations with
  | error e => rw [h] at hlisted; simp [Except.toOption] at hlisted
  | ok listed => rw [h] at hlisted; exact congrArg Except.ok (Option.some.inj hlisted)

theorem locate_eq_first_listed_grouped :
    groupedFile.declarations = .ok groupedDeclarations ∧
    groupedFile.locate "A" = .ok ⟨.type, "A", 1, 0, 10, none, none⟩ ∧
    ∃ available,
      groupedFile.locate "C" = .error (.declarationNotFound available ⟨"a.go"⟩ "C") ∧
      ∀ name, name ∈ available ↔ name = "A" ∨ name = "B" := by
  obtain ⟨-, hA⟩ := SourceFile.locate_eq_first_listed groupedFile "A"
  obtain ⟨-, hC⟩ := SourceFile.locate_eq_first_listed groupedFile "C"
  obtain ⟨-, hfirst, -, -⟩ := hA _ declarations_grouped
  obtain ⟨-, -, -, habsent⟩ := hC _ declarations_grouped
  obtain ⟨available, hlocate, hnames, -⟩ := habsent (by decide)
  refine ⟨declarations_grouped, (hfirst _).2 (by decide), available, hlocate, fun name => ?_⟩
  simp only [hnames, groupedDeclarations, List.mem_cons, List.not_mem_nil, or_false,
    exists_eq_or_imp, exists_eq_left, eq_comm]
  tauto

end LiveExcerpts
