import Mathlib.Data.List.Chain
import LiveExcerpts.Proofs.Files.Walk
/-!
# How paths are spelled

What becomes of the parts of a path when slashes at its end are dropped, when a name is written
after it, and when it is cut down to a path above it.

Main statements: components can be read back from how they are written
(`Path.components_ofComponents`), a path above another is written with some of its characters
(`Path.ofComponents_sublist`), and the ancestors of a path lie above one another
(`Path.isChain_ancestors`).
-/

namespace LiveExcerpts

/-! ## Characters of a text -/

theorem utf8ByteSize_le_of_sublist {cs ds : List Char} (h : cs.Sublist ds) :
    (String.ofList cs).utf8ByteSize ≤ (String.ofList ds).utf8ByteSize := by
  have hcons : ∀ (c : Char) (cs : List Char), (String.ofList (c :: cs)).utf8ByteSize =
      c.utf8Size + (String.ofList cs).utf8ByteSize := by
    intro c cs
    rw [String.ofList_cons, String.utf8ByteSize_append, String.utf8ByteSize_singleton]
  induction h with
  | slnil => exact Nat.le_refl _
  | cons c _ ih =>
      rw [hcons]
      omega
  | cons_cons c _ ih =>
      rw [hcons, hcons]
      omega

/-- A path that is written with some of the characters of a good path is good itself. -/
theorem FileSystem.fault?_eq_none_of_sublist {p q : Path}
    (hsub : q.text.toList.Sublist p.text.toList) (hne : q.text ≠ "") (hp : fault? p = none) :
    fault? q = none := by
  unfold fault? at hp ⊢
  split at hp
  · cases hp
  next hnul =>
  split at hp
  · cases hp
  split at hp
  · cases hp
  next hsize =>
  have hle := utf8ByteSize_le_of_sublist hsub
  rw [String.ofList_toList, String.ofList_toList] at hle
  rw [if_neg, if_neg hne, if_neg (by omega)]
  intro hq
  simp only [List.contains_iff_mem] at hq hnul
  exact hnul (hsub.subset hq)

theorem intercalate_cons_of_ne_nil {α : Type} (sep text : List α) {rest : List (List α)}
    (h : rest ≠ []) : sep.intercalate (text :: rest) = text ++ sep ++ sep.intercalate rest := by
  cases rest with
  | nil => exact absurd rfl h
  | cons next more => simp [List.intercalate, List.intersperse]

/-- Joining some of the texts takes some of the characters. -/
theorem intercalate_sublist {α : Type} (sep : List α) {texts more : List (List α)}
    (h : texts.Sublist more) : (sep.intercalate texts).Sublist (sep.intercalate more) := by
  induction h with
  | slnil => exact List.Sublist.refl _
  | @cons texts more text _ ih =>
      refine ih.trans ?_
      by_cases hmore : more = []
      · subst hmore
        exact List.nil_sublist _
      · rw [intercalate_cons_of_ne_nil sep text hmore]
        exact List.sublist_append_right _ _
  | @cons_cons texts more text hsub ih =>
      by_cases htexts : texts = []
      · subst htexts
        have hhead : sep.intercalate [text] = text := by simp [List.intercalate]
        rw [hhead]
        by_cases hmore : more = []
        · subst hmore
          rw [hhead]
        · rw [intercalate_cons_of_ne_nil sep text hmore, List.append_assoc]
          exact List.sublist_append_left _ _
      · have hmore : more ≠ [] := by
          rintro rfl
          exact htexts (List.sublist_nil.1 hsub)
        rw [intercalate_cons_of_ne_nil sep text htexts, intercalate_cons_of_ne_nil sep text hmore]
        exact ih.append_left _

namespace Path

/-! ## Slashes at the end -/

theorem pieces_append_slashes (cs : List Char) (k : Nat) :
    Text.pieces (· == '/') (cs ++ List.replicate k '/') =
      Text.pieces (· == '/') cs ++ List.replicate k [] := by
  induction k with
  | zero => simp
  | succ k ih =>
      rw [List.replicate_succ', ← List.append_assoc, Text.pieces_append_of_sep (by simp), ih,
        List.append_assoc, List.replicate_succ']
      rfl

/-- Dropping the slashes at the end of a path leaves a beginning of its text. -/
theorem exists_toList_eq_dropSlashes (p : Path) :
    ∃ k, p.text.toList = (FileSystem.dropSlashes p).text.toList ++ List.replicate k '/' ∧
      (k ≠ 0 → (FileSystem.dropSlashes p).text.toList ≠ []) := by
  unfold FileSystem.dropSlashes
  have hsplit : p.text.toList = (p.text.toList.reverse.dropWhile (· == '/')).reverse ++
      (p.text.toList.reverse.takeWhile (· == '/')).reverse := by
    rw [← List.reverse_append, List.takeWhile_append_dropWhile, List.reverse_reverse]
  have hslashes : (p.text.toList.reverse.takeWhile (· == '/')).reverse =
      List.replicate (p.text.toList.reverse.takeWhile (· == '/')).length '/' := by
    rw [List.eq_replicate_iff, List.length_reverse]
    refine ⟨rfl, fun c hc => ?_⟩
    simpa using List.all_eq_true.1 List.all_takeWhile c (List.mem_reverse.1 hc)
  rw [hslashes] at hsplit
  generalize (p.text.toList.reverse.dropWhile (· == '/')).reverse = kept at hsplit
  cases kept with
  | nil => exact ⟨0, by simp, fun h => absurd rfl h⟩
  | cons c kept => exact ⟨_, by simpa using hsplit, fun _ => by simp⟩

theorem exists_parts_eq_dropSlashes (p : Path) :
    ∃ k, p.parts = (FileSystem.dropSlashes p).parts ++ List.replicate k "" := by
  obtain ⟨k, htext, -⟩ := p.exists_toList_eq_dropSlashes
  refine ⟨k, ?_⟩
  unfold parts
  rw [htext, pieces_append_slashes, List.map_append, List.map_replicate]

theorem isAbsolute_dropSlashes (p : Path) :
    (FileSystem.dropSlashes p).isAbsolute = p.isAbsolute := by
  obtain ⟨k, htext, hne⟩ := p.exists_toList_eq_dropSlashes
  unfold isAbsolute
  rw [htext]
  by_cases hk : k = 0
  · rw [hk, List.replicate_zero, List.append_nil]
  · obtain ⟨c, cs, hcs⟩ := List.exists_cons_of_ne_nil (hne hk)
    rw [hcs, List.cons_append, List.head?_cons, List.head?_cons]

theorem fault?_dropSlashes {p : Path} (h : FileSystem.fault? p = none) :
    FileSystem.fault? (FileSystem.dropSlashes p) = none := by
  obtain ⟨k, htext, hne⟩ := p.exists_toList_eq_dropSlashes
  apply FileSystem.fault?_eq_none_of_sublist _ _ h
  · rw [htext]
    exact List.sublist_append_left _ _
  · intro hempty
    by_cases hk : k = 0
    · rw [hempty, hk] at htext
      have hp : p.text = "" := String.toList_inj.1 (by simpa using htext)
      unfold FileSystem.fault? at h
      simp [hp] at h
    · exact hne hk (by rw [hempty]; rfl)

/-! ## A name after a path -/

/-- A name that is written after a path is its last part. -/
theorem exists_parts_join (p : Path) {name : String} (h : '/' ∉ name.toList) :
    ∃ front, (p.join ⟨name⟩).parts = front ++ [name] := by
  have hname : Text.pieces (· == '/') name.toList = [name.toList] := by
    apply Text.pieces_of_not_sep
    intro c hc
    rw [beq_eq_false_iff_ne]
    rintro rfl
    exact h hc
  have hslash : ∀ front, (Text.pieces (· == '/') (front ++ '/' :: name.toList)).map String.ofList =
      (Text.pieces (· == '/') front).map String.ofList ++ [name] := by
    intro front
    rw [Text.pieces_append_of_sep (by simp), hname]
    simp
  have habsolute : (Path.mk name).isAbsolute = false := by
    unfold isAbsolute
    rw [beq_eq_false_iff_ne]
    intro hhead
    exact h (List.mem_of_mem_head? hhead)
  unfold join parts
  rw [habsolute, Bool.false_or]
  split
  · exact ⟨[], by simp [hname]⟩
  · split
    · next hlast =>
        obtain ⟨front, hfront⟩ := List.getLast?_eq_some_iff.1 hlast
        refine ⟨_, Eq.trans ?_ (hslash front)⟩
        simp [hfront]
    · refine ⟨_, Eq.trans ?_ (hslash p.text.toList)⟩
      simp

/-! ## Components and their spelling -/

/-- The component stands for one part, which can be read back. -/
def Component.IsPart (c : Component) : Prop :=
  component? (ofComponents.spell c) = some c ∧ '/' ∉ (ofComponents.spell c).toList

theorem spell_of_component? {part : String} {c : Component} (h : component? part = some c) :
    ofComponents.spell c = part := by
  unfold component? at h
  split at h
  · cases h
  · split at h
    · next hup =>
        obtain rfl := Option.some.inj h
        exact hup.symm
    · obtain rfl := Option.some.inj h
      rfl

theorem slash_not_mem_of_mem_parts {p : Path} {part : String} (h : part ∈ p.parts) :
    '/' ∉ part.toList := by
  obtain ⟨piece, hpiece, rfl⟩ := List.mem_map.1 h
  intro hmem
  rw [String.toList_ofList] at hmem
  simpa using (Text.mem_of_mem_pieces hpiece hmem).2

theorem isPart_of_mem {p : Path} {c : Component} (h : c ∈ p.parts.filterMap component?) :
    c.IsPart := by
  obtain ⟨part, hpart, hc⟩ := List.mem_filterMap.1 h
  unfold Component.IsPart
  rw [spell_of_component? hc]
  exact ⟨hc, slash_not_mem_of_mem_parts hpart⟩

theorem Component.IsPart.spell_ne_empty {c : Component} (h : c.IsPart) :
    ofComponents.spell c ≠ "" := by
  intro hempty
  have hc := h.1
  rw [hempty] at hc
  cases hc

/-- What the components of a path begin with, before those that stand for parts. -/
theorem components_eq (p : Path) : ∃ first, p.components = first ++ p.parts.filterMap component? ∧
    (first = [] ∨ first = [.root] ∧ p.isAbsolute = true ∨
      first = [.here] ∧ p.parts.head? = some ".") := by
  unfold components
  cases p.isAbsolute with
  | true => exact ⟨_, rfl, .inr (.inl ⟨rfl, rfl⟩)⟩
  | false =>
      by_cases hhere : p.parts.head? = some "."
      · exact ⟨_, rfl, .inr (.inr ⟨by simp [hhere], hhere⟩)⟩
      · exact ⟨_, rfl, .inl (by simp [hhere])⟩

theorem filterMap_map_spell {names : List Component} (h : ∀ c ∈ names, c.IsPart) :
    (names.map ofComponents.spell).filterMap component? = names := by
  induction names with
  | nil => rfl
  | cons c rest ih =>
      obtain ⟨hc, hrest⟩ := List.forall_mem_cons.1 h
      rw [List.map_cons, List.filterMap_cons_some hc.1, ih hrest]

theorem head?_parts_of_isAbsolute {p : Path} (h : p.isAbsolute = true) :
    ∃ cs, p.text.toList = '/' :: cs ∧
      p.parts = "" :: (Text.pieces (· == '/') cs).map String.ofList := by
  unfold isAbsolute at h
  obtain ⟨cs, hcs⟩ := List.head?_eq_some_iff.1 (beq_iff_eq.1 h)
  refine ⟨cs, hcs, ?_⟩
  unfold parts
  rw [hcs, Text.pieces_cons_of_sep (by simp)]
  rfl

theorem toList_ofComponents {c : Component} (hroot : c ≠ .root) (rest : List Component) :
    (ofComponents (c :: rest)).text.toList =
      ['/'].intercalate (((c :: rest).map ofComponents.spell).map String.toList) := by
  have htext : ofComponents (c :: rest) =
      ⟨"/".intercalate ((c :: rest).map ofComponents.spell)⟩ := by
    cases c with
    | root => exact absurd rfl hroot
    | here => rfl
    | up => rfl
    | name text => rfl
  have hslash : "/".toList = ['/'] := rfl
  rw [htext, String.toList_intercalate, hslash]

theorem toList_ofComponents_root (names : List Component) :
    (ofComponents (.root :: names)).text.toList =
      '/' :: ['/'].intercalate ((names.map ofComponents.spell).map String.toList) := by
  have hslash : "/".toList = ['/'] := rfl
  unfold ofComponents
  rw [String.toList_append, String.toList_intercalate, hslash]
  rfl

/-- What relative components are written as, a leading `.` included. -/
theorem parts_ofComponents {c : Component} {rest : List Component} (hroot : c ≠ .root)
    (h : ∀ d ∈ c :: rest, '/' ∉ (ofComponents.spell d).toList) :
    (ofComponents (c :: rest)).parts = (c :: rest).map ofComponents.spell := by
  unfold parts
  rw [toList_ofComponents hroot, Text.pieces_intercalate (by simp)]
  · simp [Function.comp_def]
  · simpa using h

theorem components_ofComponents_of_relative {c : Component} {rest : List Component}
    (hc : c.IsPart ∨ c = .here) (hrest : ∀ d ∈ rest, d.IsPart) :
    (ofComponents (c :: rest)).components = c :: rest := by
  have hroot : c ≠ .root := by
    rintro rfl
    rcases hc with hc | hc
    · exact hc.spell_ne_empty rfl
    · cases hc
  have hempty : ofComponents.spell c ≠ "" := by
    rcases hc with hc | rfl
    · exact hc.spell_ne_empty
    · decide
  have hparts : (ofComponents (c :: rest)).parts = (c :: rest).map ofComponents.spell := by
    apply parts_ofComponents hroot
    rw [List.forall_mem_cons]
    refine ⟨?_, fun d hd => (hrest d hd).2⟩
    rcases hc with hc | rfl
    · exact hc.2
    · decide
  have habsolute : (ofComponents (c :: rest)).isAbsolute = false := by
    rw [← Bool.not_eq_true]
    intro h
    obtain ⟨cs, -, hcs⟩ := head?_parts_of_isAbsolute h
    rw [hparts, List.map_cons, List.cons.injEq] at hcs
    exact hempty hcs.1
  unfold components
  rw [habsolute, hparts, List.map_cons]
  rcases hc with hc | rfl
  · have hdot : ofComponents.spell c ≠ "." := by
      intro h
      have hspell := hc.1
      rw [h] at hspell
      cases hspell
    rw [List.filterMap_cons_some hc.1, filterMap_map_spell hrest]
    simp [hdot]
  · have hspell : component? (ofComponents.spell .here) = none := rfl
    rw [List.filterMap_cons_none hspell, filterMap_map_spell hrest]
    rfl

theorem components_ofComponents_root {names : List Component} (h : ∀ c ∈ names, c.IsPart) :
    (ofComponents (.root :: names)).components = .root :: names := by
  have htext := toList_ofComponents_root names
  have habsolute : (ofComponents (.root :: names)).isAbsolute = true := by
    unfold isAbsolute
    rw [htext]
    rfl
  obtain ⟨cs, hcs, hparts⟩ := head?_parts_of_isAbsolute habsolute
  rw [htext, List.cons.injEq] at hcs
  obtain ⟨-, rfl⟩ := hcs
  unfold components
  rw [habsolute, hparts]
  have hnames : ((Text.pieces (· == '/') (['/'].intercalate
      ((names.map ofComponents.spell).map String.toList))).map String.ofList).filterMap component? =
        names := by
    by_cases hempty : names = []
    · subst hempty
      rfl
    · rw [Text.pieces_intercalate (by simpa using hempty)]
      · rw [List.map_map]
        simp only [Function.comp_def, String.ofList_toList, List.map_id']
        exact filterMap_map_spell h
      · simp only [List.mem_map, forall_exists_index, and_imp, forall_apply_eq_imp_iff₂]
        exact fun c hc => (h c hc).2
  have hempty : component? "" = none := rfl
  rw [if_pos rfl, List.filterMap_cons_none hempty, hnames]
  rfl

/-- **Components can be read back** from how they are written. -/
theorem components_ofComponents {p : Path} {steps : List Component} (h : steps <+: p.components)
    (hne : steps ≠ []) : (ofComponents steps).components = steps := by
  obtain ⟨c, rest, rfl⟩ := List.exists_cons_of_ne_nil hne
  obtain ⟨first, hcomponents, hfirst⟩ := p.components_eq
  rw [hcomponents] at h
  rcases hfirst with rfl | ⟨rfl, -⟩ | ⟨rfl, -⟩
  · have hpart : ∀ d ∈ c :: rest, d.IsPart := fun d hd => isPart_of_mem (h.subset hd)
    obtain ⟨hc, hrest⟩ := List.forall_mem_cons.1 hpart
    exact components_ofComponents_of_relative (.inl hc) hrest
  · obtain ⟨rfl, hrest⟩ := List.cons_prefix_cons.1 h
    exact components_ofComponents_root fun d hd => isPart_of_mem (hrest.subset hd)
  · obtain ⟨rfl, hrest⟩ := List.cons_prefix_cons.1 h
    exact components_ofComponents_of_relative (.inr rfl)
      fun d hd => isPart_of_mem (hrest.subset hd)

/-! ## Paths above a path -/

theorem map_spell_filterMap_sublist (parts : List String) :
    ((parts.filterMap component?).map ofComponents.spell).Sublist parts := by
  induction parts with
  | nil => exact .slnil
  | cons part rest ih =>
      cases hpart : component? part with
      | none =>
          rw [List.filterMap_cons_none hpart]
          exact ih.cons part
      | some c =>
          rw [List.filterMap_cons_some hpart, List.map_cons, spell_of_component? hpart]
          exact ih.cons_cons part

/-- Parts that are written between slashes, but only some of them. -/
theorem intercalate_spell_sublist {cs : List Char} {steps : List Component}
    (h : (steps.map ofComponents.spell).Sublist
      ((Text.pieces (· == '/') cs).map String.ofList)) :
    (['/'].intercalate ((steps.map ofComponents.spell).map String.toList)).Sublist cs := by
  have hpieces := h.map String.toList
  rw [List.map_map (l := Text.pieces (· == '/') cs)] at hpieces
  simp only [Function.comp_def, String.toList_ofList, List.map_id'] at hpieces
  have hjoin := intercalate_sublist ['/'] hpieces
  rwa [Text.intercalate_pieces] at hjoin

/-- **A path above another is written with some of its characters.** -/
theorem ofComponents_sublist {p : Path} {steps : List Component} (h : steps <+: p.components)
    (hne : steps ≠ []) : (ofComponents steps).text.toList.Sublist p.text.toList := by
  obtain ⟨c, rest, rfl⟩ := List.exists_cons_of_ne_nil hne
  obtain ⟨first, hcomponents, hfirst⟩ := p.components_eq
  rw [hcomponents] at h
  rcases hfirst with rfl | ⟨rfl, habsolute⟩ | ⟨rfl, hhere⟩
  · have hroot : c ≠ .root := by
      rintro rfl
      exact (isPart_of_mem (h.subset List.mem_cons_self)).spell_ne_empty rfl
    rw [toList_ofComponents hroot]
    exact intercalate_spell_sublist
      ((h.sublist.map ofComponents.spell).trans (map_spell_filterMap_sublist p.parts))
  · obtain ⟨rfl, hrest⟩ := List.cons_prefix_cons.1 h
    obtain ⟨cs, hcs, hparts⟩ := head?_parts_of_isAbsolute habsolute
    have hempty : component? "" = none := rfl
    rw [hparts, List.filterMap_cons_none hempty] at hrest
    rw [toList_ofComponents_root, hcs]
    exact (intercalate_spell_sublist
      ((hrest.sublist.map ofComponents.spell).trans (map_spell_filterMap_sublist _))).cons_cons '/'
  · obtain ⟨rfl, hrest⟩ := List.cons_prefix_cons.1 h
    obtain ⟨more, hmore⟩ := List.head?_eq_some_iff.1 hhere
    have hdot : component? "." = none := rfl
    rw [hmore, List.filterMap_cons_none hdot] at hrest
    have hparts := (hrest.sublist.map ofComponents.spell).trans (map_spell_filterMap_sublist more)
    rw [toList_ofComponents (by decide)]
    apply intercalate_spell_sublist
    change List.Sublist _ p.parts
    rw [hmore]
    exact hparts.cons_cons "."

/-- One path lies right above another: it is written from all components but the last. -/
def Above (p q : Path) : Prop := p.components.dropLast ≠ [] ∧ q = ofComponents p.components.dropLast

theorem Above.components {p q : Path} (h : p.Above q) : q.components = p.components.dropLast := by
  obtain ⟨hne, rfl⟩ := h
  exact components_ofComponents (List.dropLast_prefix _) hne

/-- The component that a path above leaves out stands for a part. -/
theorem exists_components_eq_concat {p : Path} (h : p.components.dropLast ≠ []) :
    ∃ c, c.IsPart ∧ p.components = p.components.dropLast ++ [c] := by
  obtain ⟨first, hcomponents, hfirst⟩ := p.components_eq
  have hpart : ∀ c ∈ p.parts.filterMap component?, c.IsPart := fun c hc => isPart_of_mem hc
  rw [hcomponents] at h ⊢
  generalize p.parts.filterMap component? = names at h hpart ⊢
  rcases List.eq_nil_or_concat names with rfl | ⟨front, c, rfl⟩
  · rcases hfirst with rfl | ⟨rfl, -⟩ | ⟨rfl, -⟩
    · exact absurd rfl h
    · exact absurd rfl h
    · exact absurd rfl h
  · refine ⟨c, hpart c (by simp), ?_⟩
    rw [List.concat_eq_append, ← List.append_assoc, List.dropLast_concat]

theorem Component.IsPart.exists_step? {c : Component} (h : c.IsPart) :
    ∃ step, c.step? = some step := by
  cases c with
  | root => exact absurd rfl h.spell_ne_empty
  | here =>
      have hdot := h.1
      cases hdot
  | up => exact ⟨_, rfl⟩
  | name text => exact ⟨_, rfl⟩

theorem Above.isAbsolute {p q : Path} (h : p.Above q) : q.isAbsolute = p.isAbsolute := by
  obtain ⟨c, hc, heq⟩ := exists_components_eq_concat h.1
  have hroot : Component.root ≠ c := by
    rintro rfl
    exact hc.spell_ne_empty rfl
  rw [Bool.eq_iff_iff, ← root_mem_components_iff, ← root_mem_components_iff, h.components]
  conv_rhs => rw [heq]
  simp [hroot]

theorem Above.steps {p q : Path} (h : p.Above q) : ∃ step, p.steps = q.steps ++ [step] := by
  obtain ⟨c, hc, heq⟩ := exists_components_eq_concat h.1
  obtain ⟨step, hstep⟩ := hc.exists_step?
  refine ⟨step, ?_⟩
  rw [steps_eq_filterMap q, h.components, steps_eq_filterMap, heq, List.filterMap_append,
    ← heq, List.filterMap_cons_some hstep]
  rfl

theorem Above.fault? {p q : Path} (h : p.Above q) (hp : FileSystem.fault? p = none) :
    FileSystem.fault? q = none := by
  have hq := h.components
  obtain ⟨hne, rfl⟩ := h
  apply FileSystem.fault?_eq_none_of_sublist
    (ofComponents_sublist (List.dropLast_prefix _) hne) _ hp
  intro hempty
  have hpath : ofComponents p.components.dropLast = ⟨""⟩ := by
    rw [← hempty]
  rw [hpath] at hq
  exact hne hq.symm

/-- **The ancestors of a path lie above one another**, and the path is the first of them. -/
theorem isChain_ancestors (p : Path) : p.ancestors.IsChain Above := by
  unfold ancestors
  have hcomponents : ∀ k < p.components.length, (if k = 0 then p
      else ofComponents (p.components.take (p.components.length - k))).components =
        p.components.take (p.components.length - k) := by
    intro k hk
    by_cases hzero : k = 0
    · rw [if_pos hzero, hzero, Nat.sub_zero, List.take_length]
    · rw [if_neg hzero]
      apply components_ofComponents (List.take_prefix _ _)
      rw [← List.length_pos_iff, List.length_take]
      omega
  rw [List.isChain_iff_getElem]
  intro k hk
  rw [List.length_map, List.length_range] at hk
  simp only [List.getElem_map, List.getElem_range]
  unfold Above
  rw [hcomponents k (by omega), List.dropLast_eq_take, List.take_take, List.length_take]
  have hlength : min (min (p.components.length - k) p.components.length - 1)
      (p.components.length - k) = p.components.length - (k + 1) := by omega
  rw [hlength, if_neg (Nat.succ_ne_zero k)]
  refine ⟨?_, rfl⟩
  rw [← List.length_pos_iff, List.length_take]
  omega

end Path

end LiveExcerpts
