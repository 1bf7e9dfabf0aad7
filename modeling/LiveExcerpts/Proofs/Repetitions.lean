import Mathlib.Data.List.Destutter
import LiveExcerpts.Proofs.Bindings
/-!
# Names that come again

When a name is not found the file offers the names that it declares.  A name that follows itself is
given once, but one that comes again after another name is given again.

Main definitions: `ListsOnce`, `Stutters`.  Main statements: what is left of a list without
repetitions on the spot has each member once exactly if no member comes again after another one
(`listsOnce_eraseReps_iff`), and so it is with the names that a file offers
(`SourceFile.listsOnce_offered_iff`).
-/

namespace LiveExcerpts

section Lists

variable {α : Type}

/-! ## Once each, and repeated on the spot -/

/-- The names are those of `given` in their order, each of them once or more often on the spot. -/
inductive Stutters : List α → List α → Prop
  /-- There are none. -/
  | nil : Stutters [] []
  /-- A further name. -/
  | once {name : α} {given names : List α} :
      Stutters given names → Stutters (name :: given) (name :: names)
  /-- The first name once more. -/
  | again {name : α} {given names : List α} :
      Stutters (name :: given) names → Stutters (name :: given) (name :: names)

/-- The names begin with the first of those that they stutter. -/
theorem Stutters.exists_eq_cons {name : α} {given names : List α}
    (h : Stutters (name :: given) names) : ∃ rest, names = name :: rest := by
  cases h with
  | once _ => exact ⟨_, rfl⟩
  | again _ => exact ⟨_, rfl⟩

/-- A member in front of itself makes no difference to what comes again after another one. -/
theorem again_cons_self_iff (c : α) (l : List α) :
    (∀ a b, [a, b, a].Sublist (c :: c :: l) → a = b) ↔
      ∀ a b, [a, b, a].Sublist (c :: l) → a = b := by
  refine ⟨fun h a b hsub => h a b (hsub.cons c), fun h a b hsub => ?_⟩
  rcases List.cons_sublist_cons'.1 hsub with hrest | ⟨rfl, hrest⟩
  · exact h a b hrest
  -- The first of the two copies can be spared unless `b` is the second one.
  · rcases List.cons_sublist_cons'.1 hrest with hlater | ⟨rfl, -⟩
    · exact h a b (hlater.cons_cons a)
    · rfl

/-- A member in front of another one must not be there again. -/
theorem again_cons_of_ne_iff {c d : α} (hcd : c ≠ d) (l : List α) :
    (∀ a b, [a, b, a].Sublist (c :: d :: l) → a = b) ↔
      c ∉ d :: l ∧ ∀ a b, [a, b, a].Sublist (d :: l) → a = b := by
  constructor
  · refine fun h => ⟨fun hmem => ?_, fun a b hsub => h a b (hsub.cons c)⟩
    have hlater : c ∈ l := (List.mem_cons.1 hmem).resolve_left hcd
    have hpair : [d, c].Sublist (d :: l) := (List.singleton_sublist.2 hlater).cons_cons d
    exact hcd (h c d (hpair.cons_cons c))
  · rintro ⟨hnot, h⟩ a b hsub
    rcases List.cons_sublist_cons'.1 hsub with hrest | ⟨rfl, hrest⟩
    · exact h a b hrest
    · exact absurd (hrest.subset (by simp)) hnot

variable [BEq α]

/-- The list `once` has each member of `names` once, in the order in which they come first. -/
structure ListsOnce (names once : List α) : Prop where
  /-- No member is there twice. -/
  nodup : once.Nodup
  /-- The members are the same. -/
  mem_iff : ∀ name, name ∈ once ↔ name ∈ names
  /-- A member that comes first earlier stands earlier. -/
  ordered : once.Pairwise fun name other => names.idxOf name < names.idxOf other

variable [LawfulBEq α]

/-! ## Without repetitions on the spot -/

theorem eraseReps_eq_destutter [DecidableEq α] (l : List α) :
    l.eraseReps = l.destutter (· ≠ ·) := by
  suffices hloop : ∀ (l : List α) (a : α) (kept : List α),
      List.eraseRepsBy.loop (· == ·) a l kept = kept.reverse ++ l.destutter' (· ≠ ·) a by
    cases l with
    | nil => rfl
    | cons a l => exact hloop l a []
  intro l
  induction l with
  | nil =>
      intro a kept
      simp [List.eraseRepsBy.loop]
  | cons b l ih =>
      intro a kept
      unfold List.eraseRepsBy.loop
      by_cases hab : a = b
      · subst hab
        simp [ih]
      · rw [List.destutter'_cons_pos _ hab, beq_false_of_ne hab]
        simp only [ih, List.reverse_cons, List.append_assoc, List.singleton_append]

/-- A member that follows itself is given once. -/
theorem eraseReps_cons_self (a : α) (l : List α) :
    (a :: a :: l).eraseReps = (a :: l).eraseReps := by
  classical
  rw [eraseReps_eq_destutter, eraseReps_eq_destutter, List.destutter_cons_cons, if_neg (by simp)]
  rfl

/-- A member that follows another one is given. -/
theorem eraseReps_cons_of_ne {a b : α} (h : a ≠ b) (l : List α) :
    (a :: b :: l).eraseReps = a :: (b :: l).eraseReps := by
  classical
  rw [eraseReps_eq_destutter, eraseReps_eq_destutter, List.destutter_cons_cons, if_pos h]
  rfl

/-- The first member stays the first. -/
theorem exists_eraseReps_cons (a : α) (l : List α) : ∃ m, (a :: l).eraseReps = a :: m := by
  induction l with
  | nil => exact ⟨[], rfl⟩
  | cons b l ih =>
      by_cases hab : a = b
      · subst hab
        rw [eraseReps_cons_self]
        exact ih
      · exact ⟨_, eraseReps_cons_of_ne hab l⟩

/-- No two neighbours are the same. -/
theorem isChain_eraseReps (l : List α) : l.eraseReps.IsChain (· ≠ ·) := by
  classical
  rw [eraseReps_eq_destutter]
  exact List.isChain_destutter _ l

/-- Only repetitions on the spot are left out. -/
theorem stutters_eraseReps (l : List α) : Stutters l.eraseReps l := by
  induction l with
  | nil => exact .nil
  | cons a l ih =>
      cases l with
      | nil => exact .once .nil
      | cons b l =>
          by_cases hab : a = b
          · subst hab
            obtain ⟨m, hm⟩ := exists_eraseReps_cons a l
            rw [eraseReps_cons_self]
            rw [hm] at ih ⊢
            exact .again ih
          · rw [eraseReps_cons_of_ne hab]
            exact .once ih

/-- **No member is left twice exactly if none comes again after another one.** -/
theorem nodup_eraseReps_iff (l : List α) :
    l.eraseReps.Nodup ↔ ∀ a b, [a, b, a].Sublist l → a = b := by
  induction l with
  | nil => simp [List.eraseReps, List.eraseRepsBy]
  | cons c l ih =>
      cases l with
      | nil =>
          refine iff_of_true (List.nodup_singleton c) fun a b h => ?_
          have := h.length_le
          simp at this
      | cons d l =>
          by_cases hcd : c = d
          · subst hcd
            rw [eraseReps_cons_self, again_cons_self_iff, ih]
          · rw [eraseReps_cons_of_ne hcd, again_cons_of_ne_iff hcd, List.nodup_cons,
              mem_eraseReps, ih]

/-! ## Without any repetitions -/

theorem eraseDups_concat_of_mem {x : α} {l : List α} (h : x ∈ l) :
    (l ++ [x]).eraseDups = l.eraseDups := by
  have hnone : [x].removeAll l = [] := by simp [List.removeAll, h]
  rw [List.eraseDups_append, hnone, List.eraseDups_nil, List.append_nil]

theorem eraseDups_concat_of_not_mem {x : α} {l : List α} (h : x ∉ l) :
    (l ++ [x]).eraseDups = l.eraseDups ++ [x] := by
  have hone : [x].removeAll l = [x] := by simp [List.removeAll, h]
  rw [List.eraseDups_append, hone]
  rfl

/-- What comes first in a list comes first at the same place in a longer one. -/
theorem ListsOnce.ordered_concat {names once : List α} (h : ListsOnce names once) (x : α) :
    once.Pairwise fun name other => (names ++ [x]).idxOf name < (names ++ [x]).idxOf other := by
  refine h.ordered.imp_of_mem fun hname hother hlt => ?_
  rw [List.idxOf_append_of_mem ((h.mem_iff _).1 hname),
    List.idxOf_append_of_mem ((h.mem_iff _).1 hother)]
  exact hlt

/-- A member that comes again is not listed again. -/
theorem ListsOnce.concat_of_mem {names once : List α} (h : ListsOnce names once) {x : α}
    (hx : x ∈ names) : ListsOnce (names ++ [x]) once := by
  refine ⟨h.nodup, fun name => ?_, h.ordered_concat x⟩
  rw [h.mem_iff, List.mem_append, List.mem_singleton]
  refine ⟨.inl, fun hname => hname.elim id ?_⟩
  rintro rfl
  exact hx

/-- A further member is listed last. -/
theorem ListsOnce.concat_of_not_mem {names once : List α} (h : ListsOnce names once) {x : α}
    (hx : x ∉ names) : ListsOnce (names ++ [x]) (once ++ [x]) := by
  refine ⟨?_, fun name => ?_, ?_⟩
  · rw [List.nodup_append]
    refine ⟨h.nodup, List.nodup_singleton x, fun a ha b hb => ?_⟩
    rintro rfl
    obtain rfl := List.mem_singleton.1 hb
    exact hx ((h.mem_iff _).1 ha)
  · rw [List.mem_append, List.mem_append, h.mem_iff]
  · rw [List.pairwise_append]
    refine ⟨h.ordered_concat x, List.pairwise_singleton _ x, fun a ha b hb => ?_⟩
    obtain rfl := List.mem_singleton.1 hb
    have hmem := (h.mem_iff a).1 ha
    rw [List.idxOf_append_of_mem hmem, List.idxOf_append_of_notMem hx]
    have := List.idxOf_lt_length_of_mem hmem
    omega

/-- Leaving out each member that has been there before leaves each of them once, in the order in
which they come first. -/
theorem listsOnce_eraseDups (l : List α) : ListsOnce l l.eraseDups := by
  induction l using List.reverseRecOn with
  | nil => exact ⟨.nil, by simp, .nil⟩
  | append_singleton l x ih =>
      by_cases hx : x ∈ l
      · rw [eraseDups_concat_of_mem hx]
        exact ih.concat_of_mem hx
      · rw [eraseDups_concat_of_not_mem hx]
        exact ih.concat_of_not_mem hx

theorem eraseDups_of_nodup {l : List α} (h : l.Nodup) : l.eraseDups = l := by
  induction l using List.reverseRecOn with
  | nil => rfl
  | append_singleton l x ih =>
      rw [List.nodup_append] at h
      obtain ⟨hl, -, hne⟩ := h
      have hx : x ∉ l := fun hmem => hne x hmem x (List.mem_singleton_self x) rfl
      rw [eraseDups_concat_of_not_mem hx, ih hl]

/-- Names that are repeated on the spot are no others, and come first in the same order. -/
theorem Stutters.eraseDups_filter {given names : List α} (h : Stutters given names)
    (p : α → Bool) : (given.filter p).eraseDups = (names.filter p).eraseDups := by
  induction h generalizing p with
  | nil => rfl
  | @once name given names _ ih =>
      by_cases hp : p name = true
      · rw [List.filter_cons_of_pos hp, List.filter_cons_of_pos hp, List.eraseDups_cons,
          List.eraseDups_cons, List.filter_filter, List.filter_filter, ih]
      · rw [List.filter_cons_of_neg hp, List.filter_cons_of_neg hp, ih]
  | @again name given names h ih =>
      obtain ⟨rest, rfl⟩ := h.exists_eq_cons
      by_cases hp : p name = true
      · rw [ih]
        simp only [List.filter_cons_of_pos hp, List.eraseDups_cons]
        rw [List.filter_cons_of_neg (by simp)]
      · rw [ih]
        simp only [List.filter_cons_of_neg hp]

theorem Stutters.eraseDups_eq {given names : List α} (h : Stutters given names) :
    given.eraseDups = names.eraseDups := by
  have hall := h.eraseDups_filter fun _ => true
  rwa [List.filter_true, List.filter_true] at hall

/-- **A list without repetitions on the spot has each member once exactly if no member came again
after another one.** -/
theorem listsOnce_eraseReps_iff (l : List α) :
    ListsOnce l l.eraseReps ↔ ∀ a b, [a, b, a].Sublist l → a = b := by
  rw [← nodup_eraseReps_iff]
  refine ⟨ListsOnce.nodup, fun hnodup => ?_⟩
  rw [← eraseDups_of_nodup hnodup, (stutters_eraseReps l).eraseDups_eq]
  exact listsOnce_eraseDups l

end Lists

/-! ## What a file offers -/

namespace SourceFile

variable {file : SourceFile} {identifier : String}

/-- **What is offered for a name that a file does not declare.**  The declared names are offered in
pre-order without their repetitions on the spot.  So each of them is offered once, in the order of
their first occurrences, exactly if none comes again after another one; and if one does, that list
is what is left of the names offered when each that has been there before is passed over. -/
theorem listsOnce_offered_iff (h : identifier ∉ file.bindings.map Binding.name) :
    ∃ offered,
      file.locate identifier = .error (.declarationNotFound offered file.path identifier) ∧
      Stutters offered (file.bindings.map Binding.name) ∧ offered.IsChain (· ≠ ·) ∧
      (ListsOnce (file.bindings.map Binding.name) offered ↔
        ∀ a b, [a, b, a].Sublist (file.bindings.map Binding.name) → a = b) ∧
      ListsOnce (file.bindings.map Binding.name) offered.eraseDups := by
  have hstutters := stutters_eraseReps (file.bindings.map Binding.name)
  refine ⟨file.availableNames, ?_, hstutters, isChain_eraseReps _, listsOnce_eraseReps_iff _, ?_⟩
  · rw [locate, find?_bindings_eq_none_iff.2 h]
  · unfold availableNames
    rw [hstutters.eraseDups_eq]
    exact listsOnce_eraseDups _

end SourceFile

/-- Two types, each with a function of one name. -/
def twoImplsText : String :=
  "impl A \x7b fn f() \x7b\x7d fn g() \x7b\x7d \x7d\nimpl B \x7b fn f() \x7b\x7d \x7d\n"

/-- The tree of `twoImplsText`. -/
def twoImpls : Node :=
  ⟨"source_file", true, none, 0, 52, [
    ⟨"impl_item", true, none, 0, 30, [
      ⟨"impl", false, none, 0, 4, []⟩,
      ⟨"type_identifier", true, some "type", 5, 6, []⟩,
      ⟨"declaration_list", true, some "body", 7, 30, [
        ⟨Node.openBrace, false, none, 7, 8, []⟩,
        ⟨"function_item", true, none, 9, 18, [
          ⟨"fn", false, none, 9, 11, []⟩,
          ⟨"identifier", true, some "name", 12, 13, []⟩,
          ⟨"parameters", true, some "parameters", 13, 15, [
            ⟨"(", false, none, 13, 14, []⟩,
            ⟨")", false, none, 14, 15, []⟩]⟩,
          ⟨"block", true, some "body", 16, 18, [
            ⟨Node.openBrace, false, none, 16, 17, []⟩,
            ⟨"\x7d", false, none, 17, 18, []⟩]⟩]⟩,
        ⟨"function_item", true, none, 19, 28, [
          ⟨"fn", false, none, 19, 21, []⟩,
          ⟨"identifier", true, some "name", 22, 23, []⟩,
          ⟨"parameters", true, some "parameters", 23, 25, [
            ⟨"(", false, none, 23, 24, []⟩,
            ⟨")", false, none, 24, 25, []⟩]⟩,
          ⟨"block", true, some "body", 26, 28, [
            ⟨Node.openBrace, false, none, 26, 27, []⟩,
            ⟨"\x7d", false, none, 27, 28, []⟩]⟩]⟩,
        ⟨"\x7d", false, none, 29, 30, []⟩]⟩]⟩,
    ⟨"impl_item", true, none, 31, 51, [
      ⟨"impl", false, none, 31, 35, []⟩,
      ⟨"type_identifier", true, some "type", 36, 37, []⟩,
      ⟨"declaration_list", true, some "body", 38, 51, [
        ⟨Node.openBrace, false, none, 38, 39, []⟩,
        ⟨"function_item", true, none, 40, 49, [
          ⟨"fn", false, none, 40, 42, []⟩,
          ⟨"identifier", true, some "name", 43, 44, []⟩,
          ⟨"parameters", true, some "parameters", 44, 46, [
            ⟨"(", false, none, 44, 45, []⟩,
            ⟨")", false, none, 45, 46, []⟩]⟩,
          ⟨"block", true, some "body", 47, 49, [
            ⟨Node.openBrace, false, none, 47, 48, []⟩,
            ⟨"\x7d", false, none, 48, 49, []⟩]⟩]⟩,
        ⟨"\x7d", false, none, 50, 51, []⟩]⟩]⟩]⟩

/-- The file of `twoImplsText`. -/
def twoImplsFile : SourceFile := .ofTree ⟨"lib.rs"⟩ .rust twoImplsText twoImpls

theorem names_twoImplsFile : twoImplsFile.bindings.map Binding.name = ["f", "g", "f"] := by
  decide +kernel

/-- A name that comes again after another one is offered again. -/
theorem listsOnce_offered_iff_twoImpls :
    "h" ∉ twoImplsFile.bindings.map Binding.name ∧
    ∃ offered,
      twoImplsFile.locate "h" = .error (.declarationNotFound offered ⟨"lib.rs"⟩ "h") ∧
      ¬ ListsOnce (twoImplsFile.bindings.map Binding.name) offered ∧
      ListsOnce (twoImplsFile.bindings.map Binding.name) offered.eraseDups := by
  have habsent : "h" ∉ twoImplsFile.bindings.map Binding.name := by
    rw [names_twoImplsFile]
    decide
  obtain ⟨offered, hlocate, -, -, hiff, honce⟩ := SourceFile.listsOnce_offered_iff habsent
  refine ⟨habsent, offered, hlocate, fun h => ?_, honce⟩
  have hagain : ["f", "g", "f"].Sublist (twoImplsFile.bindings.map Binding.name) := by
    rw [names_twoImplsFile]
  exact absurd (hiff.1 h "f" "g" hagain) (by decide)

/-- Not every file offers each of its names once. -/
theorem not_forall_listsOnce_offered :
    ¬ ∀ (file : SourceFile) (identifier : String),
      identifier ∉ file.bindings.map Binding.name →
      ∀ offered path asked,
        file.locate identifier = .error (.declarationNotFound offered path asked) →
        ListsOnce (file.bindings.map Binding.name) offered := by
  intro h
  have habsent : "h" ∉ twoImplsFile.bindings.map Binding.name := by
    rw [names_twoImplsFile]
    decide
  have hlocate : twoImplsFile.locate "h" =
      .error (.declarationNotFound twoImplsFile.availableNames twoImplsFile.path "h") := by
    rw [SourceFile.locate, SourceFile.find?_bindings_eq_none_iff.2 habsent]
  have honce := h twoImplsFile "h" habsent _ _ _ hlocate
  have hoffered : twoImplsFile.availableNames = ["f", "g", "f"] := by
    rw [SourceFile.availableNames, names_twoImplsFile]
    decide
  rw [hoffered] at honce
  exact absurd honce.nodup (by decide)

end LiveExcerpts
