import Mathlib.Data.List.Forall2
import LiveExcerpts.Error
/-!
# Outcomes

Doing one thing after the other until one fails: all of them succeed, each with its own answer, or
the first that fails is told and those before it have succeeded.

Failures name files by the paths they were asked for, so two that differ in the spelling of a path
only are taken for one, and so are the outcomes that they belong to.

Main definitions: `Error.SameAs`, `Alike`.  Main statements: `mapM_eq_ok_iff`,
`mapM_eq_error_iff`, `Alike.bind`, `Alike.mapM`.
-/

namespace LiveExcerpts

/-! ## Lists of outcomes -/

section Lists

variable {α β ε : Type} {f : α → Except ε β}

/-- What goes on from an outcome succeeds if that does and going on from its answer does. -/
theorem bind_eq_ok_iff {x : Except ε α} {b : β} :
    (x >>= f) = .ok b ↔ ∃ a, x = .ok a ∧ f a = .ok b := by
  cases x with
  | error e => simp [bind, Except.bind]
  | ok a => simp [bind, Except.bind]

/-- What goes on from an outcome fails if that does or going on from its answer does. -/
theorem bind_eq_error_iff {x : Except ε α} {e : ε} :
    (x >>= f) = .error e ↔ x = .error e ∨ ∃ a, x = .ok a ∧ f a = .error e := by
  cases x with
  | error e => simp [bind, Except.bind]
  | ok a => simp [bind, Except.bind]

/-- An outcome with an answer succeeds with it. -/
theorem eq_ok_of_toOption {x : Except ε α} {a : α} (h : x.toOption = some a) : x = .ok a := by
  cases x with
  | error e => simp [Except.toOption] at h
  | ok b => exact congrArg Except.ok (Option.some.inj h)

theorem mapM_cons_of_ok {a : α} {b : β} (h : f a = .ok b) (rest : List α) :
    (a :: rest).mapM f = (rest.mapM f).map (b :: ·) := by
  rw [List.mapM_cons, h]
  cases rest.mapM f <;> rfl

theorem mapM_cons_of_error {a : α} {e : ε} (h : f a = .error e) (rest : List α) :
    (a :: rest).mapM f = .error e := by
  rw [List.mapM_cons, h]
  rfl

/-- Doing something with each answer can wait until all of them are there. -/
theorem mapM_map_answer {γ : Type} (g : β → γ) (inputs : List α) :
    inputs.mapM (fun a => (f a).map g) = (inputs.mapM f).map (List.map g) := by
  induction inputs with
  | nil => rfl
  | cons a rest ih =>
      rw [List.mapM_cons, List.mapM_cons, ih]
      cases f a with
      | error e => rfl
      | ok b => cases rest.mapM f <;> rfl

/-- **Everything succeeds if each part does**, and the answers are those of the parts. -/
theorem mapM_eq_ok_iff {inputs : List α} {answers : List β} :
    inputs.mapM f = .ok answers ↔ List.Forall₂ (fun a b => f a = .ok b) inputs answers := by
  induction inputs generalizing answers with
  | nil =>
      rw [List.mapM_nil, List.forall₂_nil_left_iff]
      exact ⟨fun h => (Except.ok.inj h).symm, fun h => h ▸ rfl⟩
  | cons a rest ih =>
      cases ha : f a with
      | error e => simp [mapM_cons_of_error ha, List.forall₂_cons_left_iff, ha]
      | ok b =>
          rw [mapM_cons_of_ok ha, List.forall₂_cons_left_iff]
          constructor
          · intro h
            cases hrest : rest.mapM f with
            | error e => simp [hrest, Except.map] at h
            | ok found =>
                rw [hrest] at h
                exact ⟨b, found, ha, ih.1 hrest, (Except.ok.inj h).symm⟩
          · rintro ⟨b', found, hb, hfound, rfl⟩
            obtain rfl := Except.ok.inj (ha.symm.trans hb)
            rw [ih.2 hfound]
            rfl

theorem exists_mem_of_forall₂ {r : α → β → Prop} {inputs : List α} {answers : List β}
    (h : List.Forall₂ r inputs answers) {a : α} (ha : a ∈ inputs) : ∃ b ∈ answers, r a b := by
  induction h with
  | nil => cases ha
  | cons hb _ ih =>
      rcases List.mem_cons.1 ha with rfl | hrest
      · exact ⟨_, List.mem_cons_self, hb⟩
      · obtain ⟨b, hmem, hr⟩ := ih hrest
        exact ⟨b, List.mem_cons_of_mem _ hmem, hr⟩

/-- Where each input has an answer, the inputs have a list of answers. -/
theorem exists_forall₂_of_forall_mem {r : α → β → Prop} {inputs : List α}
    (h : ∀ a ∈ inputs, ∃ b, r a b) : ∃ answers, List.Forall₂ r inputs answers := by
  induction inputs with
  | nil => exact ⟨[], .nil⟩
  | cons a rest ih =>
      rw [List.forall_mem_cons] at h
      obtain ⟨b, hb⟩ := h.1
      obtain ⟨answers, hanswers⟩ := ih h.2
      exact ⟨b :: answers, .cons hb hanswers⟩

/-- What holds of two lists of answers to the same inputs relates the answers. -/
theorem forall₂_of_common {γ : Type} {p : α → β → Prop} {q : α → γ → Prop} {r : β → γ → Prop}
    {inputs : List α} {answers : List β} {others : List γ} (h : List.Forall₂ p inputs answers)
    (h' : List.Forall₂ q inputs others) (hr : ∀ a b c, p a b → q a c → r b c) :
    List.Forall₂ r answers others := by
  induction h generalizing others with
  | nil =>
      cases h'
      exact .nil
  | cons hp _ ih =>
      cases h' with
      | cons hq hrest => exact .cons (hr _ _ _ hp hq) (ih hrest)

/-- **The first failure is the one that is told.** -/
theorem mapM_eq_error_iff {inputs : List α} {e : ε} :
    inputs.mapM f = .error e ↔ ∃ before a after, inputs = before ++ a :: after ∧
      (∀ b ∈ before, ∃ answer, f b = .ok answer) ∧ f a = .error e := by
  induction inputs with
  | nil =>
      constructor
      · intro h
        cases h
      · rintro ⟨before, a, after, h, -⟩
        simp at h
  | cons a rest ih =>
      cases ha : f a with
      | error e' =>
          rw [mapM_cons_of_error ha]
          constructor
          · intro h
            obtain rfl := Except.error.inj h
            exact ⟨[], a, rest, rfl, by simp, ha⟩
          · rintro ⟨before, b, after, hsplit, hbefore, hb⟩
            cases before with
            | nil =>
                obtain ⟨rfl, -⟩ := List.cons.inj hsplit
                exact congrArg Except.error (Except.error.inj (ha.symm.trans hb))
            | cons first before =>
                obtain ⟨rfl, -⟩ := List.cons.inj hsplit
                obtain ⟨answer, hanswer⟩ := hbefore a List.mem_cons_self
                rw [ha] at hanswer
                cases hanswer
      | ok b =>
          have hmap : (rest.mapM f).map (b :: ·) = .error e ↔ rest.mapM f = .error e := by
            cases rest.mapM f <;> simp [Except.map]
          rw [mapM_cons_of_ok ha, hmap, ih]
          constructor
          · rintro ⟨before, c, after, rfl, hbefore, hc⟩
            exact ⟨a :: before, c, after, rfl, List.forall_mem_cons.2 ⟨⟨b, ha⟩, hbefore⟩, hc⟩
          · rintro ⟨before, c, after, hsplit, hbefore, hc⟩
            cases before with
            | nil =>
                obtain ⟨rfl, -⟩ := List.cons.inj hsplit
                rw [ha] at hc
                cases hc
            | cons first before =>
                obtain ⟨rfl, rfl⟩ := List.cons.inj hsplit
                exact ⟨before, c, after, rfl, (List.forall_mem_cons.1 hbefore).2, hc⟩

end Lists

/-! ## Failures up to spelling -/

/-- The same failure: the same kind with the same data, where a path may be spelled in two ways. -/
inductive Error.SameAs : Error → Error → Prop
  | refl (e : Error) : SameAs e e
  | bodyNotFound {p q : Path} {identifier : String} :
      p.SameAs q → SameAs (.bodyNotFound p identifier) (.bodyNotFound q identifier)
  | commandFailed {command : String} {e e' : Error} :
      SameAs e e' → SameAs (.commandFailed command e) (.commandFailed command e')
  | declarationNotFound {available : List String} {p q : Path} {identifier : String} :
      p.SameAs q →
      SameAs (.declarationNotFound available p identifier)
        (.declarationNotFound available q identifier)
  | fileNotFound {p q : Path} : p.SameAs q → SameAs (.fileNotFound p) (.fileNotFound q)
  | malformedScenario {p q : Path} {reason : String} :
      p.SameAs q → SameAs (.malformedScenario p reason) (.malformedScenario q reason)
  | parseFailed {p q : Path} {reason : String} :
      p.SameAs q → SameAs (.parseFailed p reason) (.parseFailed q reason)
  | scenarioNotFound {p q : Path} : p.SameAs q → SameAs (.scenarioNotFound p) (.scenarioNotFound q)
  | sourceRootNotFound {p q : Path} :
      p.SameAs q → SameAs (.sourceRootNotFound p) (.sourceRootNotFound q)

namespace Error.SameAs

theorem symm {e e' : Error} (h : e.SameAs e') : e'.SameAs e := by
  induction h with
  | refl e => exact .refl e
  | bodyNotFound h => exact .bodyNotFound h.symm
  | commandFailed _ ih => exact .commandFailed ih
  | declarationNotFound h => exact .declarationNotFound h.symm
  | fileNotFound h => exact .fileNotFound h.symm
  | malformedScenario h => exact .malformedScenario h.symm
  | parseFailed h => exact .parseFailed h.symm
  | scenarioNotFound h => exact .scenarioNotFound h.symm
  | sourceRootNotFound h => exact .sourceRootNotFound h.symm

theorem trans {e e' e'' : Error} (h : e.SameAs e') (h' : e'.SameAs e'') : e.SameAs e'' := by
  induction h generalizing e'' with
  | refl e => exact h'
  | bodyNotFound h =>
      cases h' with
      | refl => exact .bodyNotFound h
      | bodyNotFound h' => exact .bodyNotFound (h.trans h')
  | commandFailed h ih =>
      cases h' with
      | refl => exact .commandFailed h
      | commandFailed h' => exact .commandFailed (ih h')
  | declarationNotFound h =>
      cases h' with
      | refl => exact .declarationNotFound h
      | declarationNotFound h' => exact .declarationNotFound (h.trans h')
  | fileNotFound h =>
      cases h' with
      | refl => exact .fileNotFound h
      | fileNotFound h' => exact .fileNotFound (h.trans h')
  | malformedScenario h =>
      cases h' with
      | refl => exact .malformedScenario h
      | malformedScenario h' => exact .malformedScenario (h.trans h')
  | parseFailed h =>
      cases h' with
      | refl => exact .parseFailed h
      | parseFailed h' => exact .parseFailed (h.trans h')
  | scenarioNotFound h =>
      cases h' with
      | refl => exact .scenarioNotFound h
      | scenarioNotFound h' => exact .scenarioNotFound (h.trans h')
  | sourceRootNotFound h =>
      cases h' with
      | refl => exact .sourceRootNotFound h
      | sourceRootNotFound h' => exact .sourceRootNotFound (h.trans h')

end Error.SameAs

/-! ## Outcomes up to spelling -/

/-- Two outcomes are alike: two answers that are related, or twice the same failure. -/
inductive Alike {α : Type} (same : α → α → Prop) : Except Error α → Except Error α → Prop
  | ok {a b : α} : same a b → Alike same (.ok a) (.ok b)
  | error {e e' : Error} : e.SameAs e' → Alike same (.error e) (.error e')

namespace Alike

variable {α β : Type} {same : α → α → Prop} {same' : β → β → Prop} {x y z : Except Error α}

theorem refl (h : ∀ a, same a a) (x : Except Error α) : Alike same x x := by
  cases x with
  | error e => exact .error (.refl e)
  | ok a => exact .ok (h a)

theorem symm (hsame : ∀ {a b}, same a b → same b a) (h : Alike same x y) : Alike same y x := by
  cases h with
  | ok h => exact .ok (hsame h)
  | error h => exact .error h.symm

theorem trans (hsame : ∀ {a b c}, same a b → same b c → same a c) (h : Alike same x y)
    (h' : Alike same y z) : Alike same x z := by
  cases h with
  | ok h => cases h' with | ok h' => exact .ok (hsame h h')
  | error h => cases h' with | error h' => exact .error (h.trans h')

/-- Going on from alike outcomes in like ways comes to alike outcomes. -/
theorem bind {f g : α → Except Error β} (h : Alike same x y)
    (hfg : ∀ a b, same a b → Alike same' (f a) (g b)) : Alike same' (x >>= f) (y >>= g) := by
  cases h with
  | ok h => exact hfg _ _ h
  | error h => exact .error h

theorem map {f g : α → β} (h : Alike same x y) (hfg : ∀ a b, same a b → same' (f a) (g b)) :
    Alike same' (x.map f) (y.map g) := by
  cases h with
  | ok h => exact .ok (hfg _ _ h)
  | error h => exact .error h

/-- Outcomes that are alike are both answers or both failures. -/
theorem exists_ok_iff (h : Alike Eq x y) (a : α) : x = .ok a ↔ y = .ok a := by
  cases h with
  | ok h => rw [h]
  | error h => simp

/-- What is alike to a failure is the same failure. -/
theorem exists_error {e : Error} (h : Alike same (.error e) y) :
    ∃ e', y = .error e' ∧ e.SameAs e' := by
  cases h with
  | error he => exact ⟨_, rfl, he⟩

/-- Things done one after the other come to alike outcomes if each does. -/
theorem mapM {γ : Type} {f g : γ → Except Error β} (inputs : List γ)
    (h : ∀ c ∈ inputs, Alike Eq (f c) (g c)) : Alike Eq (inputs.mapM f) (inputs.mapM g) := by
  induction inputs with
  | nil => exact .ok rfl
  | cons c rest ih =>
      obtain ⟨hc, hrest⟩ := List.forall_mem_cons.1 h
      rw [List.mapM_cons, List.mapM_cons]
      refine hc.bind fun a b hab => ?_
      refine (ih hrest).bind fun as bs has => ?_
      rw [hab, has]
      exact .ok rfl

end Alike

end LiveExcerpts
