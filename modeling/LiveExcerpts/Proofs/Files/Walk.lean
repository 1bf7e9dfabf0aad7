import Mathlib.Tactic.Tauto
import LiveExcerpts.FileSystem
/-!
# Where paths lead

A path is followed through its **steps**, the parts that are neither empty nor `.`; the others only
ask for a directory to stand where they are.  So two spellings of one path that lead somewhere lead
to the same entry, through whatever links.

Main definitions: `Path.steps`, `FileSystem.Leads`.  Main statements: a walk that arrives follows
the steps (`FileSystem.leads_of_walk`), steps lead to one entry only (`FileSystem.Leads.unique`),
and `FileSystem.stat_eq_of_sameAs`.
-/

namespace LiveExcerpts

/-! ## Steps -/

namespace Path

/-- The part takes a step: it is neither empty nor `.`. -/
def isStep (part : String) : Bool := decide (part ≠ "" ∧ part ≠ ".")

/-- The steps of a path. -/
def steps (p : Path) : List String := p.parts.filter isStep

/-- The step that a component takes. -/
def Component.step? : Component → Option String
  | .root | .here => none
  | .up => some ".."
  | .name text => some text

theorem isStep_eq_false_iff {part : String} : isStep part = false ↔ part = "" ∨ part = "." := by
  unfold isStep
  rw [decide_eq_false_iff_not]
  tauto

theorem isStep_of_not {part : String} (h : ¬ (part = "" ∨ part = ".")) : isStep part = true := by
  rwa [← Bool.not_eq_false, isStep_eq_false_iff]

theorem component?_bind_step? (part : String) :
    (component? part).bind Component.step? = if isStep part then some part else none := by
  unfold component?
  by_cases hskip : part = "" ∨ part = "."
  · rw [if_pos hskip, isStep_eq_false_iff.2 hskip]
    rfl
  · rw [if_neg hskip, if_pos (isStep_of_not hskip)]
    by_cases hup : part = ".."
    · rw [if_pos hup, hup]
      rfl
    · rw [if_neg hup]
      rfl

/-- The steps of a path can be told from its components. -/
theorem steps_eq_filterMap (p : Path) : p.steps = p.components.filterMap Component.step? := by
  have hfirst : (if p.isAbsolute then [Component.root]
      else if p.parts.head? = some "." then [Component.here] else []).filterMap
        Component.step? = [] := by
    split
    · rfl
    · split <;> rfl
  have hparts : (fun part => (component? part).bind Component.step?) =
      fun part => if isStep part then some part else none := funext component?_bind_step?
  unfold components
  rw [List.filterMap_append, hfirst, List.nil_append, List.filterMap_filterMap, hparts]
  exact (congrFun List.filterMap_eq_filter p.parts).symm

/-- No part stands for the root. -/
theorem root_not_mem_filterMap (parts : List String) : .root ∉ parts.filterMap component? := by
  rw [List.mem_filterMap]
  rintro ⟨part, -, hpart⟩
  unfold component? at hpart
  split at hpart
  · simp at hpart
  · split at hpart <;> simp at hpart

theorem root_mem_components_iff {p : Path} : .root ∈ p.components ↔ p.isAbsolute = true := by
  unfold components
  rw [List.mem_append, or_iff_left (root_not_mem_filterMap p.parts)]
  cases p.isAbsolute with
  | true => simp
  | false => by_cases hhere : p.parts.head? = some "." <;> simp [hhere]

/-- Two spellings of one path take the same steps from the same place. -/
theorem SameAs.steps {p q : Path} (h : p.SameAs q) : p.steps = q.steps := by
  rw [steps_eq_filterMap, steps_eq_filterMap, h]

theorem SameAs.isAbsolute {p q : Path} (h : p.SameAs q) : p.isAbsolute = q.isAbsolute := by
  rw [Bool.eq_iff_iff, ← root_mem_components_iff, ← root_mem_components_iff, h]

end Path

namespace FileSystem

theorem fault?_eq_none_of_spot {fs : FileSystem} {follow : Bool} {p : Path} {spot : Spot}
    (h : fs.spot follow p = .ok spot) : fault? p = none := by
  unfold FileSystem.spot at h
  split at h
  · cases h
  · assumption

/-- A path that leads somewhere is walked. -/
theorem walk_of_spot {fs : FileSystem} {follow : Bool} {p : Path} {spot : Spot}
    (h : fs.spot follow p = .ok spot) :
    fs.walk follow maxLinks (fs.startOf p) p.parts = .ok spot := by
  unfold FileSystem.spot at h
  rw [fault?_eq_none_of_spot h] at h
  exact h

theorem stat_eq_ok_iff {fs : FileSystem} {p : Path} {entry : Entry} :
    fs.stat p = .ok entry ↔ ∃ place, fs.spot true p = .ok (.occupied place entry) := by
  unfold stat
  split
  · next place found hspot =>
      rw [hspot]
      simp
  · next place hspot =>
      rw [hspot]
      simp
  · next cause hspot =>
      rw [hspot]
      simp

theorem isFile_iff {fs : FileSystem} {p : Path} :
    fs.isFile p = true ↔ ∃ contents, fs.stat p = .ok (.file contents) := by
  unfold isFile
  split
  · next contents h => simp [h]
  · next hne =>
      simp only [Bool.false_eq_true, false_iff, not_exists]
      exact hne

theorem leadsSomewhere_iff {fs : FileSystem} {p : Path} :
    fs.leadsSomewhere p = true ↔ ∃ entry, fs.stat p = .ok entry := by
  unfold leadsSomewhere
  cases fs.stat p <;> simp [Except.toBool]

/-! ## One step of a walk -/

section Steps

variable {fs : FileSystem} {follow : Bool} {links : Nat} {here : Place} {name : String}
  {rest : List String}

theorem walk_nil {entry : Entry} (hhere : fs.lookup? here = some entry) :
    fs.walk follow links here [] = .ok (.occupied here entry) := by
  unfold walk
  rw [hhere]

theorem walk_skip (hhere : fs.lookup? here = some .directory) (hskip : name = "" ∨ name = ".") :
    fs.walk follow links here (name :: rest) = fs.walk follow links here rest := by
  rw [walk]
  simp only [hhere, if_pos hskip]

theorem walk_up (hhere : fs.lookup? here = some .directory) :
    fs.walk follow links here (".." :: rest) = fs.walk follow links here.dropLast rest := by
  rw [walk]
  simp [hhere]

theorem walk_name (hhere : fs.lookup? here = some .directory) (hskip : ¬ (name = "" ∨ name = "."))
    (hup : ¬ name = "..") (hsize : ¬ 255 < name.utf8ByteSize) :
    fs.walk follow links here (name :: rest) =
      match fs.lookup? (here ++ [name]) with
      | none => if rest.isEmpty then .ok (.vacant (here ++ [name])) else .error .notFound
      | some (.link target) =>
        if rest.isEmpty && !follow then .ok (.occupied (here ++ [name]) (.link target))
        else
          match links with
          | 0 => .error .tooManyLinks
          | links + 1 =>
            fs.walk follow links (if (Path.mk target).isAbsolute then [] else here)
              ((Path.mk target).parts ++ rest)
      | some _ => fs.walk follow links (here ++ [name]) rest := by
  rw [walk, hhere]
  exact (if_neg hskip).trans ((if_neg hup).trans (if_neg hsize))

theorem walk_down (hhere : fs.lookup? here = some .directory)
    (hskip : ¬ (name = "" ∨ name = ".")) (hup : ¬ name = "..") (hsize : ¬ 255 < name.utf8ByteSize)
    {found : Entry} (hfound : fs.lookup? (here ++ [name]) = some found)
    (hlink : ∀ target, found ≠ .link target) :
    fs.walk follow links here (name :: rest) = fs.walk follow links (here ++ [name]) rest := by
  rw [walk_name hhere hskip hup hsize, hfound]
  cases found with
  | link target => exact absurd rfl (hlink target)
  | file contents => rfl
  | directory => rfl

end Steps

/-! ## Following steps -/

/-- From a place, the steps lead to an entry and its place, through at most `links` symbolic
links. -/
inductive Leads (fs : FileSystem) : Nat → Place → List String → Place → Entry → Prop
  | arrived {links : Nat} {here : Place} {entry : Entry} :
      fs.lookup? here = some entry → Leads fs links here [] here entry
  | up {links : Nat} {here place : Place} {rest : List String} {entry : Entry} :
      fs.lookup? here = some .directory → Leads fs links here.dropLast rest place entry →
      Leads fs links here (".." :: rest) place entry
  | down {links : Nat} {here place : Place} {name : String} {rest : List String}
      {found entry : Entry} : fs.lookup? here = some .directory → name ≠ ".." →
      fs.lookup? (here ++ [name]) = some found → (∀ target, found ≠ .link target) →
      Leads fs links (here ++ [name]) rest place entry →
      Leads fs links here (name :: rest) place entry
  | through {links : Nat} {here place : Place} {name target : String} {rest : List String}
      {entry : Entry} : fs.lookup? here = some .directory → name ≠ ".." →
      fs.lookup? (here ++ [name]) = some (.link target) →
      Leads fs links (if (Path.mk target).isAbsolute then [] else here)
        ((Path.mk target).steps ++ rest) place entry →
      Leads fs (links + 1) here (name :: rest) place entry

/-- **Steps lead to one entry only.** -/
theorem Leads.unique {fs : FileSystem} {links : Nat} {here place place' : Place}
    {steps : List String} {entry entry' : Entry} (h : fs.Leads links here steps place entry)
    (h' : fs.Leads links here steps place' entry') : place = place' ∧ entry = entry' := by
  induction h with
  | arrived hhere =>
      cases h' with
      | arrived hhere' => exact ⟨rfl, Option.some.inj (hhere.symm.trans hhere')⟩
  | up _ _ ih =>
      cases h' with
      | up _ hrest => exact ih hrest
      | down _ hname => exact absurd rfl hname
      | through _ hname => exact absurd rfl hname
  | down _ hname hfound hlink _ ih =>
      cases h' with
      | up => exact absurd rfl hname
      | down _ _ _ _ hrest => exact ih hrest
      | through _ _ htarget =>
          exact absurd (Option.some.inj (hfound.symm.trans htarget)) (hlink _)
  | through _ hname htarget _ ih =>
      cases h' with
      | up => exact absurd rfl hname
      | down _ _ hfound hlink =>
          exact absurd (Option.some.inj (hfound.symm.trans htarget)) (hlink _)
      | through _ _ htarget' hrest =>
          obtain rfl := Entry.link.inj (Option.some.inj (htarget.symm.trans htarget'))
          exact ih hrest

/-- **A walk that arrives follows the steps.** -/
theorem leads_of_walk {fs : FileSystem} {links : Nat} {here place : Place} {todo : List String}
    {entry : Entry} (h : fs.walk true links here todo = .ok (.occupied place entry)) :
    fs.Leads links here (todo.filter Path.isStep) place entry := by
  fun_induction walk fs true links here todo with
  | case1 links here found hhere =>
      obtain ⟨rfl, rfl⟩ := Spot.occupied.inj (Except.ok.inj h)
      exact .arrived hhere
  | case6 links here name rest hhere hskip ih =>
      rw [List.filter_cons_of_neg (by simp [Path.isStep_eq_false_iff.2 hskip])]
      exact ih h
  | case7 links here rest hhere hskip ih =>
      rw [List.filter_cons_of_pos (Path.isStep_of_not hskip)]
      exact .up hhere (ih h)
  | case13 here name rest hhere hskip hup hsize target htarget hfollow links ih =>
      rw [List.filter_cons_of_pos (Path.isStep_of_not hskip)]
      refine .through hhere hup htarget ?_
      rw [Path.steps, ← List.filter_append]
      exact ih h
  | case14 links here name rest hhere hskip hup hsize found hlink hfound ih =>
      rw [List.filter_cons_of_pos (Path.isStep_of_not hskip)]
      exact .down hhere hup hfound (fun target => hlink target) (ih h)
  | case11 links here name rest hhere hskip hup hsize target htarget hfollow =>
      simp at hfollow
  | _ => cases h

/-- What a path leads to, it leads to by its steps. -/
theorem leads_of_stat {fs : FileSystem} {p : Path} {entry : Entry} (h : fs.stat p = .ok entry) :
    ∃ place, fs.Leads maxLinks (fs.startOf p) p.steps place entry := by
  obtain ⟨place, hspot⟩ := stat_eq_ok_iff.1 h
  exact ⟨place, leads_of_walk (walk_of_spot hspot)⟩

/-- Two spellings of one path that lead somewhere lead to the same entry. -/
theorem stat_eq_of_sameAs {fs : FileSystem} {p q : Path} {entry entry' : Entry}
    (hpq : p.SameAs q) (h : fs.stat p = .ok entry) (h' : fs.stat q = .ok entry') :
    entry = entry' := by
  obtain ⟨place, hplace⟩ := leads_of_stat h
  obtain ⟨place', hplace'⟩ := leads_of_stat h'
  rw [startOf, ← hpq.isAbsolute, ← hpq.steps] at hplace'
  exact (hplace.unique hplace').2

end FileSystem

end LiveExcerpts
