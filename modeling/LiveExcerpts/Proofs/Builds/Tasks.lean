import Mathlib.Algebra.GroupWithZero.Nat
import Mathlib.Data.Prod.Lex
import Mathlib.Logic.Relation
import LiveExcerpts.Proofs.Builds.AllOrNothing
/-!
# Builds as tasks

A build may work on its scenarios, and on the commands of each of them, in any order.  Every
scenario is a task, and while its commands are carried out so is each of them; all tasks work on
one file system and one extractor.  A step takes one task one step further: a command is located,
cut out or parted into segments; a scenario is read, rendered when all of its commands are
finished, has its directory made or its page written.  Whatever a step does to the files or to the
extractor it does as a whole; rendering touches neither, so a page is rendered in one step.

Main definitions: `Build.Job.advance`, `Build.Advances`, `Build.Step`.  Main statements: working on
the scenarios one after the other is one of the ways to do it (`Build.reaches_scenarios`), a build
that is not done can take a step (`Build.exists_step`), and no build goes on forever
(`Build.wellFounded_step`).
-/

namespace LiveExcerpts

namespace Build

/-! ## The tasks of commands -/

/-- How far the task of a command has come. -/
inductive Progress where
  /-- It has not begun. -/
  | waiting
  /-- It is known where to look. -/
  | located (location : Location) (extent : Extent)
  /-- The excerpt has been cut out. -/
  | cutOut (location : Location) (cutting : Cutting)
  /-- It has come to its end. -/
  | finished (outcome : Except Error (List String))

/-- The task of a command, at its position among the snippets of a scenario. -/
structure Job where
  /-- The position. -/
  position : Nat
  /-- The command line. -/
  raw : String
  /-- How far it has come. -/
  progress : Progress

namespace Job

/-- The tasks of the commands of a body, none of which has begun. -/
def ofBody (body : List String) : List Job :=
  (Snippet.commands (Snippet.classify body)).map fun (position, raw) => ⟨position, raw, .waiting⟩

/-- How far a command comes in one step. -/
def advance (grammars : Grammars) (fs : FileSystem) (scenario : Scenario) (raw : String)
    (x : Extractor) : Progress → Progress × Extractor
  | .waiting =>
    match Extractor.target fs x.settings scenario raw with
    | .error e => (.finished (.error (.commandFailed raw e)), x)
    | .ok (location, extent) => (.located location extent, x)
  | .located location extent =>
    match x.cut grammars fs location extent with
    | (.error e, x) => (.finished (.error (.commandFailed raw e)), x)
    | (.ok cutting, x) => (.cutOut location cutting, x)
  | .cutOut location cutting =>
    match x.segments cutting.text with
    | (.error e, x) => (.finished (.error (.commandFailed raw e)), x)
    | (.ok segments, x) =>
      (.finished (.ok (location.header x.settings.home cutting.line
        :: segments.map (Segment.toMarkdown cutting.fence))), x)
  | .finished outcome => (.finished outcome, x)

/-- The tasks have come to these outcomes, in the order of their positions. -/
def Finish (jobs : List Job) (finished : Finished (List String)) : Prop :=
  List.Forall₂ (fun job pair => job.position = pair.1 ∧ job.progress = .finished pair.2)
    jobs finished

end Job

/-! ## The tasks of scenarios -/

/-- How far the task of a scenario has come. -/
inductive Stage where
  /-- It has not begun. -/
  | waiting
  /-- Its commands are being carried out. -/
  | resolving (scenario : Scenario) (jobs : List Job)
  /-- The page is complete; its directory has to be made. -/
  | making (html : String)
  /-- The page has to be written. -/
  | writing (html : String)
  /-- It has come to its end. -/
  | finished (result : Except Error Path)

/-- The task of the scenario at a path takes one step. -/
inductive Advances (tools : Tools) (output path : Path) : State → Stage → State → Stage → Prop
  /-- The scenario cannot be read. -/
  | unread {s : State} {e : Error} : Scenario.read s.fs path = .error e →
      Advances tools output path s .waiting s (.finished (.error e))
  /-- The scenario is read, and its commands become tasks. -/
  | read {s : State} {sc : Scenario} : Scenario.read s.fs path = .ok sc →
      Advances tools output path s .waiting s (.resolving sc (Job.ofBody sc.body))
  /-- One of the commands takes a step. -/
  | command {s : State} {sc : Scenario} {before after : List Job} {position : Nat} {raw : String}
      {progress progress' : Progress} {x : Extractor} :
      (∀ outcome, progress ≠ .finished outcome) →
      Job.advance tools.grammars s.fs sc raw s.extractor progress = (progress', x) →
      Advances tools output path s
        (.resolving sc (before ++ ⟨position, raw, progress⟩ :: after)) ⟨s.fs, x⟩
        (.resolving sc (before ++ ⟨position, raw, progress'⟩ :: after))
  /-- All commands are finished, but the page cannot be made of them. -/
  | unrendered {s : State} {sc : Scenario} {jobs : List Job} {finished : Finished (List String)}
      {e : Error} : Job.Finish jobs finished →
      Page.html tools.renderer sc.body finished = .error e →
      Advances tools output path s (.resolving sc jobs) s (.finished (.error e))
  /-- All commands are finished, and the page is complete. -/
  | rendered {s : State} {sc : Scenario} {jobs : List Job} {finished : Finished (List String)}
      {html : String} : Job.Finish jobs finished →
      Page.html tools.renderer sc.body finished = .ok html →
      Advances tools output path s (.resolving sc jobs) s (.making html)
  /-- The directory of the pages cannot be made. -/
  | unmade {s : State} {html : String} {cause : IoCause} {fs : FileSystem} :
      s.fs.makeDirectories output = (.error cause, fs) →
      Advances tools output path s (.making html) ⟨fs, s.extractor⟩
        (.finished (.error (.io cause)))
  /-- The directory of the pages is there. -/
  | made {s : State} {html : String} {fs : FileSystem} :
      s.fs.makeDirectories output = (.ok (), fs) →
      Advances tools output path s (.making html) ⟨fs, s.extractor⟩ (.writing html)
  /-- The page cannot be written. -/
  | unwritten {s : State} {html : String} {cause : IoCause} {fs : FileSystem} :
      s.fs.writeText (Page.path output path) html = (.error cause, fs) →
      Advances tools output path s (.writing html) ⟨fs, s.extractor⟩
        (.finished (.error (.io cause)))
  /-- The page is written. -/
  | written {s : State} {html : String} {fs : FileSystem} :
      s.fs.writeText (Page.path output path) html = (.ok (), fs) →
      Advances tools output path s (.writing html) ⟨fs, s.extractor⟩
        (.finished (.ok (Page.path output path)))

/-! ## Runs of a build -/

/-- A build under way: what its tasks work on, and how far each of them has come. -/
structure World where
  /-- The files and the extractor. -/
  state : State
  /-- The tasks, in the order of the scenarios. -/
  tasks : List (Path × Stage)

/-- A build that has not begun. -/
def World.start (paths : List Path) (s : State) : World :=
  ⟨s, paths.map fun path => (path, .waiting)⟩

/-- All tasks have come to their ends, with these results. -/
def World.Done (w : World) (results : List (Except Error Path)) : Prop :=
  w.tasks.map Prod.snd = results.map .finished

/-- One task takes a step; the others wait. -/
inductive Step (tools : Tools) (output : Path) : World → World → Prop
  | task {s s' : State} {before after : List (Path × Stage)} {path : Path} {stage stage' : Stage} :
      Advances tools output path s stage s' stage' →
      Step tools output ⟨s, before ++ (path, stage) :: after⟩
        ⟨s', before ++ (path, stage') :: after⟩

/-- Steps lead from one point of a build to another. -/
abbrev Reaches (tools : Tools) (output : Path) : World → World → Prop :=
  Relation.ReflTransGen (Step tools output)

variable {tools : Tools} {output path : Path} {s : State}

/-! ## One task after the other -/

section Sequential

variable {before after : List (Path × Stage)}

/-- A step of a task among others. -/
theorem Advances.reaches {s' : State} {stage stage' : Stage}
    (h : Advances tools output path s stage s' stage') :
    Reaches tools output ⟨s, before ++ (path, stage) :: after⟩
      ⟨s', before ++ (path, stage') :: after⟩ :=
  .single (.task h)

/-- A command is carried out in one to three steps. -/
theorem reaches_carryOut (sc : Scenario) (first last : List Job) (position : Nat) (raw : String) :
    Reaches tools output
      ⟨s, before ++ (path, .resolving sc (first ++ ⟨position, raw, .waiting⟩ :: last)) :: after⟩
      ⟨⟨s.fs, (s.extractor.carryOut tools.grammars s.fs sc raw).2⟩,
        before ++ (path, .resolving sc (first ++ ⟨position, raw,
          .finished (s.extractor.carryOut tools.grammars s.fs sc raw).1⟩ :: last)) :: after⟩ := by
  have hstep : ∀ (progress : Progress) {progress' : Progress} {x y : Extractor},
      (∀ outcome, progress ≠ .finished outcome) →
      Job.advance tools.grammars s.fs sc raw x progress = (progress', y) →
      Reaches tools output
        ⟨⟨s.fs, x⟩, before ++ (path, .resolving sc (first ++ ⟨position, raw, progress⟩ :: last)) ::
          after⟩
        ⟨⟨s.fs, y⟩, before ++ (path, .resolving sc (first ++ ⟨position, raw, progress'⟩ :: last)) ::
          after⟩ := fun _ _ _ _ hne hadvance => Advances.reaches (.command hne hadvance)
  rw [Extractor.carryOut_eq]
  cases htarget : Extractor.target s.fs s.extractor.settings sc raw with
  | error e =>
      apply hstep .waiting nofun
      simp only [Job.advance, htarget]
  | ok found =>
      obtain ⟨location, extent⟩ := found
      have hlocated : Job.advance tools.grammars s.fs sc raw s.extractor .waiting =
          (.located location extent, s.extractor) := by
        simp only [Job.advance, htarget]
      refine .trans (hstep .waiting nofun hlocated) ?_
      dsimp only
      unfold Extractor.excerpt
      cases hcut : s.extractor.cut tools.grammars s.fs location extent with
      | mk result x =>
          cases result with
          | error e =>
              apply hstep (.located location extent) nofun
              simp only [Job.advance, hcut]
              rfl
          | ok cutting =>
              have hcutOut : Job.advance tools.grammars s.fs sc raw s.extractor
                  (.located location extent) = (.cutOut location cutting, x) := by
                simp only [Job.advance, hcut]
              refine .trans (hstep (.located location extent) nofun hcutOut) ?_
              apply hstep (.cutOut location cutting) nofun
              cases hsegments : x.segments cutting.text with
              | mk result y => cases result <;> simp only [Job.advance, hsegments] <;> rfl

/-- Commands are carried out one after the other. -/
theorem reaches_runTasks (sc : Scenario) (commands : List (Nat × String)) (first : List Job)
    (x : Extractor) :
    ∃ jobs, Job.Finish jobs
        (runTasks (Extractor.carryOut tools.grammars s.fs sc) commands x).1 ∧
      Reaches tools output
        ⟨⟨s.fs, x⟩, before ++ (path, .resolving sc
          (first ++ commands.map fun (position, raw) => ⟨position, raw, .waiting⟩)) :: after⟩
        ⟨⟨s.fs, (runTasks (Extractor.carryOut tools.grammars s.fs sc) commands x).2⟩,
          before ++ (path, .resolving sc (first ++ jobs)) :: after⟩ := by
  induction commands generalizing first x with
  | nil => exact ⟨[], .nil, .refl⟩
  | cons command rest ih =>
      obtain ⟨position, raw⟩ := command
      -- The command joins those that are finished, and the rest is carried out after it.
      obtain ⟨jobs, hjobs, hreaches⟩ := ih
        (first ++ [⟨position, raw, .finished (x.carryOut tools.grammars s.fs sc raw).1⟩])
        (x.carryOut tools.grammars s.fs sc raw).2
      have hcommand := @reaches_carryOut tools output path ⟨s.fs, x⟩ before after sc first
        (rest.map fun (position, raw) => ⟨position, raw, .waiting⟩) position raw
      refine ⟨⟨position, raw, .finished (x.carryOut tools.grammars s.fs sc raw).1⟩ :: jobs,
        .cons ⟨rfl, rfl⟩ hjobs, ?_⟩
      simp only [List.append_assoc, List.singleton_append] at hreaches
      exact hcommand.trans hreaches

/-- The page of a scenario whose commands are finished is made and written. -/
theorem reaches_finish {sc : Scenario} {jobs : List Job} {finished : Finished (List String)}
    (hjobs : Job.Finish jobs finished) :
    Reaches tools output ⟨s, before ++ (path, .resolving sc jobs) :: after⟩
      ⟨⟨(finish tools output path sc finished s.fs).2, s.extractor⟩,
        before ++ (path, .finished (finish tools output path sc finished s.fs).1) :: after⟩ := by
  unfold finish
  cases hhtml : Page.html tools.renderer sc.body finished with
  | error e => exact Advances.reaches (.unrendered hjobs hhtml)
  | ok html =>
      refine .trans (Advances.reaches (.rendered hjobs hhtml)) ?_
      dsimp only
      unfold Page.write
      cases hmake : s.fs.makeDirectories output with
      | mk result fs =>
          cases result with
          | error cause => exact Advances.reaches (.unmade hmake)
          | ok _ =>
              refine .trans (Advances.reaches (.made hmake)) ?_
              dsimp only
              cases hwrite : fs.writeText (Page.path output path) html with
              | mk result fs' =>
                  cases result with
                  | error cause => exact Advances.reaches (.unwritten hwrite)
                  | ok _ => exact Advances.reaches (.written hwrite)

/-- **A scenario is worked on from beginning to end**, while all others wait. -/
theorem reaches_scenario (tools : Tools) (output path : Path) (s : State) :
    Reaches tools output ⟨s, before ++ (path, .waiting) :: after⟩
      ⟨(scenario tools output path s).2,
        before ++ (path, .finished (scenario tools output path s).1) :: after⟩ := by
  rw [scenario_eq]
  cases hread : Scenario.read s.fs path with
  | error e => exact Advances.reaches (.unread hread)
  | ok sc =>
      obtain ⟨jobs, hjobs, hreaches⟩ := @reaches_runTasks tools output path s before after sc
        (Snippet.commands (Snippet.classify sc.body)) [] s.extractor
      exact .trans (Advances.reaches (.read hread)) (.trans hreaches (reaches_finish hjobs))

end Sequential

theorem scenarios_cons (tools : Tools) (output path : Path) (rest : List Path) (s : State) :
    scenarios tools output (path :: rest) s =
      ((scenario tools output path s).1 ::
          (scenarios tools output rest (scenario tools output path s).2).1,
        (scenarios tools output rest (scenario tools output path s).2).2) := rfl

/-- Scenarios are worked on one after the other, when all before them have come to their ends. -/
theorem reaches_scenarios_after (tools : Tools) (output : Path) (before : List (Path × Stage))
    (paths : List Path) (s : State) :
    ∃ tasks, Reaches tools output ⟨s, before ++ paths.map fun path => (path, .waiting)⟩
        ⟨(scenarios tools output paths s).2, tasks⟩ ∧
      tasks.map Prod.snd =
        before.map Prod.snd ++ (scenarios tools output paths s).1.map .finished := by
  induction paths generalizing before s with
  | nil => exact ⟨before, by simpa using .refl, by simp [scenarios]⟩
  | cons path rest ih =>
      obtain ⟨tasks, hreaches, htasks⟩ := ih
        (before ++ [(path, .finished (scenario tools output path s).1)])
        (scenario tools output path s).2
      refine ⟨tasks, (reaches_scenario tools output path s).trans ?_, ?_⟩
      · simpa [scenarios_cons] using hreaches
      · simpa [scenarios_cons] using htasks

/-- **Working on the scenarios one after the other** is one of the ways to build. -/
theorem reaches_scenarios (tools : Tools) (output : Path) (paths : List Path) (s : State) :
    ∃ w, Reaches tools output (.start paths s) w ∧ w.Done (scenarios tools output paths s).1 ∧
      w.state = (scenarios tools output paths s).2 := by
  obtain ⟨tasks, hreaches, htasks⟩ := reaches_scenarios_after tools output [] paths s
  exact ⟨_, hreaches, htasks, rfl⟩

/-! ## No task is ever stuck -/

/-- Either all commands are finished, or one of them is not. -/
theorem exists_finish_or (jobs : List Job) :
    (∃ finished, Job.Finish jobs finished) ∨ ∃ before job after,
      jobs = before ++ job :: after ∧ ∀ outcome, job.progress ≠ .finished outcome := by
  induction jobs with
  | nil => exact .inl ⟨[], .nil⟩
  | cons job rest ih =>
      by_cases hjob : ∃ outcome, job.progress = .finished outcome
      · obtain ⟨outcome, hjob⟩ := hjob
        rcases ih with ⟨finished, hrest⟩ | ⟨before, other, after, rfl, hother⟩
        · exact .inl ⟨(job.position, outcome) :: finished, .cons ⟨rfl, hjob⟩ hrest⟩
        · exact .inr ⟨job :: before, other, after, rfl, hother⟩
      · exact .inr ⟨[], job, rest, rfl, fun outcome h => hjob ⟨outcome, h⟩⟩

/-- A task that has not come to its end can take a step. -/
theorem exists_advances (tools : Tools) (output path : Path) (s : State) {stage : Stage}
    (h : ∀ result, stage ≠ .finished result) :
    ∃ s' stage', Advances tools output path s stage s' stage' := by
  cases stage with
  | waiting =>
      cases hread : Scenario.read s.fs path with
      | error e => exact ⟨_, _, .unread hread⟩
      | ok sc => exact ⟨_, _, .read hread⟩
  | resolving sc jobs =>
      rcases exists_finish_or jobs with ⟨finished, hjobs⟩ | ⟨before, job, after, rfl, hjob⟩
      · cases hhtml : Page.html tools.renderer sc.body finished with
        | error e => exact ⟨_, _, .unrendered hjobs hhtml⟩
        | ok html => exact ⟨_, _, .rendered hjobs hhtml⟩
      · exact ⟨_, _, .command hjob rfl⟩
  | making html =>
      cases hmake : s.fs.makeDirectories output with
      | mk result fs =>
          cases result with
          | error cause => exact ⟨_, _, .unmade hmake⟩
          | ok _ => exact ⟨_, _, .made hmake⟩
  | writing html =>
      cases hwrite : s.fs.writeText (Page.path output path) html with
      | mk result fs =>
          cases result with
          | error cause => exact ⟨_, _, .unwritten hwrite⟩
          | ok _ => exact ⟨_, _, .written hwrite⟩
  | finished result => exact absurd rfl (h result)

/-- **A build that is not done can go on.** -/
theorem exists_step (tools : Tools) (output : Path) (w : World) :
    (∃ results, w.Done results) ∨ ∃ w', Step tools output w w' := by
  obtain ⟨s, tasks⟩ := w
  have hsplit : (∃ results : List (Except Error Path), tasks.map Prod.snd = results.map .finished) ∨
      ∃ before task after, tasks = before ++ task :: after ∧
        ∀ result, task.2 ≠ .finished result := by
    induction tasks with
    | nil => exact .inl ⟨[], rfl⟩
    | cons task rest ih =>
        by_cases htask : ∃ result, task.2 = .finished result
        · obtain ⟨result, htask⟩ := htask
          rcases ih with ⟨results, hrest⟩ | ⟨before, other, after, rfl, hother⟩
          · exact .inl ⟨result :: results, by rw [List.map_cons, htask, hrest]; rfl⟩
          · exact .inr ⟨task :: before, other, after, rfl, hother⟩
        · exact .inr ⟨[], task, rest, rfl, fun result h => htask ⟨result, h⟩⟩
  rcases hsplit with ⟨results, hresults⟩ | ⟨before, ⟨path, stage⟩, after, rfl, htask⟩
  · exact .inl ⟨results, hresults⟩
  · obtain ⟨s', stage', hadvances⟩ := exists_advances tools output path s htask
    exact .inr ⟨_, .task hadvances⟩

/-! ## No build goes on forever -/

/-- The most steps that the task of a command can still take. -/
def Progress.weight : Progress → Nat
  | .waiting => 3
  | .located _ _ => 2
  | .cutOut _ _ => 1
  | .finished _ => 0

theorem Progress.weight_advance_lt {grammars : Grammars} {fs : FileSystem} {sc : Scenario}
    {raw : String} {x x' : Extractor} {progress progress' : Progress}
    (h : ∀ outcome, progress ≠ .finished outcome)
    (hadvance : Job.advance grammars fs sc raw x progress = (progress', x')) :
    progress'.weight < progress.weight := by
  cases progress with
  | finished outcome => exact absurd rfl (h outcome)
  | _ =>
      simp only [Job.advance] at hadvance
      split at hadvance
      all_goals
        obtain ⟨rfl, -⟩ := Prod.mk.inj hadvance
        simp only [Progress.weight, Nat.reduceLT]

/-- One for a task that has not begun. -/
def Stage.fresh : Stage → Nat
  | .waiting => 1
  | _ => 0

/-- The most steps that a task that has begun can still take. -/
def Stage.weight : Stage → Nat
  | .waiting => 0
  | .resolving _ jobs => (jobs.map fun job => job.progress.weight).sum + 3
  | .making _ => 2
  | .writing _ => 1
  | .finished _ => 0

/-- How far a task is from its end.  What a scenario asks for is not known before it has been read,
so tasks that have not begun count first. -/
def Stage.rank (stage : Stage) : Nat ×ₗ Nat := toLex (stage.fresh, stage.weight)

/-- **A step brings a task nearer to its end.** -/
theorem Advances.rank_lt {s' : State} {stage stage' : Stage}
    (h : Advances tools output path s stage s' stage') : stage'.rank < stage.rank := by
  unfold Stage.rank
  rw [Prod.Lex.toLex_lt_toLex]
  cases h with
  | unread _ => exact .inl Nat.zero_lt_one
  | read _ => exact .inl Nat.zero_lt_one
  | command hne hadvance =>
      -- The other commands of the scenario keep their weights.
      have hweight := Progress.weight_advance_lt hne hadvance
      refine .inr ⟨rfl, ?_⟩
      simp only [Stage.weight, List.map_append, List.map_cons, List.sum_append, List.sum_cons]
      omega
  | unrendered _ _ => exact .inr ⟨rfl, Nat.succ_pos _⟩
  | rendered _ _ =>
      refine .inr ⟨rfl, ?_⟩
      simp only [Stage.weight]
      omega
  | unmade _ => exact .inr ⟨rfl, Nat.succ_pos _⟩
  | made _ => exact .inr ⟨rfl, Nat.lt_succ_self _⟩
  | unwritten _ => exact .inr ⟨rfl, Nat.succ_pos _⟩
  | written _ => exact .inr ⟨rfl, Nat.succ_pos _⟩

/-- How far the tasks of a build are from their ends. -/
def World.rank (w : World) : Nat ×ₗ Nat :=
  toLex ((w.tasks.map fun task => task.2.fresh).sum, (w.tasks.map fun task => task.2.weight).sum)

theorem Step.rank_lt {w w' : World} (h : Step tools output w w') : w'.rank < w.rank := by
  obtain ⟨hadvances⟩ := h
  have hrank := hadvances.rank_lt
  unfold Stage.rank at hrank
  unfold World.rank
  rw [Prod.Lex.toLex_lt_toLex] at hrank ⊢
  simp only [List.map_append, List.map_cons, List.sum_append, List.sum_cons]
  omega

/-- **Every build comes to its end**, whichever tasks take the next steps. -/
theorem wellFounded_step (tools : Tools) (output : Path) :
    WellFounded fun w' w => Step tools output w w' :=
  Subrelation.wf (fun h => h.rank_lt) (InvImage.wf World.rank wellFounded_lt)

/-- A build under way can be brought to its end. -/
theorem exists_reaches_done (tools : Tools) (output : Path) (w : World) :
    ∃ w' results, Reaches tools output w w' ∧ w'.Done results := by
  induction w using (wellFounded_step tools output).induction with
  | _ w ih =>
    rcases exists_step tools output w with ⟨results, hdone⟩ | ⟨next, hstep⟩
    · exact ⟨w, results, .refl, hdone⟩
    · obtain ⟨w', results, hreaches, hdone⟩ := ih next hstep
      exact ⟨w', results, .head hstep hreaches, hdone⟩

end Build

end LiveExcerpts
