import LiveExcerpts.Proofs.Builds.Paged
import LiveExcerpts.Proofs.Builds.Tasks
/-!
# The invariant of a build

The invariant of a build under way says of every task how far it has come in terms of the files and
the extractor that the build began with: a command has come to what it comes to alone, a complete
page is the page that its scenario has then, and the files are the first files, with the directory
of pages made and the written pages on top.

Main definitions: `Build.Begins`, `Build.Valid`.  Main statements:
`Build.Progress.Sound.advance`, `Build.Valid.step`, `Build.exists_valid_of_reaches`.
-/

namespace LiveExcerpts

namespace Build

/-- The directory of pages can be made, and then the page of a scenario can be written. -/
def Writable (output : Path) (fs : FileSystem) (path : Path) : Prop :=
  (fs.makeDirectories output).1 = .ok () ∧ Fits output (fs.makeDirectories output).2 path

/-! ## The invariant -/

/-- A command has come to what it comes to on the files and the extractor of a state. -/
inductive Progress.Sound (tools : Tools) (s₀ : State) (sc : Scenario) (raw : String) :
    Progress → Prop
  | waiting : Sound tools s₀ sc raw .waiting
  | located {location : Location} {extent : Extent} :
      Extractor.target s₀.fs s₀.extractor.settings sc raw = .ok (location, extent) →
      Sound tools s₀ sc raw (.located location extent)
  | cutOut {location : Location} {extent : Extent} {cutting : Cutting} :
      Extractor.target s₀.fs s₀.extractor.settings sc raw = .ok (location, extent) →
      (s₀.extractor.cut tools.grammars s₀.fs location extent).1 = .ok cutting →
      Sound tools s₀ sc raw (.cutOut location cutting)
  | finished {outcome : Except Error (List String)} :
      Extractor.SameAnswer raw outcome (answers tools s₀.fs s₀.extractor sc raw) →
      Sound tools s₀ sc raw (.finished outcome)

/-- A scenario has come as far as it does from a state, where `made` says whether any task has
tried to make the directory of pages. -/
inductive Stage.Sound (tools : Tools) (output : Path) (s₀ : State) (path : Path) :
    Bool → Stage → Prop
  | waiting {made : Bool} : Sound tools output s₀ path made .waiting
  | resolving {made : Bool} {sc : Scenario} {jobs : List Job} :
      Scenario.read s₀.fs path = .ok sc →
      jobs.map (fun job => (job.position, job.raw)) =
        Snippet.commands (Snippet.classify sc.body) →
      (∀ job ∈ jobs, job.progress.Sound tools s₀ sc job.raw) →
      Sound tools output s₀ path made (.resolving sc jobs)
  | making {made : Bool} {html : String} : pageOf tools s₀ path = .ok html →
      Sound tools output s₀ path made (.making html)
  | writing {html : String} : pageOf tools s₀ path = .ok html →
      (s₀.fs.makeDirectories output).1 = .ok () → Sound tools output s₀ path true (.writing html)
  | failed {made : Bool} {e e₀ : Error} : pageOf tools s₀ path = .error e₀ → e.SameAs e₀ →
      Sound tools output s₀ path made (.finished (.error e))
  | unwritten {html : String} {cause : IoCause} : pageOf tools s₀ path = .ok html →
      ¬ Writable output s₀.fs path →
      Sound tools output s₀ path true (.finished (.error (.io cause)))
  | written {html : String} : pageOf tools s₀ path = .ok html → Writable output s₀.fs path →
      Sound tools output s₀ path true (.finished (.ok (Page.path output path)))

theorem Stage.Sound.made {tools : Tools} {output path : Path} {s₀ : State} {made : Bool}
    {stage : Stage} (h : stage.Sound tools output s₀ path made) :
    stage.Sound tools output s₀ path true := by
  cases h with
  | waiting => exact .waiting
  | resolving hread hjobs hsound => exact .resolving hread hjobs hsound
  | making hpage => exact .making hpage
  | writing hpage hmade => exact .writing hpage hmade
  | failed hpage he => exact .failed hpage he
  | unwritten hpage hnot => exact .unwritten hpage hnot
  | written hpage hfits => exact .written hpage hfits

/-- The pages of the scenarios among some tasks that have succeeded. -/
def Pages (tools : Tools) (output : Path) (s₀ : State) (tasks : List (Path × Stage))
    (place : Place) (html : String) : Prop :=
  ∃ path target, (path, .finished (.ok target)) ∈ tasks ∧
    place = s₀.fs.placeOf (Page.path output path) ∧ pageOf tools s₀ path = .ok html

/-- The files of a build under way. -/
inductive Files (tools : Tools) (output : Path) (paths : List Path) (s₀ : State)
    (pages : Place → String → Prop) : Bool → FileSystem → Prop
  /-- No task has got as far as to its page. -/
  | untouched : Files tools output paths s₀ pages false s₀.fs
  /-- The directory of pages could not be made. -/
  | unprepared {cause : IoCause} {fs₁ : FileSystem} :
      (∃ path ∈ paths, ∃ html, pageOf tools s₀ path = .ok html) →
      s₀.fs.makeDirectories output = (.error cause, fs₁) →
      Files tools output paths s₀ pages true fs₁
  /-- The directory of pages has been made, and the pages are in it. -/
  | prepared {fs₁ fs : FileSystem} :
      (∃ path ∈ paths, ∃ html, pageOf tools s₀ path = .ok html) →
      s₀.fs.makeDirectories output = (.ok (), fs₁) → Paged fs₁ pages fs →
      Files tools output paths s₀ pages true fs

/-- **The invariant of a build** of some scenarios that began at `s₀`. -/
structure Valid (tools : Tools) (output : Path) (paths : List Path) (s₀ : State) (made : Bool)
    (w : World) : Prop where
  /-- There is a task for every scenario. -/
  scenarios : w.tasks.map Prod.fst = paths
  /-- The extractor knows the same as the first one. -/
  extractor : w.state.extractor.SameAs tools.grammars s₀.fs s₀.extractor
  /-- Every task has come as far as it does from `s₀`. -/
  tasks : ∀ task ∈ w.tasks, task.2.Sound tools output s₀ task.1 made
  /-- The files are the first files with the pages on top. -/
  files : Files tools output paths s₀ (Pages tools output s₀ w.tasks) made w.state.fs

/-- What a build begins with. -/
structure Begins (output : Path) (paths : List Path) (s₀ : State) : Prop where
  /-- The files are a tree without links. -/
  plain : s₀.fs.IsPlain
  /-- The scenarios have different names. -/
  names : (paths.filterMap Path.fileName?).Nodup
  /-- What is read lies apart from what is written. -/
  apart : Apart output paths s₀.extractor.settings s₀.fs
  /-- What is read does not lead through directories that are made. -/
  staysOut : StaysOut output paths s₀.extractor.settings s₀.fs

variable {tools : Tools} {output path : Path} {paths : List Path} {s₀ s : State} {made : Bool}

theorem valid_start (tools : Tools) (output : Path) (paths : List Path) (s₀ : State) :
    Valid tools output paths s₀ false (.start paths s₀) := by
  refine ⟨?_, .refl _, fun task htask => ?_, .untouched⟩
  · simp [World.start, Function.comp_def]
  · obtain ⟨path, -, rfl⟩ := List.mem_map.1 htask
    exact .waiting

/-! ## Commands -/

section Commands

variable {fs : FileSystem} {sc : Scenario} {raw : String} {x x' : Extractor}
  {progress progress' : Progress}

/-- **A command comes to the same at any time of the build.** -/
theorem Progress.Sound.advance (hbegins : Begins output paths s₀)
    (hfs : Evolved output paths s₀.fs fs) (hx : x.SameAs tools.grammars s₀.fs s₀.extractor)
    (hpath : path ∈ paths) (hread : Scenario.read s₀.fs path = .ok sc)
    (hraw : .command raw ∈ Snippet.classify sc.body) (h : progress.Sound tools s₀ sc raw)
    (hadvance : Job.advance tools.grammars fs sc raw x progress = (progress', x')) :
    progress'.Sound tools s₀ sc raw ∧ x'.SameAs tools.grammars s₀.fs s₀.extractor := by
  cases h with
  | waiting =>
      have htarget := hfs.target_eq hbegins.plain hbegins.apart hbegins.staysOut hpath hread hraw
      simp only [Job.advance, hx.settings, htarget] at hadvance
      split at hadvance
      · next e he =>
          obtain ⟨rfl, rfl⟩ := Prod.mk.inj hadvance
          refine ⟨.finished ?_, hx⟩
          unfold answers
          rw [Extractor.carryOut_eq, he]
          exact .failed (.refl e)
      · next location extent hfound =>
          obtain ⟨rfl, rfl⟩ := Prod.mk.inj hadvance
          exact ⟨.located hfound, hx⟩
  | @located location extent htarget =>
      have hfile := Extractor.isFile_of_target htarget
      have hcut := hfs.cut_eq hbegins.plain hbegins.apart hbegins.staysOut
        (reads_of_target hpath hread hraw htarget) hfile tools.grammars extent x
      have halike := hx.cut hfile extent
      have hsame : (x.cut tools.grammars s₀.fs location extent).2.SameAs tools.grammars s₀.fs x :=
        Extractor.sameAs_cut hfile extent x
      simp only [Job.advance, hcut] at hadvance
      -- The first extractor cuts out the same, but may know the file by another spelling.
      generalize x.cut tools.grammars s₀.fs location extent = found at hadvance halike hsame
      obtain ⟨e | cutting, y⟩ := found
      · obtain ⟨rfl, rfl⟩ := Prod.mk.inj hadvance
        refine ⟨.finished ?_, hsame.trans hx⟩
        rw [answers_eq htarget]
        generalize (s₀.extractor.cut tools.grammars s₀.fs location extent).1 = first at halike
        cases halike with
        | error he => exact .failed he
      · obtain ⟨rfl, rfl⟩ := Prod.mk.inj hadvance
        exact ⟨.cutOut htarget ((halike.exists_ok_iff cutting).1 rfl), hsame.trans hx⟩
  | @cutOut location extent cutting htarget hcut =>
      obtain ⟨reader, -, hsegments⟩ := x.exists_segments_eq cutting.text
      have hsame : (x.segments cutting.text).2.SameAs tools.grammars s₀.fs x :=
        x.sameAs_segments cutting.text
      rw [hsegments] at hsame
      simp only [Job.advance, hsegments] at hadvance
      obtain ⟨rfl, rfl⟩ := Prod.mk.inj hadvance
      refine ⟨.finished ?_, hsame.trans hx⟩
      rw [answers_eq htarget, hcut, hx.settings, hx.pieces]
      exact .fragments _
  | @finished outcome hanswer =>
      obtain ⟨rfl, rfl⟩ := Prod.mk.inj hadvance
      exact ⟨.finished hanswer, hx⟩

/-- One of the commands of a scenario has taken a step. -/
theorem Stage.Sound.command (hbegins : Begins output paths s₀)
    (hfs : Evolved output paths s₀.fs fs) (hx : x.SameAs tools.grammars s₀.fs s₀.extractor)
    (hpath : path ∈ paths) {first last : List Job} {position : Nat}
    (h : Stage.Sound tools output s₀ path made
      (.resolving sc (first ++ ⟨position, raw, progress⟩ :: last)))
    (hadvance : Job.advance tools.grammars fs sc raw x progress = (progress', x')) :
    Stage.Sound tools output s₀ path made
        (.resolving sc (first ++ ⟨position, raw, progress'⟩ :: last)) ∧
      x'.SameAs tools.grammars s₀.fs s₀.extractor := by
  cases h with
  | resolving hsc hjobs hsound =>
      have hposition : (position, raw) ∈ Snippet.commands (Snippet.classify sc.body) := by
        rw [← hjobs]
        simp
      have hraw := List.fst_mem_of_mem_zipIdx (Snippet.mem_commands_iff.1 hposition)
      obtain ⟨hprogress, hx'⟩ := (hsound ⟨position, raw, progress⟩ (by simp)).advance hbegins hfs hx
        hpath hsc hraw hadvance
      refine ⟨.resolving hsc ?_ fun job hjob => ?_, hx'⟩
      · rw [← hjobs]
        simp
      · rw [List.mem_append, List.mem_cons] at hjob
        rcases hjob with hjob | rfl | hjob
        · exact hsound job (by simp [hjob])
        · exact hprogress
        · exact hsound job (by simp [hjob])

end Commands

/-- The outcomes of finished tasks stand under the positions of the tasks. -/
theorem Job.Finish.map_fst {jobs : List Job} {finished : Finished (List String)}
    (h : Job.Finish jobs finished) : finished.map Prod.fst = jobs.map Job.position := by
  induction h with
  | nil => rfl
  | cons hfirst _ ih => rw [List.map_cons, List.map_cons, ih, hfirst.1]

/-- **When the commands of a scenario are finished, its page is what it is from the start.** -/
theorem Stage.Sound.alike_pageOf {sc : Scenario} {jobs : List Job}
    {finished : Finished (List String)}
    (h : Stage.Sound tools output s₀ path made (.resolving sc jobs))
    (hfinish : Job.Finish jobs finished) :
    Alike Eq (Page.html tools.renderer sc.body finished) (pageOf tools s₀ path) := by
  cases h with
  | resolving hsc hjobs hsound =>
      have hnodup : (finished.map Prod.fst).Nodup := by
        have hcommands := Snippet.nodup_fst_commands (Snippet.classify sc.body)
        rw [← hjobs, List.map_map] at hcommands
        rw [hfinish.map_fst]
        exact hcommands
      rw [pageOf_of_read hsc]
      apply Page.html_alike
      intro raw position hmem
      rw [← Snippet.mem_commands_iff, ← hjobs] at hmem
      obtain ⟨job, hjob, heq⟩ := List.mem_map.1 hmem
      obtain ⟨rfl, rfl⟩ := Prod.mk.inj heq
      obtain ⟨⟨position, outcome⟩, hfound, hposition, hprogress⟩ :=
        exists_mem_of_forall₂ hfinish hjob
      obtain rfl : job.position = position := hposition
      have hanswer := hsound job hjob
      rw [hprogress] at hanswer
      cases hanswer with
      | finished hanswer => exact ⟨outcome, lookup_eq_some_of_mem hnodup hfound, hanswer.alike⟩

/-! ## Files -/

section Files

variable {pages : Place → String → Prop} {fs fs' : FileSystem} {html : String}

/-- **Whatever has been made and written so far, it lies apart from what is read.** -/
theorem Files.evolved (h : Files tools output paths s₀ pages made fs) (hplain : s₀.fs.IsPlain)
    (hpages : ArePages output paths (s₀.fs.makeDirectories output).2 pages) :
    Evolved output paths s₀.fs fs := by
  cases h with
  | untouched => exact ⟨hplain, rfl, fun _ _ _ => rfl, fun _ h => h, fun _ h => .inl h⟩
  | unprepared _ hmake => exact Paged.evolved hplain hmake (.refl fs) nofun
  | prepared _ hmake hpaged =>
      rw [hmake] at hpages
      exact hpaged.evolved hplain hmake hpages

/-- **Making the directory of pages comes to success or failure as it did the first time.** -/
theorem Files.make (h : Files tools output paths s₀ pages made fs) (hplain : s₀.fs.IsPlain)
    (hpages : ArePages output paths (s₀.fs.makeDirectories output).2 pages)
    (hnone : made = false → ∀ place html, ¬ pages place html) (hpath : path ∈ paths)
    (hpage : pageOf tools s₀ path = .ok html) {result : Except IoCause Unit}
    (hmake : fs.makeDirectories output = (result, fs')) :
    Files tools output paths s₀ pages true fs' ∧
      (result = .ok () ↔ (s₀.fs.makeDirectories output).1 = .ok ()) := by
  cases h with
  | untouched =>
      rw [hmake]
      refine ⟨?_, Iff.rfl⟩
      cases result with
      | error cause => exact .unprepared ⟨path, hpath, html, hpage⟩ hmake
      | ok _ =>
          have hpages : pages = fun _ _ => False := by
            funext place html
            exact eq_false (hnone rfl place html)
          exact .prepared ⟨path, hpath, html, hpage⟩ hmake (hpages ▸ .refl fs')
  | unprepared hsome hfirst =>
      -- The first attempt may have made some of the directories, but all that could be made.
      obtain ⟨again, hagain⟩ := hplain.makeDirectories_again hfirst
      obtain ⟨rfl, rfl⟩ := Prod.mk.inj (hagain.symm.trans hmake)
      exact ⟨.unprepared hsome hfirst, by simp [hfirst]⟩
  | prepared hsome hfirst hpaged =>
      rw [hfirst] at hpages
      obtain ⟨hplain₁, hready⟩ := hplain.isPlain_of_makeDirectories hfirst
      -- Pages are no directories, so whatever was made is still there.
      have hthere := (hpaged.isPlain hpages hplain₁).makeDirectories_of_ready
        (hpaged.ready hpages hplain₁ (hready rfl))
      obtain ⟨rfl, rfl⟩ := Prod.mk.inj (hthere.symm.trans hmake)
      exact ⟨.prepared hsome hfirst hpaged, by simp [hfirst]⟩

/-- The directory of pages is not asked for before there is a page. -/
theorem Files.exists_page (h : Files tools output paths s₀ pages true fs) :
    ∃ path ∈ paths, ∃ html, pageOf tools s₀ path = .ok html := by
  cases h with
  | unprepared hsome _ => exact hsome
  | prepared hsome _ _ => exact hsome

/-- The files when the directory of pages is there: a tree with the pages on top, where it can be
told at any time which pages can be written. -/
structure Prepared (output : Path) (s₀ : State) (pages : Place → String → Prop)
    (fs₁ fs : FileSystem) : Prop where
  /-- The directory of pages was made. -/
  make : s₀.fs.makeDirectories output = (.ok (), fs₁)
  /-- The pages are on top. -/
  paged : Paged fs₁ pages fs
  /-- It is a tree without links. -/
  plain : fs.IsPlain
  /-- Which pages can be written. -/
  writable_iff : ∀ path, Writable output s₀.fs path ↔ Fits output fs path
  /-- Paths lead to the same places as at the beginning. -/
  placeOf : ∀ p, fs.placeOf p = s₀.fs.placeOf p

theorem Files.exists_prepared (h : Files tools output paths s₀ pages true fs)
    (hplain : s₀.fs.IsPlain) (hpages : ArePages output paths (s₀.fs.makeDirectories output).2 pages)
    (hmade : (s₀.fs.makeDirectories output).1 = .ok ()) :
    ∃ fs₁, Prepared output s₀ pages fs₁ fs := by
  cases h with
  | unprepared _ hmake =>
      rw [hmake] at hmade
      cases hmade
  | @prepared fs₁ fs _ hmake hpaged =>
      rw [hmake] at hpages
      have hplain₁ := (hplain.isPlain_of_makeDirectories hmake).1
      have hmore := s₀.fs.moreDirectories_makeDirectories output
      rw [hmake] at hmore
      refine ⟨fs₁, hmake, hpaged, hpaged.isPlain hpages hplain₁, fun path => ?_,
        FileSystem.placeOf_congr (hpaged.workingDirectory.trans hmore.workingDirectory)⟩
      rw [hpaged.fits_iff hpages]
      unfold Writable
      rw [hmake]
      exact and_iff_right rfl

/-- A page that is written is one more page on top. -/
theorem Files.written (h : Files tools output paths s₀ pages true fs) (hplain : s₀.fs.IsPlain)
    (hpages : ArePages output paths (s₀.fs.makeDirectories output).2 pages)
    (hmade : (s₀.fs.makeDirectories output).1 = .ok ())
    (hother : ∀ other, pages (s₀.fs.placeOf (Page.path output path)) other → other = html)
    (hwrite : fs.writeText (Page.path output path) html = (.ok (), fs')) :
    Writable output s₀.fs path ∧ Files tools output paths s₀ (fun place text =>
      pages place text ∨ place = s₀.fs.placeOf (Page.path output path) ∧ text = html) true fs' := by
  obtain ⟨fs₁, hprepared⟩ := h.exists_prepared hplain hpages hmade
  rw [hprepared.writable_iff]
  by_cases hfits : Fits output fs path
  · have hwritten := hprepared.plain.writeText_of_free hfits.1 hfits.2 html
    obtain ⟨-, rfl⟩ := Prod.mk.inj (hwritten.symm.trans hwrite)
    have hroot := (hprepared.plain.lookup?_dropLast_placeOf hfits.1.2 hfits.2).1
    rw [hprepared.placeOf] at hroot ⊢
    exact ⟨hfits, .prepared h.exists_page hprepared.make (hprepared.paged.put hroot hother)⟩
  · obtain ⟨cause, hfailed⟩ := hprepared.plain.exists_writeText_of_not hfits html
    rw [hfailed] at hwrite
    cases hwrite

/-- A page that cannot be written changes nothing, and could not be written at any time. -/
theorem Files.unwritten (h : Files tools output paths s₀ pages true fs) (hplain : s₀.fs.IsPlain)
    (hpages : ArePages output paths (s₀.fs.makeDirectories output).2 pages)
    (hmade : (s₀.fs.makeDirectories output).1 = .ok ()) {cause : IoCause}
    (hwrite : fs.writeText (Page.path output path) html = (.error cause, fs')) :
    ¬ Writable output s₀.fs path ∧ Files tools output paths s₀ pages true fs' := by
  obtain ⟨fs₁, hprepared⟩ := h.exists_prepared hplain hpages hmade
  rw [hprepared.writable_iff]
  by_cases hfits : Fits output fs path
  · rw [hprepared.plain.writeText_of_free hfits.1 hfits.2 html] at hwrite
    cases hwrite
  · obtain ⟨cause, hfailed⟩ := hprepared.plain.exists_writeText_of_not hfits html
    obtain ⟨-, rfl⟩ := Prod.mk.inj (hfailed.symm.trans hwrite)
    exact ⟨hfits, h⟩

/-- A page that is there can be read. -/
theorem Files.readText (h : Files tools output paths s₀ pages true fs) (hplain : s₀.fs.IsPlain)
    (hpages : ArePages output paths (s₀.fs.makeDirectories output).2 pages)
    (hwritable : Writable output s₀.fs path)
    (hpage : pages (s₀.fs.placeOf (Page.path output path)) html) :
    fs.readText (Page.path output path) = .ok html := by
  obtain ⟨fs₁, hprepared⟩ := h.exists_prepared hplain hpages hwritable.1
  have hfits := (hprepared.writable_iff path).1 hwritable
  rw [← hprepared.placeOf] at hpage
  have hstat := hprepared.plain.stat_eq_ok_iff.2 ⟨hfits.1, hprepared.paged.page _ _ hpage⟩
  unfold FileSystem.readText
  rw [hstat]

/-- With the same pages on top the files are the same. -/
theorem Files.lookup?_eq (h : Files tools output paths s₀ pages made fs)
    (h' : Files tools output paths s₀ pages made fs') (place : Place) :
    fs.lookup? place = fs'.lookup? place := by
  cases h with
  | untouched =>
      cases h' with
      | untouched => rfl
  | unprepared _ hmake =>
      cases h' with
      | unprepared _ hmake' =>
          obtain ⟨-, rfl⟩ := Prod.mk.inj (hmake.symm.trans hmake')
          rfl
      | prepared _ hmake' _ => cases hmake.symm.trans hmake'
  | prepared _ hmake hpaged =>
      cases h' with
      | unprepared _ hmake' => cases hmake.symm.trans hmake'
      | prepared _ hmake' hpaged' =>
          obtain ⟨-, rfl⟩ := Prod.mk.inj (hmake.symm.trans hmake')
          by_cases hpage : ∃ html, pages place html
          · obtain ⟨html, hhtml⟩ := hpage
            rw [hpaged.page _ _ hhtml, hpaged'.page _ _ hhtml]
          · have hnone : ∀ html, ¬ pages place html := fun html hhtml => hpage ⟨html, hhtml⟩
            rw [hpaged.rest _ hnone, hpaged'.rest _ hnone]

end Files

/-! ## Tasks -/

section Tasks

variable {before after : List (Path × Stage)} {stage stage' : Stage}

theorem mem_replace {other : Path × Stage} :
    other ∈ before ++ (path, stage) :: after ↔
      other ∈ before ++ after ∨ other = (path, stage) := by
  rw [List.mem_append, List.mem_append, List.mem_cons]
  exact ⟨fun h => h.elim (.inl ∘ .inl) fun h => h.elim .inr (.inl ∘ .inr),
    fun h => h.elim (fun h => h.elim .inl (.inr ∘ .inr)) (.inr ∘ .inl)⟩

/-- A task that has no page before a step and none after it leaves the pages as they are. -/
theorem pages_replace (hstage : ∀ target, stage ≠ .finished (.ok target))
    (hstage' : ∀ target, stage' ≠ .finished (.ok target)) :
    Pages tools output s₀ (before ++ (path, stage') :: after) =
      Pages tools output s₀ (before ++ (path, stage) :: after) := by
  have hmem : ∀ other target, (other, .finished (.ok target)) ∈ before ++ (path, stage') :: after ↔
      (other, .finished (.ok target)) ∈ before ++ (path, stage) :: after := by
    intro other target
    rw [mem_replace, mem_replace, Prod.mk.injEq, Prod.mk.injEq]
    simp [(hstage target).symm, (hstage' target).symm]
  funext place html
  unfold Pages
  simp only [hmem]

/-- A task that has got its page adds it to the pages. -/
theorem pages_written (hstage : ∀ target, stage ≠ .finished (.ok target)) {target : Path}
    {html : String} (hpage : pageOf tools s₀ path = .ok html) :
    Pages tools output s₀ (before ++ (path, .finished (.ok target)) :: after) = fun place text =>
      Pages tools output s₀ (before ++ (path, stage) :: after) place text ∨
        place = s₀.fs.placeOf (Page.path output path) ∧ text = html := by
  funext place text
  apply propext
  unfold Pages
  constructor
  · rintro ⟨other, found, hmem, hplace, htext⟩
    rcases mem_replace.1 hmem with hmem | heq
    · exact .inl ⟨other, found, mem_replace.2 (.inl hmem), hplace, htext⟩
    · obtain ⟨rfl, -⟩ := Prod.mk.inj heq
      exact .inr ⟨hplace, Except.ok.inj (htext.symm.trans hpage)⟩
  · rintro (⟨other, found, hmem, hplace, htext⟩ | ⟨hplace, rfl⟩)
    · rcases mem_replace.1 hmem with hmem | heq
      · exact ⟨other, found, mem_replace.2 (.inl hmem), hplace, htext⟩
      · exact absurd (Prod.mk.inj heq).2.symm (hstage found)
    · exact ⟨path, target, mem_replace.2 (.inr rfl), hplace, hpage⟩

end Tasks

section Valid

variable {w : World}

/-- A task that has a page could write it. -/
theorem Valid.written (h : Valid tools output paths s₀ made w) {target : Path}
    (hmem : (path, .finished (.ok target)) ∈ w.tasks) :
    path ∈ paths ∧ made = true ∧ Writable output s₀.fs path := by
  refine ⟨h.scenarios ▸ List.mem_map_of_mem hmem, ?_⟩
  have hsound : Stage.Sound tools output s₀ path made (.finished (.ok target)) := h.tasks _ hmem
  cases hsound with
  | written _ hwritable => exact ⟨rfl, hwritable⟩

theorem Valid.arePages (h : Valid tools output paths s₀ made w) :
    ArePages output paths (s₀.fs.makeDirectories output).2 (Pages tools output s₀ w.tasks) := by
  rintro place html ⟨path, target, hmem, hplace, -⟩
  obtain ⟨hpath, -, hwritable⟩ := h.written hmem
  have hmore := s₀.fs.moreDirectories_makeDirectories output
  exact ⟨path, hpath,
    hplace.trans (FileSystem.placeOf_congr hmore.workingDirectory _).symm, hwritable.2⟩

/-- There are no pages before the directory of pages is made. -/
theorem Valid.not_pages (h : Valid tools output paths s₀ made w) (hmade : made = false)
    (place : Place) (html : String) : ¬ Pages tools output s₀ w.tasks place html := by
  rintro ⟨path, target, hmem, -, -⟩
  obtain ⟨-, htrue, -⟩ := h.written hmem
  rw [hmade] at htrue
  cases htrue

/-- There is one page at most at each place. -/
theorem eq_of_pages (hbegins : Begins output paths s₀) (h : Valid tools output paths s₀ made w)
    (hpath : path ∈ paths) {html : String} (hpage : pageOf tools s₀ path = .ok html)
    (other : String)
    (hother : Pages tools output s₀ w.tasks (s₀.fs.placeOf (Page.path output path)) other) :
    other = html := by
  obtain ⟨path', target, hmem, hplace, hpage'⟩ := hother
  have hname : ∀ {p : Path} {text : String}, pageOf tools s₀ p = .ok text →
      ∃ name, p.fileName? = some name := by
    intro p text htext
    obtain ⟨sc, hread, -⟩ := bind_eq_ok_iff.1 htext
    exact hbegins.plain.exists_fileName?_of_isFile (isFile_of_read hread)
  obtain ⟨name, hname₁⟩ := hname hpage
  obtain ⟨name', hname₂⟩ := hname hpage'
  -- One place means one file name, and that means one scenario.
  obtain rfl := eq_of_placeOf_path_eq hbegins.names hpath (h.written hmem).1 hname₁ hname₂ hplace
  exact Except.ok.inj (hpage'.symm.trans hpage)

/-- One task has taken a step, and the files are as they have to be then. -/
theorem Valid.replace {s s' : State} {before after : List (Path × Stage)} {stage stage' : Stage}
    {made' : Bool}
    (h : Valid tools output paths s₀ made ⟨s, before ++ (path, stage) :: after⟩)
    (hmade : made = true → made' = true)
    (hx : s'.extractor.SameAs tools.grammars s₀.fs s₀.extractor)
    (hstage' : stage'.Sound tools output s₀ path made')
    (hfiles : Files tools output paths s₀
      (Pages tools output s₀ (before ++ (path, stage') :: after)) made' s'.fs) :
    Valid tools output paths s₀ made' ⟨s', before ++ (path, stage') :: after⟩ := by
  refine ⟨?_, hx, fun task htask => ?_, hfiles⟩
  · rw [← h.scenarios]
    simp
  · rcases mem_replace.1 htask with hother | rfl
    · -- The other tasks have not moved, but `made` may have become true for them.
      have hsound := h.tasks task (mem_replace.2 (.inl hother))
      cases made with
      | false =>
          cases made' with
          | false => exact hsound
          | true => exact hsound.made
      | true => exact hmade rfl ▸ hsound
    · exact hstage'

/-- One task has taken a step that makes no page. -/
theorem Valid.replace_quietly {s s' : State} {before after : List (Path × Stage)}
    {stage stage' : Stage} {made' : Bool}
    (h : Valid tools output paths s₀ made ⟨s, before ++ (path, stage) :: after⟩)
    (hmade : made = true → made' = true)
    (hx : s'.extractor.SameAs tools.grammars s₀.fs s₀.extractor)
    (hstage' : stage'.Sound tools output s₀ path made')
    (hfiles : Files tools output paths s₀
      (Pages tools output s₀ (before ++ (path, stage) :: after)) made' s'.fs)
    (hbefore : ∀ target, stage ≠ .finished (.ok target))
    (hafter : ∀ target, stage' ≠ .finished (.ok target)) :
    Valid tools output paths s₀ made' ⟨s', before ++ (path, stage') :: after⟩ :=
  h.replace hmade hx hstage' (pages_replace hbefore hafter ▸ hfiles)

end Valid

/-- **The invariant is kept by every step of every task.** -/
theorem Valid.step (hbegins : Begins output paths s₀) {w w' : World}
    (h : Valid tools output paths s₀ made w) (hstep : Step tools output w w') :
    ∃ made', Valid tools output paths s₀ made' w' := by
  obtain @⟨s, s', before, after, path, stage, stage', hadvances⟩ := hstep
  have hmem : (path, stage) ∈ before ++ (path, stage) :: after := mem_replace.2 (.inr rfl)
  have hpath : path ∈ paths := h.scenarios ▸ List.mem_map_of_mem hmem
  have hstage := h.tasks (path, stage) hmem
  have hx := h.extractor
  have hfiles := h.files
  have hevolved := hfiles.evolved hbegins.plain h.arePages
  have hread := hevolved.read_eq hbegins.plain hbegins.apart hbegins.staysOut hpath
  -- Only the steps that make the directory or write the page touch the files, and only a written
  -- page counts among the pages.
  cases hadvances with
  | unread herror =>
      have hpage : pageOf tools s₀ path = .error _ := pageOf_of_unread (hread ▸ herror)
      exact ⟨made, h.replace_quietly id hx (.failed hpage (.refl _)) hfiles nofun nofun⟩
  | read hsc =>
      refine ⟨made, h.replace_quietly id hx (.resolving (hread ▸ hsc) ?_ ?_) hfiles nofun nofun⟩
      · simp [Job.ofBody, Function.comp_def]
      · intro job hjob
        obtain ⟨command, -, rfl⟩ := List.mem_map.1 hjob
        exact .waiting
  | command _ hadvance =>
      obtain ⟨hstage', hx'⟩ := hstage.command hbegins hevolved hx hpath hadvance
      exact ⟨made, h.replace_quietly id hx' hstage' hfiles nofun nofun⟩
  | unrendered hfinish hhtml =>
      have halike := hstage.alike_pageOf hfinish
      rw [hhtml] at halike
      obtain ⟨e₀, hpage, he⟩ := halike.exists_error
      exact ⟨made, h.replace_quietly id hx (.failed hpage he) hfiles nofun nofun⟩
  | rendered hfinish hhtml =>
      have hpage := ((hstage.alike_pageOf hfinish).exists_ok_iff _).1 hhtml
      exact ⟨made, h.replace_quietly id hx (.making hpage) hfiles nofun nofun⟩
  | @unmade html cause fs hmake =>
      cases hstage with
      | making hpage =>
          obtain ⟨hfiles', hmade⟩ :=
            hfiles.make hbegins.plain h.arePages h.not_pages hpath hpage hmake
          have hnot : ¬ Writable output s₀.fs path :=
            fun hwritable => absurd (hmade.2 hwritable.1) nofun
          exact ⟨true, h.replace_quietly (fun _ => rfl) hx (.unwritten hpage hnot) hfiles'
            nofun nofun⟩
  | @made html fs hmake =>
      cases hstage with
      | making hpage =>
          obtain ⟨hfiles', hmade⟩ :=
            hfiles.make hbegins.plain h.arePages h.not_pages hpath hpage hmake
          exact ⟨true, h.replace_quietly (fun _ => rfl) hx (.writing hpage (hmade.1 rfl)) hfiles'
            nofun nofun⟩
  | @unwritten html cause fs hwrite =>
      cases hstage with
      | writing hpage hmade =>
          obtain ⟨hnot, hfiles'⟩ := hfiles.unwritten hbegins.plain h.arePages hmade hwrite
          exact ⟨true, h.replace_quietly id hx (.unwritten hpage hnot) hfiles' nofun nofun⟩
  | @written html fs hwrite =>
      cases hstage with
      | writing hpage hmade =>
          obtain ⟨hwritable, hfiles'⟩ := hfiles.written hbegins.plain h.arePages hmade
            (eq_of_pages hbegins h hpath hpage) hwrite
          refine ⟨true, h.replace id hx (.written hpage hwritable) ?_⟩
          -- The page is a new one: no other scenario has a page at its place.
          have hbefore : ∀ target, Stage.writing html ≠ .finished (.ok target) := nofun
          rwa [pages_written hbefore hpage]

/-- **The invariant holds whenever a build is under way.** -/
theorem exists_valid_of_reaches (hbegins : Begins output paths s₀) {w : World}
    (hrun : Reaches tools output (.start paths s₀) w) :
    ∃ made, Valid tools output paths s₀ made w := by
  induction hrun with
  | refl => exact ⟨false, valid_start tools output paths s₀⟩
  | tail _ hstep ih =>
      obtain ⟨made, hvalid⟩ := ih
      exact hvalid.step hbegins hstep

end Build

end LiveExcerpts
