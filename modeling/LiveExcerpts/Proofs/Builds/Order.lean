import LiveExcerpts.Proofs.Builds.Invariant
/-!
# The order of tasks

When all tasks of a build are at their ends, nothing tells in which order they took their steps:
every scenario has come to what it comes to alone, and the files are those that there are when the
scenarios are worked on one after the other.

Main definitions: `Build.SameResult`, `Build.Ends`, `Build.Settled`.  Main statement:
`Build.every_run_settles`.
-/

namespace LiveExcerpts

namespace Build

variable {tools : Tools} {output path : Path} {paths : List Path} {s₀ : State} {made made' : Bool}
  {w w' : World} {results results' : List (Except Error Path)}

/-! ## Builds at their end -/

/-- What holds of every task and its result holds of the scenarios and the results in order. -/
theorem World.Done.forall₂ (h : w.Done results) (hpaths : w.tasks.map Prod.fst = paths)
    {p : Path → Except Error Path → Prop}
    (hp : ∀ path result, (path, .finished result) ∈ w.tasks → p path result) :
    List.Forall₂ p paths results := by
  obtain ⟨s, tasks⟩ := w
  unfold World.Done at h
  dsimp only at h hpaths hp
  induction tasks generalizing paths results with
  | nil =>
      obtain rfl := hpaths
      obtain rfl := List.map_eq_nil_iff.1 h.symm
      exact .nil
  | cons task rest ih =>
      obtain ⟨path, stage⟩ := task
      obtain rfl := hpaths
      obtain ⟨result, others, rfl, hstage, hothers⟩ := List.map_eq_cons_iff.1 h.symm
      obtain rfl : Stage.finished result = stage := hstage
      refine .cons (hp path result List.mem_cons_self) (ih hothers.symm rfl ?_)
      exact fun path result hmem => hp path result (List.mem_cons_of_mem _ hmem)

/-- At the end every scenario has come to what it comes to from the start. -/
theorem Valid.exists_sound (h : Valid tools output paths s₀ made w) (hdone : w.Done results)
    (hpath : path ∈ paths) :
    ∃ result, (path, .finished result) ∈ w.tasks ∧
      Stage.Sound tools output s₀ path made (.finished result) := by
  have hmem : path ∈ w.tasks.map Prod.fst := h.scenarios ▸ hpath
  obtain ⟨⟨path, stage⟩, htask, rfl⟩ := List.mem_map.1 hmem
  have hstage : stage ∈ w.tasks.map Prod.snd := List.mem_map_of_mem htask
  rw [hdone] at hstage
  obtain ⟨result, -, rfl⟩ := List.mem_map.1 hstage
  exact ⟨result, htask, h.tasks _ htask⟩

/-- Then the pages are those of all scenarios that have one and can write it. -/
theorem Valid.pages_iff (h : Valid tools output paths s₀ made w) (hdone : w.Done results)
    {place : Place} {html : String} :
    Pages tools output s₀ w.tasks place html ↔ ∃ path ∈ paths,
      place = s₀.fs.placeOf (Page.path output path) ∧ pageOf tools s₀ path = .ok html ∧
        Writable output s₀.fs path := by
  constructor
  · rintro ⟨path, target, hmem, hplace, hpage⟩
    obtain ⟨hpath, -, hwritable⟩ := h.written hmem
    exact ⟨path, hpath, hplace, hpage, hwritable⟩
  · rintro ⟨path, hpath, hplace, hpage, hwritable⟩
    obtain ⟨result, hmem, hsound⟩ := h.exists_sound hdone hpath
    cases hsound with
    | failed herror _ => cases hpage.symm.trans herror
    | unwritten _ hnot => exact absurd hwritable hnot
    | written _ _ => exact ⟨path, _, hmem, hplace, hpage⟩

/-- Then the directory of pages has been asked for if any scenario has a page. -/
theorem Valid.made_iff (h : Valid tools output paths s₀ made w) (hdone : w.Done results) :
    made = true ↔ ∃ path ∈ paths, ∃ html, pageOf tools s₀ path = .ok html := by
  constructor
  · intro hmade
    subst hmade
    exact h.files.exists_page
  · rintro ⟨path, hpath, html, hpage⟩
    obtain ⟨result, -, hsound⟩ := h.exists_sound hdone hpath
    cases hsound with
    | failed herror _ => cases hpage.symm.trans herror
    | unwritten _ _ => rfl
    | written _ _ => rfl

/-- **Two builds that began alike leave the same files.** -/
theorem Valid.lookup?_eq (h : Valid tools output paths s₀ made w) (hdone : w.Done results)
    (h' : Valid tools output paths s₀ made' w') (hdone' : w'.Done results') (place : Place) :
    w.state.fs.lookup? place = w'.state.fs.lookup? place := by
  have hmade : made = made' := by
    rw [Bool.eq_iff_iff, h.made_iff hdone, h'.made_iff hdone']
  have hpages : Pages tools output s₀ w.tasks = Pages tools output s₀ w'.tasks := by
    funext place html
    rw [h.pages_iff hdone, h'.pages_iff hdone']
  have hfiles := h.files
  rw [hmade, hpages] at hfiles
  exact hfiles.lookup?_eq h'.files place

/-! ## Results -/

/-- Two results of a scenario are the same, but for the spelling of paths in a failure, and for the
cause where the directory of pages cannot be made or the page cannot be written.  The cause may tell
what was tried before: a second attempt to make directories stops where the first one did, but may
do so for another reason. -/
inductive SameResult : Except Error Path → Except Error Path → Prop
  /-- The page is made. -/
  | made (target : Path) : SameResult (.ok target) (.ok target)
  /-- There is no page, for the same reason. -/
  | failed {e e' : Error} : e.SameAs e' → SameResult (.error e) (.error e')
  /-- The page cannot be written. -/
  | unwritten (cause cause' : IoCause) : SameResult (.error (.io cause)) (.error (.io cause'))

theorem Stage.Sound.sameResult {result result' : Except Error Path}
    (h : Stage.Sound tools output s₀ path made (.finished result))
    (h' : Stage.Sound tools output s₀ path made' (.finished result')) :
    SameResult result result' := by
  cases h with
  | failed herror he =>
      cases h' with
      | failed herror' he' =>
          obtain rfl := Except.error.inj (herror.symm.trans herror')
          exact .failed (he.trans he'.symm)
      | unwritten hpage' _ => cases herror.symm.trans hpage'
      | written hpage' _ => cases herror.symm.trans hpage'
  | unwritten hpage hnot =>
      cases h' with
      | failed herror' _ => cases hpage.symm.trans herror'
      | unwritten _ _ => exact .unwritten _ _
      | written _ hwritable' => exact absurd hwritable' hnot
  | written hpage hwritable =>
      cases h' with
      | failed herror' _ => cases hpage.symm.trans herror'
      | unwritten _ hnot' => exact absurd hwritable hnot'
      | written _ _ => exact .made _

/-- What a scenario comes to depends on the state at the beginning of the build only, and what it
has written is there at the end. -/
structure Ends (tools : Tools) (output : Path) (s₀ : State) (fs : FileSystem) (path : Path)
    (result : Except Error Path) : Prop where
  /-- It succeeds if it has a page and the page can be written. -/
  success : (∃ target, result = .ok target) ↔
    (∃ html, pageOf tools s₀ path = .ok html) ∧ Writable output s₀.fs path
  /-- If it succeeds, then its page is there. -/
  page : ∀ target, result = .ok target → target = Page.path output path ∧
    ∃ html, pageOf tools s₀ path = .ok html ∧ fs.readText target = .ok html

theorem Valid.ends (h : Valid tools output paths s₀ made w) (hplain : s₀.fs.IsPlain)
    {result : Except Error Path} (hmem : (path, .finished result) ∈ w.tasks) :
    Ends tools output s₀ w.state.fs path result := by
  have hsound : Stage.Sound tools output s₀ path made (.finished result) := h.tasks _ hmem
  have hpages := h.arePages
  have hfiles := h.files
  cases hsound with
  | failed herror _ =>
      refine ⟨⟨nofun, ?_⟩, nofun⟩
      rintro ⟨⟨html, hpage⟩, -⟩
      cases herror.symm.trans hpage
  | unwritten _ hnot => exact ⟨⟨nofun, fun hboth => absurd hboth.2 hnot⟩, nofun⟩
  | @written html hpage hwritable =>
      refine ⟨⟨fun _ => ⟨⟨html, hpage⟩, hwritable⟩, fun _ => ⟨_, rfl⟩⟩, ?_⟩
      rintro target htarget
      obtain rfl := Except.ok.inj htarget
      exact ⟨rfl, html, hpage,
        hfiles.readText hplain hpages hwritable ⟨path, _, hmem, rfl, hpage⟩⟩

/-- A build has come to the end that it comes to when the scenarios are worked on one after the
other. -/
structure Settled (tools : Tools) (output : Path) (paths : List Path) (s₀ : State)
    (results : List (Except Error Path)) (fs : FileSystem) : Prop where
  /-- The files are the same. -/
  files : ∀ place, fs.lookup? place = (scenarios tools output paths s₀).2.fs.lookup? place
  /-- Each scenario has come to the same. -/
  same : List.Forall₂ SameResult results (scenarios tools output paths s₀).1
  /-- No scenario has kept another one from its end. -/
  ends : List.Forall₂ (Ends tools output s₀ fs) paths results
  /-- The build answers with all pages, in the order of the scenarios, if all have succeeded. -/
  success : outcome results = .ok (paths.map (Page.path output)) ↔
    ∀ result ∈ results, ∃ target, result = .ok target
  /-- Otherwise it answers with the first failure in that order. -/
  failure : ∀ e, outcome results = .error e ↔ ∃ before after,
    results = before ++ .error e :: after ∧ ∀ result ∈ before, ∃ target, result = .ok target

theorem outcome_eq_ok_iff (hends : List.Forall₂ (Ends tools output s₀ fs) paths results) :
    outcome results = .ok (paths.map (Page.path output)) ↔
      ∀ result ∈ results, ∃ target, result = .ok target := by
  unfold outcome
  rw [mapM_eq_ok_iff]
  induction hends with
  | nil => simp
  | @cons path result rest others hfirst _ ih =>
      rw [List.map_cons, List.forall₂_cons, ih, List.forall_mem_cons]
      refine and_congr_left fun _ => ⟨fun h => ⟨_, h⟩, ?_⟩
      rintro ⟨target, rfl⟩
      rw [(hfirst.page target rfl).1]
      rfl

/-- A build that has come to its end is settled. -/
theorem settled_of_done (hbegins : Begins output paths s₀)
    (hrun : Reaches tools output (.start paths s₀) w) (hdone : w.Done results) :
    Settled tools output paths s₀ results w.state.fs := by
  obtain ⟨made, hvalid⟩ := exists_valid_of_reaches hbegins hrun
  obtain ⟨w', hrun', hdone', hstate⟩ := reaches_scenarios tools output paths s₀
  obtain ⟨made', hvalid'⟩ := exists_valid_of_reaches hbegins hrun'
  have hends : List.Forall₂ (Ends tools output s₀ w.state.fs) paths results :=
    hdone.forall₂ hvalid.scenarios fun _ _ hmem => hvalid.ends hbegins.plain hmem
  -- The invariant leaves no choice at the end, so this run and the one in order agree.
  refine ⟨fun place => ?_, ?_, hends, outcome_eq_ok_iff hends, fun e => ?_⟩
  · rw [← hstate]
    exact hvalid.lookup?_eq hdone hvalid' hdone' place
  · have hsound := hdone.forall₂ hvalid.scenarios fun _ _ hmem => hvalid.tasks _ hmem
    have hsound' := hdone'.forall₂ hvalid'.scenarios fun _ _ hmem => hvalid'.tasks _ hmem
    exact forall₂_of_common hsound hsound' fun _ _ _ h h' => h.sameResult h'
  · unfold outcome
    rw [mapM_eq_error_iff]
    constructor
    · rintro ⟨before, result, after, hsplit, hbefore, rfl⟩
      exact ⟨before, after, hsplit, hbefore⟩
    · rintro ⟨before, after, hsplit, hbefore⟩
      exact ⟨before, _, after, hsplit, hbefore, rfl⟩

/-! ## Two scenarios -/

/-- It is enough to know a list of all paths that are read. -/
theorem apart_of_reads {settings : Settings} {fs : FileSystem} {read : List Path}
    (hread : ∀ p, Reads settings fs paths p → p ∈ read)
    (happart : ∀ p ∈ read,
      ¬ Creates output fs (fs.placeOf p) ∧ ¬ Writes output fs paths (fs.placeOf p)) :
    Apart output paths settings fs :=
  ⟨fun p hp => (happart p (hread p hp)).1, fun p hp => (happart p (hread p hp)).2⟩

section TwoScenarios

variable {root : String}

/-- What a build of the two scenarios reads: the scenarios and their source roots. -/
theorem Legible.mem_of_reads (hlegible : Legible root) {p : Path}
    (h : Reads .default (twoScenarios root).fs [⟨"a"⟩, ⟨"b"⟩] p) :
    p ∈ [⟨"a"⟩, ⟨"b"⟩, ⟨root⟩, (⟨"."⟩ : Path)] := by
  have htold : ∀ {path : Path} {content : String} {sc : Scenario}, path ∈ [⟨"a"⟩, (⟨"b"⟩ : Path)] →
      (twoScenarios root).fs.readText path = .ok content → Scenario.parse path content = .ok sc →
      sc.body = ["x"] ∧ sc.root ∈ [⟨root⟩, (⟨"."⟩ : Path)] := by
    intro path content sc hpath hcontent hsc
    simp only [List.mem_cons, List.not_mem_nil, or_false] at hpath
    unfold FileSystem.readText at hcontent
    rcases hpath with rfl | rfl
    · rw [hlegible.first] at hcontent
      obtain rfl := Except.ok.inj hcontent
      obtain rfl := Except.ok.inj (hlegible.parse.symm.trans hsc)
      exact ⟨rfl, List.mem_cons_self⟩
    · rw [hlegible.second] at hcontent
      obtain rfl := Except.ok.inj hcontent
      obtain rfl := Except.ok.inj (parse_second.symm.trans hsc)
      exact ⟨rfl, List.mem_cons_of_mem _ List.mem_cons_self⟩
  cases h with
  | scenario hpath => exact List.mem_append_left [⟨root⟩, (⟨"."⟩ : Path)] hpath
  | root hpath hcontent hsc =>
      exact List.mem_append_right [⟨"a"⟩, (⟨"b"⟩ : Path)] (htold hpath hcontent hsc).2
  | source hpath hcontent hsc hraw _ =>
      rw [(htold hpath hcontent hsc).1] at hraw
      simp [Snippet.classify, Snippet.ofLine] at hraw

/-- Working on the second of two scenarios before the first one. -/
theorem reaches_second_first (tools : Tools) (output p q : Path) (s : State) :
    Reaches tools output (.start [p, q] s)
      ⟨(scenario tools output p (scenario tools output q s).2).2,
        [(p, .finished (scenario tools output p (scenario tools output q s).2).1),
          (q, .finished (scenario tools output q s).1)]⟩ := by
  have hq : Reaches tools output ⟨s, [(p, .waiting)] ++ (q, .waiting) :: []⟩
      ⟨(scenario tools output q s).2,
        [(p, .waiting)] ++ (q, .finished (scenario tools output q s).1) :: []⟩ :=
    reaches_scenario tools output q s
  have hp : Reaches tools output
      ⟨(scenario tools output q s).2,
        [] ++ (p, .waiting) :: [(q, .finished (scenario tools output q s).1)]⟩ _ :=
    reaches_scenario tools output p (scenario tools output q s).2
  exact hq.trans hp

end TwoScenarios

/-! ## All orders of tasks -/

/-- **The order of tasks makes no difference.**  Whichever tasks take the next steps, a build comes
to its end, and this is the end that it comes to when the scenarios are worked on one after the
other: with the same files, the same pages, and failures of the same scenarios.  Left open is only
how a failure is told: with which spelling of a path, and with which cause if the directory of pages
cannot be made or a page cannot be written. -/
theorem every_run_settles (hbegins : Begins output paths s₀) :
    (WellFounded fun w' w => Step tools output w w') ∧
      ∀ w, Reaches tools output (.start paths s₀) w →
        ((∃ results, w.Done results) ∨ ∃ w', Step tools output w w') ∧
          ∀ results, w.Done results → Settled tools output paths s₀ results w.state.fs :=
  ⟨wellFounded_step tools output, fun w hrun =>
    ⟨exists_step tools output w, fun _ hdone => settled_of_done hbegins hrun hdone⟩⟩

/-- What a build of the two scenarios that ask for a constant reads. -/
theorem mem_of_reads_askingScenarios {p : Path}
    (h : Reads .default askingScenarios.fs [⟨"a"⟩, ⟨"b"⟩] p) :
    p ∈ [⟨"a"⟩, ⟨"b"⟩, ⟨"."⟩, (⟨"./c.rs"⟩ : Path)] := by
  have htold : ∀ {path : Path} {content : String} {sc : Scenario}, path ∈ [⟨"a"⟩, (⟨"b"⟩ : Path)] →
      askingScenarios.fs.readText path = .ok content → Scenario.parse path content = .ok sc →
      ∃ name ∈ ["A", "B"], sc = ⟨⟨"."⟩, "u", ["x", "@def c::" ++ name]⟩ := by
    intro path content sc hpath hcontent hsc
    obtain ⟨name, hname, hasked⟩ : ∃ name ∈ ["A", "B"],
        (path, name) ∈ [((⟨"a"⟩ : Path), "B"), (⟨"b"⟩, "A")] := by
      simp only [List.mem_cons, List.not_mem_nil, or_false] at hpath
      rcases hpath with rfl | rfl
      · exact ⟨"B", by decide, by decide⟩
      · exact ⟨"A", by decide, by decide⟩
    obtain ⟨hstat, hparse⟩ := says_askingScenarios hasked
    unfold FileSystem.readText at hcontent
    rw [hstat] at hcontent
    obtain rfl := Except.ok.inj hcontent
    exact ⟨name, hname, Except.ok.inj (hsc.symm.trans hparse)⟩
  -- Each of the two names stands for the same source file.
  have hsource : ∀ name ∈ ["A", "B"],
      Snippet.classify ["x", "@def c::" ++ name] = [.prose "x", .command ("@def c::" ++ name)] ∧
        Command.parse ("@def c::" ++ name) = .ok ⟨.definition, "c", name⟩ ∧
        (Location.ofCommand .default ⟨"."⟩ "u" ⟨.definition, "c", name⟩).sourcePath =
          ⟨"./c.rs"⟩ := by decide +kernel
  cases h with
  | scenario hpath => exact List.mem_append_left [⟨"."⟩, (⟨"./c.rs"⟩ : Path)] hpath
  | root hpath hcontent hsc =>
      obtain ⟨name, -, rfl⟩ := htold hpath hcontent hsc
      show Path.mk "." ∈ _
      decide
  | source hpath hcontent hsc hraw hcommand =>
      obtain ⟨name, hname, rfl⟩ := htold hpath hcontent hsc
      obtain ⟨hclassify, hparse, hleads⟩ := hsource name hname
      rw [hclassify] at hraw
      simp only [List.mem_cons, reduceCtorEq, Snippet.command.injEq, List.not_mem_nil, or_false,
        false_or] at hraw
      subst hraw
      obtain rfl := Except.ok.inj (hparse.symm.trans hcommand)
      rw [hleads]
      decide

/-- The failure of a command keeps the other scenario from nothing, whichever comes first. -/
theorem every_run_settles_asking :
    Begins ⟨"out"⟩ [⟨"a"⟩, ⟨"b"⟩] askingScenarios ∧
      ∃ w results, Reaches constTools ⟨"out"⟩ (.start [⟨"a"⟩, ⟨"b"⟩] askingScenarios) w ∧
        w.Done results ∧
        Settled constTools ⟨"out"⟩ [⟨"a"⟩, ⟨"b"⟩] askingScenarios results w.state.fs := by
  have hup : ∀ p ∈ [⟨"a"⟩, ⟨"b"⟩, ⟨"."⟩, (⟨"./c.rs"⟩ : Path)], ".." ∉ p.parts := by decide +kernel
  have hbegins : Begins ⟨"out"⟩ [⟨"a"⟩, ⟨"b"⟩] askingScenarios :=
    { plain := isPlain_askingScenarios
      names := by decide +kernel
      apart := apart_of_reads (fun _ => mem_of_reads_askingScenarios) (by decide +kernel)
      staysOut := fun p hp before after hparts => absurd (by rw [hparts]; simp)
        (hup p (mem_of_reads_askingScenarios hp)) }
  have hrun := reaches_second_first constTools ⟨"out"⟩ ⟨"a"⟩ ⟨"b"⟩ askingScenarios
  exact ⟨hbegins, _, [_, _], hrun, rfl, ((every_run_settles hbegins).2 _ hrun).2 _ rfl⟩

/-- **A path that leaves a directory of the build by `..` lets the order matter.**  The source root
`out/..` of the first scenario is the directory that everything is in, but a path through `out`
leads nowhere until the second scenario has made that directory. -/
theorem exists_runs_that_differ :
    (twoScenarios "out/..").fs.IsPlain ∧
      ([⟨"a"⟩, ⟨"b"⟩].filterMap Path.fileName?).Nodup ∧
      Apart ⟨"out"⟩ [⟨"a"⟩, ⟨"b"⟩] .default (twoScenarios "out/..").fs ∧
      ∃ w w' results results',
        (Reaches plainTools ⟨"out"⟩ (.start [⟨"a"⟩, ⟨"b"⟩] (twoScenarios "out/..")) w ∧
          w.Done results ∧ outcome results = .error (.sourceRootNotFound ⟨"out/.."⟩) ∧
          w.state.fs.lookup? ["out", "a.html"] = none) ∧
        Reaches plainTools ⟨"out"⟩ (.start [⟨"a"⟩, ⟨"b"⟩] (twoScenarios "out/..")) w' ∧
          w'.Done results' ∧ outcome results' = .ok [⟨"out/a.html"⟩, ⟨"out/b.html"⟩] ∧
          w'.state.fs.lookup? ["out", "a.html"] = some (.file (.text "x")) := by
  have hplain := isPlain_detoured
  have hfirst : scenario plainTools ⟨"out"⟩ ⟨"a"⟩ (twoScenarios "out/..") =
      (.error (.sourceRootNotFound ⟨"out/.."⟩), twoScenarios "out/..") := by
    rw [scenario_eq, read_detour]
  -- When the second scenario has been worked on, the first one finds its source root.
  have hread : Scenario.read detoured ⟨"a"⟩ = .ok ⟨⟨"out/.."⟩, "u", ["x"]⟩ := by
    rw [read_of_stat (hplain.stat_eq_ok_iff.2 (by decide +kernel)) legible_detour.parse,
      if_pos (hplain.leadsSomewhere_iff.2 (by decide +kernel))]
  have hready : detoured.Ready ⟨"out"⟩ := by
    have hhead : (⟨"out"⟩ : Path).ancestors.head? = some ⟨"out"⟩ := by decide +kernel
    intro q hq
    rw [hhead, Option.mem_some_iff] at hq
    exact hq ▸ hplain.isDirectory_iff.2 (by decide +kernel)
  have hlate : scenario plainTools ⟨"out"⟩ ⟨"a"⟩ ⟨detoured, (twoScenarios "out/..").extractor⟩ =
      (.ok ⟨"out/a.html"⟩, ⟨detoured.put ["out", "a.html"] (.file (.text "x")),
        (twoScenarios "out/..").extractor⟩) :=
    scenario_eq_ok hplain hread rfl (by decide +kernel)
      (hplain.makeDirectories_of_ready hready) (by decide +kernel) (by decide +kernel)
      (by decide +kernel) (by decide +kernel)
  obtain ⟨w, hrun, hdone, hstate⟩ :=
    reaches_scenarios plainTools ⟨"out"⟩ [⟨"a"⟩, ⟨"b"⟩] (twoScenarios "out/..")
  have hrun' := reaches_second_first plainTools ⟨"out"⟩ ⟨"a"⟩ ⟨"b"⟩ (twoScenarios "out/..")
  simp only [scenarios_cons, hfirst, scenario_detour] at hdone hstate
  simp only [scenario_detour, hlate] at hrun'
  refine ⟨isPlain_twoScenarios _, by decide +kernel,
    apart_of_reads (fun _ => legible_detour.mem_of_reads) (by decide +kernel), w, _,
    _, [.ok _, .ok _], ⟨hrun, hdone, rfl, ?_⟩, hrun', rfl, rfl, ?_⟩
  · rw [hstate]
    decide +kernel
  · decide +kernel

end Build

end LiveExcerpts
