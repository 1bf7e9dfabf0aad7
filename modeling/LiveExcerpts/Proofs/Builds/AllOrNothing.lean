import LiveExcerpts.Build
import LiveExcerpts.Proofs.Files.Directories
import LiveExcerpts.Proofs.Pages
/-!
# All or nothing

The page of a scenario is complete before the first file is touched.  If anything goes wrong until
then, in reading the scenario, in any command or in rendering any fragment, the files stay as they
are.  If the page is made, it is the one regular file that changes.

Main definitions: `Build.answers`, `Build.Fails`, `Build.Made`.  Main statement:
`Build.scenario_fails_or_made`.
-/

namespace LiveExcerpts

namespace Build

variable {tools : Tools} {output path target : Path} {s : State}

/-! ## The page of a scenario -/

/-- What a command of a scenario comes to, if it is the first to be carried out. -/
def answers (tools : Tools) (fs : FileSystem) (x : Extractor) (scenario : Scenario)
    (raw : String) : Except Error (List String) :=
  (x.carryOut tools.grammars fs scenario raw).1

/-- What a command comes to is told by what is cut out for it. -/
theorem answers_eq {fs : FileSystem} {x : Extractor} {sc : Scenario} {raw : String}
    {location : Location} {extent : Extent}
    (htarget : Extractor.target fs x.settings sc raw = .ok (location, extent)) :
    answers tools fs x sc raw = match (x.cut tools.grammars fs location extent).1 with
      | .error e => .error (.commandFailed raw e)
      | .ok cutting => .ok (location.header x.settings.home cutting.line ::
          ((x.piecesOf cutting.text).filterMap Piece.clean?).map
            (Segment.toMarkdown cutting.fence)) := by
  have hsame : (x.cut tools.grammars fs location extent).2.SameAs tools.grammars fs x :=
    Extractor.sameAs_cut (Extractor.isFile_of_target htarget) extent x
  unfold answers
  rw [Extractor.carryOut_eq, htarget]
  dsimp only
  rw [Extractor.excerpt_eq]
  generalize x.cut tools.grammars fs location extent = found at hsame
  obtain ⟨e | cutting, y⟩ := found
  · rfl
  · dsimp only
    rw [hsame.settings, hsame.pieces]
    rfl

/-- The page of a scenario, made from what each command would come to if it were the first. -/
def page (tools : Tools) (fs : FileSystem) (x : Extractor) (scenario : Scenario) :
    Except Error String :=
  Page.ofAnswers tools.renderer (answers tools fs x scenario) scenario.body

/-- The page of the scenario at a path. -/
def pageOf (tools : Tools) (s : State) (path : Path) : Except Error String :=
  Scenario.read s.fs path >>= page tools s.fs s.extractor

theorem pageOf_of_read {sc : Scenario} (h : Scenario.read s.fs path = .ok sc) :
    pageOf tools s path = page tools s.fs s.extractor sc := by
  unfold pageOf
  rw [h]
  rfl

theorem pageOf_of_unread {e : Error} (h : Scenario.read s.fs path = .error e) :
    pageOf tools s path = .error e := by
  unfold pageOf
  rw [h]
  rfl

/-- Commands that are carried out one after the other make the same page as commands each of which
is the first. -/
theorem html_runCommands_alike (tools : Tools) (fs : FileSystem) (scenario : Scenario)
    (x : Extractor) :
    Alike Eq (Page.html tools.renderer scenario.body (runCommands tools fs scenario x).1)
      (page tools fs x scenario) := by
  apply Page.html_alike
  intro raw position hmem
  have hrun : ∀ raw (y : Extractor), y.SameAs tools.grammars fs x →
      (Extractor.carryOut tools.grammars fs scenario raw y).2.SameAs tools.grammars fs x :=
    fun raw y hy => (Extractor.sameAs_carryOut scenario raw y).trans hy
  obtain ⟨y, hy, hfound⟩ :=
    exists_mem_runTasks hrun (Snippet.mem_commands_iff.2 hmem) (.refl x)
  have hnodup : ((runCommands tools fs scenario x).1.map Prod.fst).Nodup := by
    unfold runCommands
    rw [map_fst_runTasks]
    exact Snippet.nodup_fst_commands _
  exact ⟨_, lookup_eq_some_of_mem hnodup hfound, (hy.carryOut scenario raw).alike⟩

theorem scenario_eq (tools : Tools) (output path : Path) (s : State) :
    scenario tools output path s = match Scenario.read s.fs path with
      | .error e => (.error e, s)
      | .ok sc =>
        ((finish tools output path sc (runCommands tools s.fs sc s.extractor).1 s.fs).1,
          ⟨(finish tools output path sc (runCommands tools s.fs sc s.extractor).1 s.fs).2,
            (runCommands tools s.fs sc s.extractor).2⟩) := by
  unfold scenario
  cases Scenario.read s.fs path <;> rfl

/-! ## Failures before anything is written -/

/-- Something goes wrong before the page of a scenario is complete. -/
inductive Fails (tools : Tools) (path : Path) (s : State) : Prop
  /-- The scenario cannot be read. -/
  | reading {e : Error} : Scenario.read s.fs path = .error e → Fails tools path s
  /-- A command comes to a failure. -/
  | command {sc : Scenario} {line : String} {e : Error} : Scenario.read s.fs path = .ok sc →
      line ∈ sc.body → Page.fragments (answers tools s.fs s.extractor sc) line = .error e →
      Fails tools path s
  /-- A fragment cannot be rendered. -/
  | rendering {sc : Scenario} {line fragment : String} {fragments : List String} {e : Error} :
      Scenario.read s.fs path = .ok sc → line ∈ sc.body →
      Page.fragments (answers tools s.fs s.extractor sc) line = .ok fragments →
      fragment ∈ fragments → tools.renderer fragment = .error e → Fails tools path s

/-- Where something goes wrong there is no page. -/
theorem Fails.pageOf_ne_ok (h : Fails tools path s) (html : String) :
    pageOf tools s path ≠ .ok html := by
  intro hpage
  obtain ⟨sc, hread, hpage⟩ := bind_eq_ok_iff.1 hpage
  obtain ⟨shown, parts, hshown, hparts, -⟩ := Page.ofAnswers_eq_ok_iff.1 hpage
  cases h with
  | reading hread' =>
      rw [hread] at hread'
      cases hread'
  | command hread' hline herror =>
      obtain rfl := Except.ok.inj (hread.symm.trans hread')
      obtain ⟨fragments, -, hfragments⟩ := exists_mem_of_forall₂ hshown hline
      rw [herror] at hfragments
      cases hfragments
  | rendering hread' hline hfragments hfragment herror =>
      obtain rfl := Except.ok.inj (hread.symm.trans hread')
      obtain ⟨found, hfound, heq⟩ := exists_mem_of_forall₂ hshown hline
      obtain rfl := Except.ok.inj (hfragments.symm.trans heq)
      obtain ⟨part, -, hpart⟩ := exists_mem_of_forall₂ hparts
        (List.mem_flatten.2 ⟨_, hfound, hfragment⟩)
      rw [herror] at hpart
      cases hpart

/-- **Where nothing goes wrong there is a page.** -/
theorem exists_pageOf_of_not_fails (h : ¬ Fails tools path s) :
    ∃ html, pageOf tools s path = .ok html := by
  cases hread : Scenario.read s.fs path with
  | error e => exact absurd (.reading hread) h
  | ok sc =>
      rw [pageOf_of_read hread]
      unfold page Page.ofAnswers
      -- The first line without fragments, or else the first fragment without HTML, is what fails.
      cases hshown : sc.body.mapM (Page.fragments (answers tools s.fs s.extractor sc)) with
      | error e =>
          obtain ⟨before, line, after, hsplit, -, hline⟩ := mapM_eq_error_iff.1 hshown
          exact absurd (.command hread (by simp [hsplit]) hline) h
      | ok shown =>
          cases hparts : shown.flatten.mapM tools.renderer with
          | ok parts => exact ⟨String.join parts, by simp only [bind, Except.bind, hparts]; rfl⟩
          | error e =>
              obtain ⟨before, fragment, after, hsplit, -, hfragment⟩ :=
                mapM_eq_error_iff.1 hparts
              obtain ⟨fragments, hfragments, hmem⟩ :=
                List.mem_flatten.1 (hsplit ▸ List.mem_append_right before List.mem_cons_self)
              obtain ⟨line, hline, hshows⟩ :=
                exists_mem_of_forall₂ (mapM_eq_ok_iff.1 hshown).flip hfragments
              exact absurd (.rendering hread hline hshows hmem hfragment) h

/-- **What goes wrong before the page is complete leaves the files as they are.** -/
theorem Fails.scenario_eq (h : Fails tools path s) (output : Path) :
    (∃ e, (scenario tools output path s).1 = .error e) ∧
      (scenario tools output path s).2.fs = s.fs := by
  rw [Build.scenario_eq]
  cases hread : Scenario.read s.fs path with
  | error e => exact ⟨⟨e, rfl⟩, rfl⟩
  | ok sc =>
      have halike := html_runCommands_alike tools s.fs sc s.extractor
      dsimp only
      unfold finish
      split
      · exact ⟨⟨_, rfl⟩, rfl⟩
      · next html hhtml =>
          -- What the commands came to one after the other would make the page that there is not.
          refine absurd ?_ (h.pageOf_ne_ok html)
          rw [pageOf_of_read hread]
          exact (halike.exists_ok_iff html).1 hhtml

/-- **What goes wrong after that goes wrong in writing the page.** -/
theorem write_of_not_fails (h : ¬ Fails tools path s) (output : Path) :
    ∃ html, pageOf tools s path = .ok html ∧ ∀ e, (scenario tools output path s).1 = .error e →
      (Page.write output (Page.path output path) html s.fs).1 = .error e := by
  obtain ⟨html, hpage⟩ := exists_pageOf_of_not_fails h
  refine ⟨html, hpage, fun e herror => ?_⟩
  rw [scenario_eq] at herror
  obtain ⟨sc, hread, hpage⟩ := bind_eq_ok_iff.1 hpage
  have hhtml := ((html_runCommands_alike tools s.fs sc s.extractor).exists_ok_iff html).2 hpage
  rw [hread] at herror
  dsimp only at herror
  unfold finish at herror
  rw [hhtml] at herror
  dsimp only at herror
  split at herror
  · next e' fs hwrite =>
      rw [hwrite]
      exact congrArg Except.error (Except.error.inj herror)
  · cases herror

/-! ## Success -/

/-- The page of a scenario was made: it stands where its path says, and no other regular file
changed. -/
structure Made (tools : Tools) (output path target : Path) (s : State) (fs' : FileSystem) :
    Prop where
  /-- The page has the name of the scenario's file. -/
  target_eq : ∃ name, (s.fs.Rooted → path.fileName? = some name) ∧
    target = output.join ⟨name ++ ".html"⟩
  /-- The text of the page is that of the scenario, and the one thing that was written. -/
  wrote : ∃ sc html place, Scenario.read s.fs path = .ok sc ∧
    Page.IsOf tools.renderer (answers tools s.fs s.extractor sc) sc.body html ∧
    FileSystem.Wrote target html place s.fs fs'

/-- A written page stands where its path leads. -/
theorem exists_wrote_of_write {html : String} {fs fs' : FileSystem}
    (h : Page.write output target html fs = (.ok (), fs')) :
    ∃ place, FileSystem.Wrote target html place fs fs' := by
  have hmore := fs.moreDirectories_makeDirectories output
  unfold Page.write at h
  split at h
  · cases h
  · next fs₁ hmade =>
      rw [hmade] at hmore
      split at h
      · cases h
      · next fs₂ hwritten =>
          obtain rfl := (Prod.mk.inj h).2
          exact FileSystem.exists_wrote_of_writeText hmore hwritten

/-- Only a regular file is read as a scenario. -/
theorem isFile_of_read {fs : FileSystem} {sc : Scenario} (h : Scenario.read fs path = .ok sc) :
    fs.isFile path = true := by
  unfold Scenario.read at h
  by_contra hfile
  rw [Bool.not_eq_true] at hfile
  simp [hfile] at h

/-- What a file is read as, when it is known what it says. -/
theorem read_of_stat {fs : FileSystem} {content : String} {sc : Scenario}
    (hstat : fs.stat path = .ok (.file (.text content)))
    (hparse : Scenario.parse path content = .ok sc) :
    Scenario.read fs path =
      if fs.leadsSomewhere sc.root then .ok sc else .error (.sourceRootNotFound sc.root) := by
  unfold Scenario.read FileSystem.readText
  rw [FileSystem.isFile_iff.2 ⟨_, hstat⟩, hstat]
  simp only [hparse]
  rfl

theorem made_of_scenario (h : (scenario tools output path s).1 = .ok target) :
    Made tools output path target s (scenario tools output path s).2.fs := by
  rw [scenario_eq] at h ⊢
  cases hread : Scenario.read s.fs path with
  | error e =>
      rw [hread] at h
      cases h
  | ok sc =>
      have halike := html_runCommands_alike tools s.fs sc s.extractor
      rw [hread] at h
      dsimp only at h ⊢
      unfold finish at h ⊢
      split at h
      · cases h
      · next html hhtml =>
          dsimp only at h ⊢
          cases hwrite : Page.write output (Page.path output path) html s.fs with
          | mk result fs' =>
              rw [hwrite] at h
              cases result with
              | error e => cases h
              | ok _ =>
                  obtain rfl := Except.ok.inj h
                  obtain ⟨place, hplace⟩ := exists_wrote_of_write hwrite
                  have hpage := (halike.exists_ok_iff html).1 hhtml
                  refine ⟨⟨path.fileName?.getD "scenario", fun hrooted => ?_, rfl⟩,
                    sc, html, place, hread, Page.ofAnswers_eq_ok_iff.1 hpage, hplace⟩
                  obtain ⟨name, hname⟩ := hrooted.exists_fileName?_of_isFile (isFile_of_read hread)
                  rw [hname]
                  rfl

/-! ## Two scenarios -/

/-- Two scenarios that differ in their source roots only, with nothing else in their files. -/
def twoScenarios (root : String) : State :=
  ⟨⟨[(["a"], .file (.text (root ++ "\nu\nx"))), (["b"], .file (.text ".\nu\nx"))], []⟩,
    { settings := .default }⟩

/-- No parsers, and a renderer that shows Markdown as it is. -/
def plainTools : Tools := ⟨fun _ _ => .error "", .ok⟩

theorem isPlain_twoScenarios (root : String) : (twoScenarios root).fs.IsPlain := by
  apply FileSystem.isPlain_of_entries rfl
  intro place entry hmem
  simp only [twoScenarios, List.mem_cons, List.not_mem_nil, or_false, Prod.mk.injEq] at hmem
  rcases hmem with ⟨rfl, rfl⟩ | ⟨rfl, rfl⟩ <;> exact ⟨rfl, nofun⟩

/-- The two scenarios say what they are meant to say. -/
structure Legible (root : String) : Prop where
  /-- The first one is there. -/
  first : (twoScenarios root).fs.stat ⟨"a"⟩ = .ok (.file (.text (root ++ "\nu\nx")))
  /-- The second one is there. -/
  second : (twoScenarios root).fs.stat ⟨"b"⟩ = .ok (.file (.text ".\nu\nx"))
  /-- The source root of the first one has this name. -/
  parse : Scenario.parse ⟨"a"⟩ (root ++ "\nu\nx") = .ok ⟨⟨root⟩, "u", ["x"]⟩

theorem parse_second : Scenario.parse ⟨"b"⟩ ".\nu\nx" = .ok ⟨⟨"."⟩, "u", ["x"]⟩ := by
  decide +kernel

/-- A scenario succeeds where its page is complete and can be written. -/
theorem scenario_eq_ok {sc : Scenario} {finished : Finished (List String)} {x : Extractor}
    {html : String} {fs₁ : FileSystem} {place : Place} (hplain : s.fs.IsPlain)
    (hread : Scenario.read s.fs path = .ok sc)
    (hrun : runCommands tools s.fs sc s.extractor = (finished, x))
    (hhtml : Page.html tools.renderer sc.body finished = .ok html)
    (hmake : s.fs.makeDirectories output = (.ok (), fs₁)) (htarget : Page.path output path = target)
    (hpasses : fs₁.Passes target) (hplace : fs₁.placeOf target = place)
    (hfree : fs₁.lookup? place ≠ some .directory) :
    scenario tools output path s = (.ok target, ⟨fs₁.put place (.file (.text html)), x⟩) := by
  subst htarget hplace
  have hwrite :=
    (hplain.isPlain_of_makeDirectories hmake).1.writeText_of_free hpasses hfree html
  rw [scenario_eq, hread]
  dsimp only
  rw [hrun]
  unfold finish Page.write
  simp only [hhtml, hmake, hwrite]

/-! The source root of the first scenario may be a detour through the directory of pages. -/

theorem legible_detour : Legible "out/.." :=
  ⟨(isPlain_twoScenarios _).stat_eq_ok_iff.2 (by decide +kernel),
    (isPlain_twoScenarios _).stat_eq_ok_iff.2 (by decide +kernel), by decide +kernel⟩

/-- There is no way through a directory that has not been made. -/
theorem read_detour : Scenario.read (twoScenarios "out/..").fs ⟨"a"⟩ =
    .error (.sourceRootNotFound ⟨"out/.."⟩) := by
  rw [read_of_stat legible_detour.first legible_detour.parse,
    if_neg (by rw [(isPlain_twoScenarios _).leadsSomewhere_iff]; decide +kernel)]

/-- The files when the second scenario has been worked on. -/
def detoured : FileSystem :=
  ((twoScenarios "out/..").fs.put ["out"] .directory).put ["out", "b.html"] (.file (.text "x"))

theorem isPlain_detoured : detoured.IsPlain :=
  have hmade : ((twoScenarios "out/..").fs.put ["out"] .directory).IsPlain :=
    (isPlain_twoScenarios _).put (by decide) rfl nofun (.inl rfl)
  hmade.put (by decide) (by decide +kernel) nofun (.inr (by decide +kernel))

theorem scenario_detour : scenario plainTools ⟨"out"⟩ ⟨"b"⟩ (twoScenarios "out/..") =
    (.ok ⟨"out/b.html"⟩, ⟨detoured, (twoScenarios "out/..").extractor⟩) := by
  have hplain := isPlain_twoScenarios "out/.."
  have hread := read_of_stat legible_detour.second parse_second
  rw [if_pos (hplain.leadsSomewhere_iff.2 (by decide +kernel))] at hread
  have hmake : (twoScenarios "out/..").fs.makeDirectories ⟨"out"⟩ =
      (.ok (), (twoScenarios "out/..").fs.put ["out"] .directory) :=
    hplain.makeDirectories_of_vacant (by decide +kernel) (by decide +kernel) (by decide +kernel)
      (by decide +kernel)
  exact scenario_eq_ok hplain hread rfl (by decide +kernel) hmake (by decide +kernel)
    (by decide +kernel) (by decide +kernel) (by decide +kernel)

/-! ## All or nothing -/

/-- **All or nothing.**  If something goes wrong before the page of a scenario is complete, then
making it fails and the files stay as they are; all other failures are failures to write the page.
If making it succeeds, then the page is what the path in the answer leads to, its text is the HTML
of all lines of the body in order, and it is the only regular file that is another than before. -/
theorem scenario_fails_or_made (tools : Tools) (output path : Path) (s : State) :
    (Fails tools path s → (∃ e, (scenario tools output path s).1 = .error e) ∧
      (scenario tools output path s).2.fs = s.fs) ∧
    (¬ Fails tools path s → ∃ html, pageOf tools s path = .ok html ∧
      ∀ e, (scenario tools output path s).1 = .error e →
        (Page.write output (Page.path output path) html s.fs).1 = .error e) ∧
    ∀ target, (scenario tools output path s).1 = .ok target →
      Made tools output path target s (scenario tools output path s).2.fs :=
  ⟨fun h => h.scenario_eq output, fun h => write_of_not_fails h output,
    fun _ h => made_of_scenario h⟩

/-! Two scenarios ask for a constant, and only the second one for the one that there is. -/

/-- A source file with one constant. -/
def constText : String := "const A: u8 = 1;"

/-- The tree of `constText`. -/
def constTree : Node :=
  ⟨"source_file", true, none, 0, 16, [
    ⟨"const_item", true, none, 0, 16, [
      ⟨"const", false, none, 0, 5, []⟩,
      ⟨"identifier", true, some "name", 6, 7, []⟩,
      ⟨":", false, none, 7, 8, []⟩,
      ⟨"primitive_type", true, some "type", 9, 11, []⟩,
      ⟨"=", false, none, 12, 13, []⟩,
      ⟨"integer_literal", true, some "value", 14, 15, []⟩,
      ⟨";", false, none, 15, 16, []⟩]⟩]⟩

/-- The text of a scenario with a line of prose and a command for the constant `name`. -/
def asking (name : String) : String := ".\nu\nx\n@def c::" ++ name

/-- The two scenarios beside the source file. -/
def askingScenarios : State :=
  ⟨⟨[(["a"], .file (.text (asking "B"))), (["b"], .file (.text (asking "A"))),
      (["c.rs"], .file (.text constText))], []⟩, { settings := .default }⟩

/-- A parser of `constText`, and a renderer that shows Markdown as it is. -/
def constTools : Tools := ⟨fun _ _ => .ok constTree, .ok⟩

theorem isPlain_askingScenarios : askingScenarios.fs.IsPlain := by
  apply FileSystem.isPlain_of_entries rfl
  intro place entry hmem
  simp only [askingScenarios, List.mem_cons, List.not_mem_nil, or_false, Prod.mk.injEq] at hmem
  rcases hmem with ⟨rfl, rfl⟩ | ⟨rfl, rfl⟩ | ⟨rfl, rfl⟩ <;> exact ⟨rfl, nofun⟩

/-- What the two scenarios say. -/
theorem says_askingScenarios {name : String} (h : (path, name) ∈ [(⟨"a"⟩, "B"), (⟨"b"⟩, "A")]) :
    askingScenarios.fs.stat path = .ok (.file (.text (asking name))) ∧
      Scenario.parse path (asking name) = .ok ⟨⟨"."⟩, "u", ["x", "@def c::" ++ name]⟩ := by
  have hall : ∀ pair ∈ [((⟨"a"⟩ : Path), "B"), (⟨"b"⟩, "A")],
      (askingScenarios.fs.Passes pair.1 ∧
        askingScenarios.fs.lookup? (askingScenarios.fs.placeOf pair.1) =
          some (.file (.text (asking pair.2)))) ∧
      Scenario.parse pair.1 (asking pair.2) = .ok ⟨⟨"."⟩, "u", ["x", "@def c::" ++ pair.2]⟩ := by
    decide +kernel
  obtain ⟨hfile, hparse⟩ := hall (path, name) h
  exact ⟨isPlain_askingScenarios.stat_eq_ok_iff.2 hfile, hparse⟩

theorem read_askingScenarios {name : String} (h : (path, name) ∈ [(⟨"a"⟩, "B"), (⟨"b"⟩, "A")]) :
    Scenario.read askingScenarios.fs path = .ok ⟨⟨"."⟩, "u", ["x", "@def c::" ++ name]⟩ := by
  obtain ⟨hstat, hparse⟩ := says_askingScenarios h
  have hroot : askingScenarios.fs.leadsSomewhere ⟨"."⟩ = true :=
    isPlain_askingScenarios.leadsSomewhere_iff.2 (by decide +kernel)
  rw [read_of_stat hstat hparse, if_pos hroot]

/-- The source file as it is loaded. -/
def constFile : SourceFile := .ofTree ⟨"./c.rs"⟩ .rust constText constTree

/-- What a command for a constant comes to is told by what is cut out of the source file. -/
theorem answers_askingScenarios {name raw : String} {body : List String}
    (hparse : Command.parse raw = .ok ⟨.definition, "c", name⟩) :
    answers constTools askingScenarios.fs askingScenarios.extractor ⟨⟨"."⟩, "u", body⟩ raw =
      match constFile.cut name .definition with
      | .error e => .error (.commandFailed raw e)
      | .ok cutting => .ok (Location.header Settings.default.home cutting.line
            ⟨⟨"."⟩, ⟨"c.rs"⟩, name, "u"⟩ ::
          ((Piece.ofText cutting.text.toList).filterMap Piece.clean?).map
            (Segment.toMarkdown cutting.fence)) := by
  have hfile : Path.mk (String.ofList (expandPath Settings.default.home "c") ++ "." ++
      Settings.default.extension) = ⟨"c.rs"⟩ := by decide +kernel
  have hlocation : Location.ofCommand .default ⟨"."⟩ "u" ⟨.definition, "c", name⟩ =
      ⟨⟨"."⟩, ⟨"c.rs"⟩, name, "u"⟩ := by
    unfold Location.ofCommand
    rw [hfile]
  have hpath : (Location.mk ⟨"."⟩ ⟨"c.rs"⟩ name "u").sourcePath = ⟨"./c.rs"⟩ := by
    show Path.join ⟨"."⟩ ⟨"c.rs"⟩ = ⟨"./c.rs"⟩
    decide +kernel
  have hstat : askingScenarios.fs.stat ⟨"./c.rs"⟩ = .ok (.file (.text constText)) :=
    isPlain_askingScenarios.stat_eq_ok_iff.2 (by decide +kernel)
  have hresolve : Location.resolve askingScenarios.fs .default ⟨"."⟩ "u" ⟨.definition, "c", name⟩ =
      .ok ⟨⟨"."⟩, ⟨"c.rs"⟩, name, "u"⟩ :=
    Location.resolve_eq_ok_iff.2 ⟨hlocation.symm, FileSystem.isFile_iff.2 ⟨_, hpath ▸ hstat⟩⟩
  have htarget : Extractor.target askingScenarios.fs askingScenarios.extractor.settings
      ⟨⟨"."⟩, "u", body⟩ raw = .ok (⟨⟨"."⟩, ⟨"c.rs"⟩, name, "u"⟩, .definition) :=
    bind_eq_ok_iff.2 ⟨_, hparse, bind_eq_ok_iff.2 ⟨_, hresolve, rfl⟩⟩
  have hload : SourceFile.load constTools.grammars askingScenarios.fs ⟨"./c.rs"⟩ =
      .ok constFile := by
    unfold SourceFile.load FileSystem.size FileSystem.readText
    rw [hstat]
    rfl
  have hsource : Extractor.sourceOf constTools.grammars askingScenarios.fs ⟨"./c.rs"⟩
      askingScenarios.extractor = .ok constFile := hload
  rw [answers_eq htarget, Extractor.cut_eq, hpath, hsource]
  rfl

/-- The command for the constant that there is comes to a heading and the constant. -/
theorem answers_known :
    answers constTools askingScenarios.fs askingScenarios.extractor
        ⟨⟨"."⟩, "u", ["x", "@def c::A"]⟩ "@def c::A" =
      .ok ["##### [c.rs::A](u/c.rs#L1)", "```rust\nconst A: u8 = 1;\n```"] := by
  have hparse : Command.parse "@def c::A" = .ok ⟨.definition, "c", "A"⟩ := by decide +kernel
  have hcut : constFile.cut "A" .definition = .ok ⟨constText, "rust", 1⟩ := by decide +kernel
  rw [answers_askingScenarios hparse, hcut]
  exact congrArg Except.ok (by decide +kernel)

/-- The command for the other one fails. -/
theorem answers_unknown :
    answers constTools askingScenarios.fs askingScenarios.extractor
        ⟨⟨"."⟩, "u", ["x", "@def c::B"]⟩ "@def c::B" =
      .error (.commandFailed "@def c::B" (.declarationNotFound ["A"] ⟨"./c.rs"⟩ "B")) := by
  have hparse : Command.parse "@def c::B" = .ok ⟨.definition, "c", "B"⟩ := by decide +kernel
  have hcut : constFile.cut "B" .definition =
      .error (.declarationNotFound ["A"] ⟨"./c.rs"⟩ "B") := by decide +kernel
  rw [answers_askingScenarios hparse, hcut]

/-- The page of the scenario that asks for the constant that there is. -/
theorem scenario_known : (scenario constTools ⟨"out"⟩ ⟨"b"⟩ askingScenarios).1 =
    .ok ⟨"out/b.html"⟩ := by
  have hplain := isPlain_askingScenarios
  have hread : Scenario.read askingScenarios.fs ⟨"b"⟩ = .ok ⟨⟨"."⟩, "u", ["x", "@def c::A"]⟩ :=
    @read_askingScenarios _ "A" (by decide)
  have hcommands : Snippet.commands (Snippet.classify ["x", "@def c::A"]) = [(1, "@def c::A")] := by
    decide +kernel
  have hrun : runCommands constTools askingScenarios.fs ⟨⟨"."⟩, "u", ["x", "@def c::A"]⟩
      askingScenarios.extractor =
        ([(1, .ok ["##### [c.rs::A](u/c.rs#L1)", "```rust\nconst A: u8 = 1;\n```"])],
          (askingScenarios.extractor.carryOut constTools.grammars askingScenarios.fs
            ⟨⟨"."⟩, "u", ["x", "@def c::A"]⟩ "@def c::A").2) := by
    unfold runCommands
    dsimp only
    rw [hcommands, ← answers_known]
    rfl
  have hmake : askingScenarios.fs.makeDirectories ⟨"out"⟩ =
      (.ok (), askingScenarios.fs.put ["out"] .directory) :=
    hplain.makeDirectories_of_vacant (by decide +kernel) (by decide +kernel) (by decide +kernel)
      (by decide +kernel)
  have hdone := @scenario_eq_ok constTools ⟨"out"⟩ ⟨"b"⟩ ⟨"out/b.html"⟩ askingScenarios _ _ _ _ _
    ["out", "b.html"] hplain hread hrun rfl hmake (by decide +kernel) (by decide +kernel)
    (by decide +kernel) (by decide +kernel)
  rw [hdone]

/-- A scenario with a command that fails and one whose command does not. -/
theorem scenario_fails_or_made_asking :
    (Fails constTools ⟨"a"⟩ askingScenarios ∧
      (scenario constTools ⟨"out"⟩ ⟨"a"⟩ askingScenarios).2.fs = askingScenarios.fs) ∧
    (scenario constTools ⟨"out"⟩ ⟨"b"⟩ askingScenarios).1 = .ok ⟨"out/b.html"⟩ ∧
      Made constTools ⟨"out"⟩ ⟨"b"⟩ ⟨"out/b.html"⟩ askingScenarios
        (scenario constTools ⟨"out"⟩ ⟨"b"⟩ askingScenarios).2.fs := by
  have hread : Scenario.read askingScenarios.fs ⟨"a"⟩ = .ok ⟨⟨"."⟩, "u", ["x", "@def c::B"]⟩ :=
    @read_askingScenarios _ "B" (by decide)
  have hfails : Fails constTools ⟨"a"⟩ askingScenarios :=
    .command hread (List.mem_cons_of_mem _ List.mem_cons_self) answers_unknown
  exact ⟨⟨hfails, ((scenario_fails_or_made constTools ⟨"out"⟩ ⟨"a"⟩ _).1 hfails).2⟩,
    scenario_known, (scenario_fails_or_made constTools ⟨"out"⟩ ⟨"b"⟩ _).2.2 _ scenario_known⟩

end Build

end LiveExcerpts
