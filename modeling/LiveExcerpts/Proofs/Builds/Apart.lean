import LiveExcerpts.Proofs.Builds.AllOrNothing
import LiveExcerpts.Proofs.Files.Directories
/-!
# What a build reads and what it writes

While a build goes on, directories and pages appear in its files.  If they lie apart from what the
build reads, then reading a scenario, locating a command and cutting out an excerpt come to the
same at any time.

It is not enough that no path that is read leads to a place that is written: a path may also pass
through a directory that has yet to be made and leave it again by `..`.

Main definitions: `Build.Reads`, `Build.Apart`, `Build.Evolved`.  Main statements:
`Build.Evolved.stat_eq_ok_iff`, `Build.Evolved.read_eq`, `Build.Evolved.target_eq`,
`Build.Evolved.cut_eq`.
-/

namespace LiveExcerpts

namespace Build

/-- The paths that a build of some scenarios reads: the scenarios, their source roots, and the
source files that their commands name. -/
inductive Reads (settings : Settings) (fs : FileSystem) (paths : List Path) : Path → Prop
  /-- A scenario. -/
  | scenario {path : Path} : path ∈ paths → Reads settings fs paths path
  /-- The source root of a scenario. -/
  | root {path : Path} {content : String} {sc : Scenario} : path ∈ paths →
      fs.readText path = .ok content → Scenario.parse path content = .ok sc →
      Reads settings fs paths sc.root
  /-- The source file of a command. -/
  | source {path : Path} {content : String} {sc : Scenario} {raw : String} {command : Command} :
      path ∈ paths → fs.readText path = .ok content → Scenario.parse path content = .ok sc →
      .command raw ∈ Snippet.classify sc.body → Command.parse raw = .ok command →
      Reads settings fs paths (Location.ofCommand settings sc.root sc.url command).sourcePath

/-- The places where a build makes directories: that of its output and of those above it, as far as
they are missing. -/
def Creates (output : Path) (fs : FileSystem) (place : Place) : Prop :=
  ∃ p ∈ output.ancestors, place = fs.placeOf p ∧ fs.lookup? place = none

instance (output : Path) (fs : FileSystem) (place : Place) : Decidable (Creates output fs place) :=
  inferInstanceAs (Decidable (∃ _ ∈ _, _))

/-- The places where a build writes pages. -/
def Writes (output : Path) (fs : FileSystem) (paths : List Path) (place : Place) : Prop :=
  ∃ path ∈ paths, place = fs.placeOf (Page.path output path)

instance (output : Path) (fs : FileSystem) (paths : List Path) (place : Place) :
    Decidable (Writes output fs paths place) :=
  inferInstanceAs (Decidable (∃ _ ∈ _, _))

/-- What a build reads lies apart from what it writes. -/
structure Apart (output : Path) (paths : List Path) (settings : Settings) (fs : FileSystem) :
    Prop where
  /-- No path that is read leads to a directory that is made. -/
  created : ∀ p, Reads settings fs paths p → ¬ Creates output fs (fs.placeOf p)
  /-- No path that is read leads to a page. -/
  written : ∀ p, Reads settings fs paths p → ¬ Writes output fs paths (fs.placeOf p)

/-- No path that is read leaves a directory by `..` that a build makes. -/
def StaysOut (output : Path) (paths : List Path) (settings : Settings) (fs : FileSystem) : Prop :=
  ∀ p, Reads settings fs paths p → ∀ before after, p.parts = before ++ ".." :: after →
    ¬ Creates output fs (Place.follow (fs.startOf p) before)

/-! ## Files while a build goes on -/

/-- The files are what a build may have made of them: some directories that it makes and some pages
that it writes are there. -/
structure Evolved (output : Path) (paths : List Path) (fs₀ fs : FileSystem) : Prop where
  /-- It is a tree of directories and files. -/
  plain : fs.IsPlain
  /-- Relative paths start at the same place. -/
  workingDirectory : fs.workingDirectory = fs₀.workingDirectory
  /-- Everywhere else the files are as they were. -/
  same : ∀ place, ¬ Creates output fs₀ place → ¬ Writes output fs₀ paths place →
    fs.lookup? place = fs₀.lookup? place
  /-- The directories are still there. -/
  kept : ∀ place, fs₀.lookup? place = some .directory → fs.lookup? place = some .directory
  /-- What is a directory now was one before, or is one that is made. -/
  new : ∀ place, fs.lookup? place = some .directory →
    fs₀.lookup? place = some .directory ∨ Creates output fs₀ place

/-- What is read as a scenario is what the file at its path says. -/
theorem exists_parse_of_read {fs : FileSystem} {path : Path} {sc : Scenario}
    (h : Scenario.read fs path = .ok sc) :
    ∃ content, fs.readText path = .ok content ∧ Scenario.parse path content = .ok sc := by
  unfold Scenario.read at h
  split at h
  · cases h
  · split at h
    · cases h
    · next content hcontent =>
        obtain ⟨parsed, hparsed, hrest⟩ := bind_eq_ok_iff.1 h
        split at hrest
        · obtain rfl := Except.ok.inj hrest
          exact ⟨content, hcontent, hparsed⟩
        · cases hrest

/-- Where a command of a scenario looks is read. -/
theorem reads_of_target {settings : Settings} {fs : FileSystem} {paths : List Path} {path : Path}
    {sc : Scenario} {raw : String} {location : Location} {extent : Extent} (hpath : path ∈ paths)
    (hread : Scenario.read fs path = .ok sc) (hraw : .command raw ∈ Snippet.classify sc.body)
    (htarget : Extractor.target fs settings sc raw = .ok (location, extent)) :
    Reads settings fs paths location.sourcePath := by
  obtain ⟨content, hcontent, hparse⟩ := exists_parse_of_read hread
  obtain ⟨command, hcommand, hrest⟩ := bind_eq_ok_iff.1 htarget
  obtain ⟨found, hfound, hpair⟩ := bind_eq_ok_iff.1 hrest
  obtain ⟨rfl, -⟩ := Prod.mk.inj (Except.ok.inj hpair)
  rw [(Location.resolve_eq_ok_iff.1 hfound).1]
  exact .source hpath hcontent hparse hraw hcommand

namespace Evolved

variable {output : Path} {paths : List Path} {settings : Settings} {fs₀ fs : FileSystem}

/-- From a directory that was made, without leaving it, only to what was not there. -/
theorem lookup?_follow_eq_none (h : Evolved output paths fs₀ fs) (h₀ : fs₀.IsPlain) {here : Place}
    {parts : List String} (hhere : fs₀.lookup? here = none) (hparts : fs.Passable here parts)
    (hout : ∀ before after, parts = before ++ ".." :: after →
      ¬ Creates output fs₀ (Place.follow here before)) :
    fs₀.lookup? (Place.follow here parts) = none := by
  induction hparts with
  | nil => exact hhere
  | @cons here part rest hdirectory hsize hrest ih =>
      have hcreated : Creates output fs₀ here := by
        rcases h.new here hdirectory with hold | hnew
        · rw [hhere] at hold
          cases hold
        · exact hnew
      apply ih
      · by_cases hskip : part = "" ∨ part = "."
        · rwa [Place.step_of_skip hskip]
        by_cases hup : part = ".."
        · -- This is the way out that is forbidden.
          exact absurd hcreated (hout [] rest (by rw [hup]; rfl))
        rw [Place.step_of_name hskip hup]
        by_contra hfound
        have hold := h₀.parent here part hfound
        rw [hhere] at hold
        cases hold
      · intro before after heq
        exact hout (part :: before) after (by rw [heq]; rfl)

/-- What was there before the build is reached in the same way. -/
theorem passable_of (h : Evolved output paths fs₀ fs) (h₀ : fs₀.IsPlain) {here : Place}
    {parts : List String} (hparts : fs.Passable here parts)
    (hout : ∀ before after, parts = before ++ ".." :: after →
      ¬ Creates output fs₀ (Place.follow here before))
    (hfound : fs₀.lookup? (Place.follow here parts) ≠ none) : fs₀.Passable here parts := by
  induction hparts with
  | nil => exact .nil
  | @cons here part rest hdirectory hsize hrest ih =>
      rcases h.new here hdirectory with hold | ⟨p, hp, hplace, hmissing⟩
      · -- The directory was there, and the rest of the way starts one step further.
        refine .cons hold hsize (ih (fun before after heq => ?_) hfound)
        exact hout (part :: before) after (by rw [heq]; rfl)
      · exact absurd
          (h.lookup?_follow_eq_none h₀ hmissing (.cons hdirectory hsize hrest) hout) hfound

/-- **What is read is the same at any time of the build.** -/
theorem stat_eq_ok_iff (h : Evolved output paths fs₀ fs) (h₀ : fs₀.IsPlain)
    (hapart : Apart output paths settings fs₀) (hout : StaysOut output paths settings fs₀)
    {p : Path} (hp : Reads settings fs₀ paths p) {entry : Entry} :
    fs.stat p = .ok entry ↔ fs₀.stat p = .ok entry := by
  rw [h.plain.stat_eq_ok_iff, h₀.stat_eq_ok_iff, FileSystem.placeOf_congr h.workingDirectory,
    h.same _ (hapart.created p hp) (hapart.written p hp)]
  unfold FileSystem.Passes
  rw [FileSystem.startOf_congr h.workingDirectory]
  constructor
  · rintro ⟨⟨hfault, hparts⟩, hfound⟩
    refine ⟨⟨hfault, h.passable_of h₀ hparts (hout p hp) ?_⟩, hfound⟩
    change fs₀.lookup? (fs₀.placeOf p) ≠ none
    simp [hfound]
  · rintro ⟨⟨hfault, hparts⟩, hfound⟩
    exact ⟨⟨hfault, hparts.mono h.kept⟩, hfound⟩

section Reading

variable {path : Path} {sc : Scenario} {raw : String} (h : Evolved output paths fs₀ fs)
  (h₀ : fs₀.IsPlain) (hapart : Apart output paths settings fs₀)
  (hout : StaysOut output paths settings fs₀)
include h h₀ hapart hout

theorem isFile_eq {p : Path} (hp : Reads settings fs₀ paths p) : fs.isFile p = fs₀.isFile p := by
  rw [Bool.eq_iff_iff, FileSystem.isFile_iff, FileSystem.isFile_iff]
  simp only [h.stat_eq_ok_iff h₀ hapart hout hp]

theorem leadsSomewhere_eq {p : Path} (hp : Reads settings fs₀ paths p) :
    fs.leadsSomewhere p = fs₀.leadsSomewhere p := by
  rw [Bool.eq_iff_iff, FileSystem.leadsSomewhere_iff, FileSystem.leadsSomewhere_iff]
  simp only [h.stat_eq_ok_iff h₀ hapart hout hp]

theorem exists_stat_eq {p : Path} (hp : Reads settings fs₀ paths p)
    (hfile : fs₀.isFile p = true) :
    ∃ entry, fs.stat p = .ok entry ∧ fs₀.stat p = .ok entry := by
  obtain ⟨contents, hstat⟩ := FileSystem.isFile_iff.1 hfile
  exact ⟨_, (h.stat_eq_ok_iff h₀ hapart hout hp).2 hstat, hstat⟩

/-- **A scenario is read in the same way at any time of the build.** -/
theorem read_eq (hpath : path ∈ paths) : Scenario.read fs path = Scenario.read fs₀ path := by
  have hfile := h.isFile_eq h₀ hapart hout (.scenario hpath)
  unfold Scenario.read
  rw [hfile]
  by_cases hfile₀ : fs₀.isFile path = true
  · obtain ⟨entry, hstat, hstat₀⟩ := h.exists_stat_eq h₀ hapart hout (.scenario hpath) hfile₀
    have htext : fs.readText path = fs₀.readText path := by
      unfold FileSystem.readText
      rw [hstat, hstat₀]
    rw [htext]
    cases hcontent : fs₀.readText path with
    | error cause => rfl
    | ok content =>
        cases hparse : Scenario.parse path content with
        | error e => simp only [hparse]; rfl
        | ok parsed =>
            simp only [hparse, bind, Except.bind]
            rw [h.leadsSomewhere_eq h₀ hapart hout (.root hpath hcontent hparse)]
  · rw [Bool.not_eq_true] at hfile₀
    rw [hfile₀]
    rfl

/-- **A command looks in the same place at any time of the build.** -/
theorem target_eq (hpath : path ∈ paths) (hread : Scenario.read fs₀ path = .ok sc)
    (hraw : .command raw ∈ Snippet.classify sc.body) :
    Extractor.target fs settings sc raw = Extractor.target fs₀ settings sc raw := by
  obtain ⟨content, hcontent, hparse⟩ := exists_parse_of_read hread
  have hresolve : ∀ command, Command.parse raw = .ok command →
      Location.resolve fs settings sc.root sc.url command =
        Location.resolve fs₀ settings sc.root sc.url command := by
    intro command hcommand
    have hfile := h.isFile_eq h₀ hapart hout (.source hpath hcontent hparse hraw hcommand)
    unfold Location.resolve
    simp only [hfile]
  unfold Extractor.target
  cases hcommand : Command.parse raw with
  | error e => simp only [bind, Except.bind]
  | ok command => simp only [bind, Except.bind, hresolve command hcommand]

/-- **An excerpt is cut out of the same text at any time of the build.** -/
theorem cut_eq {location : Location} (hp : Reads settings fs₀ paths location.sourcePath)
    (hfile : fs₀.isFile location.sourcePath = true) (grammars : Grammars) (extent : Extent)
    (x : Extractor) : x.cut grammars fs location extent = x.cut grammars fs₀ location extent := by
  obtain ⟨entry, hstat, hstat₀⟩ := h.exists_stat_eq h₀ hapart hout hp hfile
  have hload : SourceFile.load grammars fs location.sourcePath =
      SourceFile.load grammars fs₀ location.sourcePath := by
    unfold SourceFile.load FileSystem.size FileSystem.readText
    rw [hstat, hstat₀]
  unfold Extractor.cut
  dsimp only
  rw [hload]

end Reading

end Evolved

end Build

end LiveExcerpts
