import LiveExcerpts.Build
import LiveExcerpts.Diagnostic
import LiveExcerpts.Settings.Load
/-!
# Watching

A watch builds all pages once, then again whenever something changes in one of the directories it
looks after: the directory of scenarios, and the source roots that the scenarios name.  A failed
build is told and does not end the watch.

Main definitions: `Watch.start`, `Watch.rebuild`, `Watch.watchedDirectories`.  Main statements: the
directory of scenarios is always looked after (`scenarios_mem_watchedDirectories`), and none is
counted twice for being spelled in two ways (`pairwise_watchedDirectories`).
-/

namespace LiveExcerpts

/-- What a watch goes by. -/
structure Watch where
  /-- The settings it started with. -/
  settings : Settings
  /-- The directories it looks after. -/
  directories : List Path
deriving DecidableEq, Repr

namespace Watch

/-- Some paths without those that are spellings of an earlier one. -/
def distinct (paths : List Path) : List Path :=
  paths.foldl (fun kept p => if kept.any (p.SameAs ·) then kept else kept ++ [p]) []

/-- The directories to look after: that of the scenarios, and the source root of each scenario that
can be read. -/
def watchedDirectories (settings : Settings) (fs : FileSystem) : List Path :=
  let roots := match Scenario.discover fs settings.scenarios with
    | .error _ => []
    | .ok paths => paths.filterMap fun path => (Scenario.read fs path).toOption.map Scenario.root
  distinct (settings.scenarios :: roots)

/-- Builds all pages, and tells what came of it. -/
def build (tools : Tools) (settings : Settings) (fs : FileSystem) : List String × FileSystem :=
  match Build.run tools settings fs with
  | (.ok written, fs) => ([s!"watch: wrote {written.length} pages"], fs)
  | (.error e, fs) => (e.terminalLines, fs)

/-- How a watch starts: the lines it prints, what it goes by unless it failed to start, and the
files after its first build. -/
structure Start where
  /-- The lines. -/
  lines : List String
  /-- The watch, or why there is none. -/
  watch : Except Error Watch
  /-- The files. -/
  fs : FileSystem

/-- Starts a watch with a first build. -/
def start (tools : Tools) (settings : Settings) (fs : FileSystem) : Start :=
  let (built, fs) := build tools settings fs
  let lines := "watch: initial build" :: built
  if settings.output.text = "" then
    { lines := lines
      watch := .error (.io .emptyPath)
      fs := fs }
  else
    let directories := watchedDirectories settings fs
    { lines := lines ++
        [s!"watch: monitoring {directories.length} directories, press Ctrl+C to stop"]
      watch := .ok ⟨settings, directories⟩
      fs := fs }

/-- Builds again after a change. -/
def rebuild (tools : Tools) (watch : Watch) (fs : FileSystem) : List String × FileSystem :=
  let (built, fs) := build tools watch.settings fs
  ("watch: change detected, rebuilding..." :: built, fs)

/-! ## Laws -/

theorem pairwise_distinct_foldl {paths kept : List Path}
    (h : kept.Pairwise fun p q => ¬ p.SameAs q) :
    (paths.foldl (fun kept p => if kept.any (p.SameAs ·) then kept else kept ++ [p]) kept).Pairwise
      fun p q => ¬ p.SameAs q := by
  induction paths generalizing kept with
  | nil => exact h
  | cons p paths ih =>
      rw [List.foldl_cons]
      split
      · exact ih h
      · next hp =>
          refine ih (List.pairwise_append.2 ⟨h, List.pairwise_singleton _ _, ?_⟩)
          intro q hq r hr hqr
          obtain rfl := List.mem_singleton.1 hr
          exact hp (List.any_eq_true.2 ⟨q, hq, decide_eq_true hqr.symm⟩)

/-- No directory is counted twice. -/
theorem pairwise_watchedDirectories (settings : Settings) (fs : FileSystem) :
    (watchedDirectories settings fs).Pairwise fun p q => ¬ p.SameAs q :=
  pairwise_distinct_foldl List.Pairwise.nil

theorem mem_distinct_foldl {paths kept : List Path} {p : Path} (h : p ∈ kept) :
    p ∈ paths.foldl (fun kept p => if kept.any (p.SameAs ·) then kept else kept ++ [p]) kept := by
  induction paths generalizing kept with
  | nil => exact h
  | cons q paths ih =>
      rw [List.foldl_cons]
      split
      · exact ih h
      · exact ih (List.mem_append_left _ h)

/-- The directory of scenarios is always looked after. -/
theorem scenarios_mem_watchedDirectories (settings : Settings) (fs : FileSystem) :
    settings.scenarios ∈ watchedDirectories settings fs := by
  rw [watchedDirectories, distinct, List.foldl_cons]
  exact mem_distinct_foldl (by simp)

end Watch

end LiveExcerpts
