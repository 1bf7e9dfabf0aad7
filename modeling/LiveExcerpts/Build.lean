import LiveExcerpts.Page
/-!
# Building

A build makes a page of every scenario in a directory.  Scenarios do not wait for one another's
success: those that fail are passed over, and the first failure is told in the end.

Main definitions: `Scenario.read`, `Scenario.discover`, `Build.scenario`, `Build.run`.
-/

namespace LiveExcerpts

/-- The scenario files in a directory, in the order of their names.  Only what is itself a regular
file counts, not a link to one. -/
def Scenario.discover (fs : FileSystem) (directory : Path) : Except Error (List Path) :=
  match fs.list directory with
  | .error _ => .error (.scenarioNotFound directory)
  | .ok entries =>
    .ok <| entries.filterMap fun (name, entry) =>
      match entry with
      | .file _ => some (directory.join ⟨name⟩)
      | _ => none

/-- The scenario in a file, whose source root has to exist. -/
def Scenario.read (fs : FileSystem) (path : Path) : Except Error Scenario :=
  if !fs.isFile path then .error (.scenarioNotFound path)
  else
    match fs.readText path with
    | .error cause => .error (.io cause)
    | .ok content => do
      let scenario ← Scenario.parse path content
      if fs.leadsSomewhere scenario.root then return scenario
      else throw (.sourceRootNotFound scenario.root)

/-- What a build needs besides its files: the parsers, and the renderer of Markdown. -/
structure Tools where
  /-- The parsers. -/
  grammars : Grammars
  /-- The renderer. -/
  renderer : Renderer

namespace Build

/-- What a build changes. -/
structure State where
  /-- The files. -/
  fs : FileSystem
  /-- What has been parsed. -/
  extractor : Extractor

/-- Carries out the commands of a scenario. -/
def runCommands (tools : Tools) (fs : FileSystem) (scenario : Scenario) (x : Extractor) :
    Finished (List String) × Extractor :=
  runTasks (Extractor.carryOut tools.grammars fs scenario)
    (Snippet.commands (Snippet.classify scenario.body)) x

/-- Makes the page of a scenario whose commands are finished.  Nothing is written unless the whole
page could be made. -/
def finish (tools : Tools) (output path : Path) (scenario : Scenario)
    (finished : Finished (List String)) (fs : FileSystem) : Except Error Path × FileSystem :=
  match Page.html tools.renderer scenario.body finished with
  | .error e => (.error e, fs)
  | .ok html =>
    let target := Page.path output path
    match Page.write output target html fs with
    | (.error e, fs) => (.error e, fs)
    | (.ok (), fs) => (.ok target, fs)

/-- Makes the page of the scenario at a path, and answers with the path of the page. -/
def scenario (tools : Tools) (output path : Path) (s : State) : Except Error Path × State :=
  match Scenario.read s.fs path with
  | .error e => (.error e, s)
  | .ok scenario =>
    let (finished, extractor) := runCommands tools s.fs scenario s.extractor
    let (result, fs) := finish tools output path scenario finished s.fs
    (result, ⟨fs, extractor⟩)

/-- Makes the pages of all scenarios, each in its turn. -/
def scenarios (tools : Tools) (output : Path) : List Path → State →
    List (Except Error Path) × State
  | [], s => ([], s)
  | path :: rest, s =>
    let (result, s) := scenario tools output path s
    let (results, s) := scenarios tools output rest s
    (result :: results, s)

/-- The pages that were made, or the first failure in order. -/
def outcome (results : List (Except Error Path)) : Except Error (List Path) := results.mapM id

/-- Builds all pages that the settings ask for. -/
def run (tools : Tools) (settings : Settings) (fs : FileSystem) :
    Except Error (List Path) × FileSystem :=
  match Scenario.discover fs settings.scenarios with
  | .error e => (.error e, fs)
  | .ok paths =>
    let (results, s) := scenarios tools settings.output paths ⟨fs, { settings }⟩
    (outcome results, s.fs)

end Build

end LiveExcerpts
