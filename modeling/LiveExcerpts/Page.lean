import LiveExcerpts.Extractor
/-!
# Pages

A scenario's body becomes a page in two steps: its commands are replaced by the fragments they ask
for, and its prose is rendered.  The commands are tasks that may finish in any order; the page is
put together by position, and the first failure by position is the one that counts.

Main definitions: `Snippet.resolved`, `Snippet.rendered`, `Page.html`.  Main statement: the order
in which tasks finish does not matter (`resolved_eq_of_lookup_eq`).
-/

namespace LiveExcerpts

/-- A renderer of Markdown. -/
abbrev Renderer := String → Except Error String

/-- The outcomes of tasks in the order in which they finished, each under the position of its
snippet. -/
abbrev Finished (α : Type) := List (Nat × Except Error α)

namespace Snippet

/-- The commands among some snippets, each with its position. -/
def commands (snippets : List Snippet) : List (Nat × String) :=
  snippets.zipIdx.filterMap fun
    | (.command raw, position) => some (position, raw)
    | _ => none

/-- What takes a snippet's place when all commands are finished. -/
def resolve (finished : Finished (List String)) :
    Snippet × Nat → Except Error (List Snippet)
  | (.command raw, position) =>
    match finished.lookup position with
    | some outcome => outcome.map fun fragments => fragments.map .prose
    | none => .error (.unresolvedCommand raw)
  | (snippet, _) => .ok [snippet]

/-- The snippets with every command replaced by its fragments, or the first failure by position. -/
def resolved (snippets : List Snippet) (finished : Finished (List String)) :
    Except Error (List Snippet) :=
  (snippets.zipIdx.mapM (resolve finished)).map List.flatten

/-- The HTML of a snippet.  A command has none. -/
def render (renderer : Renderer) : Snippet → Except Error Snippet
  | .command raw => .error (.unresolvedCommand raw)
  | .html text => .ok (.html text)
  | .prose text => (renderer text).map .html

/-- The snippets with all prose rendered, or the first failure by position. -/
def rendered (renderer : Renderer) (snippets : List Snippet) : Except Error (List Snippet) :=
  snippets.mapM (render renderer)

/-- The order in which tasks finished does not matter, only what each of them came to. -/
theorem resolved_eq_of_lookup_eq {snippets : List Snippet} {f g : Finished (List String)}
    (h : ∀ position, f.lookup position = g.lookup position) :
    resolved snippets f = resolved snippets g := by
  have : resolve f = resolve g := by
    funext ⟨snippet, position⟩
    cases snippet <;> simp only [resolve, h]
  rw [resolved, this, resolved]

end Snippet

/-- Runs tasks one after the other, each on what the one before it left. -/
def runTasks {σ α : Type} (run : String → σ → Except Error α × σ) :
    List (Nat × String) → σ → Finished α × σ
  | [], s => ([], s)
  | (position, raw) :: rest, s =>
    let (outcome, s) := run raw s
    let (finished, s) := runTasks run rest s
    ((position, outcome) :: finished, s)

namespace Page

/-- The HTML of a body whose commands are finished. -/
def html (renderer : Renderer) (body : List String) (finished : Finished (List String)) :
    Except Error String := do
  let resolved ← Snippet.resolved (Snippet.classify body) finished
  let rendered ← Snippet.rendered renderer resolved
  return String.join (rendered.map Snippet.text)

/-- The path of a scenario's page. -/
def path (output scenario : Path) : Path :=
  output.join ⟨scenario.fileName?.getD "scenario" ++ ".html"⟩

/-- Writes a page, and first makes its directory if that is missing. -/
def write (output target : Path) (html : String) (fs : FileSystem) :
    Except Error Unit × FileSystem :=
  match fs.makeDirectories output with
  | (.error cause, fs) => (.error (.io cause), fs)
  | (.ok (), fs) =>
    match fs.writeText target html with
    | (.error cause, fs) => (.error (.io cause), fs)
    | (.ok (), fs) => (.ok (), fs)

end Page

end LiveExcerpts
