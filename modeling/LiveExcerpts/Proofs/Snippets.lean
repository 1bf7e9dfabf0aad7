import LiveExcerpts.Proofs.Pages
/-!
# Bodies in document order

A body goes through two stages.  In the first one each command is replaced by its fragments, in the
second one each fragment by its HTML.  In both of them some of the snippets have a task, the tasks
finish in any order, and what they come to is put together by position.

Main definitions: `Snippet.outcomes`, `Snippet.joined`, `FirstFailure`,
`Snippet.ResolvesInOrder`, `Snippet.RendersInOrder`.  Main statements: what is put together does not
depend on the order in which tasks finish (`joined_of_perm`), and neither stage moves, drops or
hides anything (`resolved_rendered_in_order`).
-/

namespace LiveExcerpts

/-! ## First failures -/

/-- The failure of the first one in a list that fails. -/
def FirstFailure {α : Type} (fails : α → Error → Prop) (inputs : List α) (e : Error) : Prop :=
  ∃ before a after, inputs = before ++ a :: after ∧ (∀ b ∈ before, ∀ e', ¬ fails b e') ∧ fails a e

section FirstFailures

variable {α β : Type} {f : α → Except Error β} {fails : α → Error → Prop}

/-- What does not fail has an answer. -/
theorem exists_ok_iff_forall_not_error {x : Except Error β} :
    (∃ answer, x = .ok answer) ↔ ∀ e, x ≠ .error e := by
  cases x with
  | error e => simp
  | ok answer => simp

/-- **Doing one thing after the other fails with the first failure.** -/
theorem mapM_eq_error_iff_firstFailure (hfails : ∀ a e, f a = .error e ↔ fails a e)
    {inputs : List α} {e : Error} : inputs.mapM f = .error e ↔ FirstFailure fails inputs e := by
  unfold FirstFailure
  rw [mapM_eq_error_iff]
  simp only [exists_ok_iff_forall_not_error, ne_eq, hfails]

/-- It fails exactly if one of the things does. -/
theorem exists_mapM_eq_error_iff (hfails : ∀ a e, f a = .error e ↔ fails a e)
    {inputs : List α} : (∃ e, inputs.mapM f = .error e) ↔ ∃ a ∈ inputs, ∃ e, fails a e := by
  constructor
  · rintro ⟨e, he⟩
    obtain ⟨before, a, after, rfl, -, ha⟩ := (mapM_eq_error_iff_firstFailure hfails).1 he
    exact ⟨a, by simp, e, ha⟩
  · rintro ⟨a, ha, e, he⟩
    cases hall : inputs.mapM f with
    | error e' => exact ⟨e', rfl⟩
    | ok answers =>
        -- Had all of them succeeded, so would this one have.
        obtain ⟨answer, -, hok⟩ := exists_mem_of_forall₂ (mapM_eq_ok_iff.1 hall) ha
        rw [(hfails a e).2 he] at hok
        cases hok

theorem mapM_congr {g : α → Except Error β} {inputs : List α} (h : ∀ a ∈ inputs, f a = g a) :
    inputs.mapM f = inputs.mapM g := by
  induction inputs with
  | nil => rfl
  | cons a rest ih =>
      rw [List.forall_mem_cons] at h
      rw [List.mapM_cons, List.mapM_cons, h.1, ih h.2]

end FirstFailures

namespace Snippet

/-! ## Tasks that finish in any order -/

section Tasks

variable {α : Type}

/-- The tasks of some snippets with what they come to, each under the position of its snippet. -/
def outcomes (task? : Snippet → Option (Except Error α)) (snippets : List Snippet) : Finished α :=
  snippets.zipIdx.filterMap fun (snippet, position) =>
    (task? snippet).map fun outcome => (position, outcome)

/-- The snippets when all tasks are finished.  A snippet with a task gives way to what `finish`
makes of the answer, any other stays, and the first failure by position counts. -/
def joined (finish : α → List Snippet) (finished : Finished α) (snippets : List Snippet) :
    Except Error (List Snippet) :=
  (snippets.zipIdx.mapM fun (snippet, position) =>
    match finished.lookup position with
    | some outcome => outcome.map finish
    | none => .ok [snippet]).map List.flatten

/-- What takes the place of one snippet. -/
def place (task? : Snippet → Option (Except Error α)) (finish : α → List Snippet)
    (snippet : Snippet) : Except Error (List Snippet) :=
  match task? snippet with
  | some outcome => outcome.map finish
  | none => .ok [snippet]

variable {task? : Snippet → Option (Except Error α)} {finish : α → List Snippet}
  {finished : Finished α} {snippets : List Snippet}

theorem mem_outcomes_iff {position : Nat} {outcome : Except Error α} :
    (position, outcome) ∈ outcomes task? snippets ↔
      ∃ snippet, snippets[position]? = some snippet ∧ task? snippet = some outcome := by
  unfold outcomes
  rw [List.mem_filterMap]
  constructor
  · rintro ⟨⟨snippet, k⟩, hmem, heq⟩
    obtain ⟨found, hfound, hpair⟩ := Option.map_eq_some_iff.1 heq
    obtain ⟨rfl, rfl⟩ := Prod.mk.inj hpair
    exact ⟨snippet, List.mem_zipIdx_iff_getElem?.1 hmem, hfound⟩
  · rintro ⟨snippet, hget, htask⟩
    refine ⟨(snippet, position), List.mem_zipIdx_iff_getElem?.2 hget, ?_⟩
    show (task? snippet).map (fun outcome => (position, outcome)) = some (position, outcome)
    rw [htask, Option.map_some]

/-- No two tasks have the same position. -/
theorem nodup_fst_outcomes : ((outcomes task? snippets).map Prod.fst).Nodup := by
  have hsub : ((outcomes task? snippets).map Prod.fst).Sublist
      (snippets.zipIdx.map Prod.snd) := by
    unfold outcomes
    induction snippets.zipIdx with
    | nil => exact .slnil
    | cons pair rest ih =>
        obtain ⟨snippet, k⟩ := pair
        simp only [List.filterMap_cons]
        cases task? snippet with
        | none => simp only [Option.map_none]; exact ih.cons k
        | some outcome => simp only [Option.map_some, List.map_cons]; exact ih.cons_cons k
  refine hsub.nodup ?_
  rw [List.zipIdx_map_snd]
  exact List.nodup_range'

/-- What is found under a position is what the task of its snippet comes to. -/
theorem lookup_of_perm (hfinished : finished.Perm (outcomes task? snippets)) {position : Nat}
    {snippet : Snippet} (hget : snippets[position]? = some snippet) :
    finished.lookup position = task? snippet := by
  have hnodup : (finished.map Prod.fst).Nodup :=
    (hfinished.map Prod.fst).nodup_iff.2 nodup_fst_outcomes
  cases htask : task? snippet with
  | some outcome =>
      have hmem := hfinished.mem_iff.2 (mem_outcomes_iff.2 ⟨snippet, hget, htask⟩)
      exact lookup_eq_some_of_mem hnodup hmem
  | none =>
      rw [List.lookup_eq_none_iff]
      intro entry hentry
      obtain ⟨other, hother, hsome⟩ := mem_outcomes_iff.1 (hfinished.mem_iff.1 hentry)
      rw [bne_iff_ne]
      -- An entry under this position would be a task of this very snippet.
      rintro rfl
      obtain rfl := Option.some.inj (hget.symm.trans hother)
      rw [htask] at hsome
      cases hsome

/-- What depends on the snippets alone does not depend on their positions. -/
theorem mapM_zipIdx {β : Type} (f : Snippet → Except Error β) :
    (snippets.zipIdx.mapM fun pair => f pair.1) = snippets.mapM f := by
  calc (snippets.zipIdx.mapM fun pair => f pair.1)
      = (snippets.zipIdx.map Prod.fst).mapM f := by rw [List.mapM_map]; rfl
    _ = snippets.mapM f := by rw [List.zipIdx_map_fst]

/-- **What is put together does not depend on the order in which tasks finish.** -/
theorem joined_of_perm (hfinished : finished.Perm (outcomes task? snippets)) :
    joined finish finished snippets =
      (snippets.mapM (place task? finish)).map List.flatten := by
  unfold joined
  rw [← mapM_zipIdx (place task? finish)]
  refine congrArg (Except.map List.flatten) (mapM_congr ?_)
  rintro ⟨snippet, position⟩ hmem
  show (match finished.lookup position with
    | some outcome => outcome.map finish
    | none => .ok [snippet]) = place task? finish snippet
  rw [lookup_of_perm hfinished (List.mem_zipIdx_iff_getElem?.1 hmem)]
  rfl

end Tasks

/-! ## Commands and their fragments -/

/-- A command is a task, which comes to some answer. -/
def commandTask? (answer : String → Except Error (List String)) :
    Snippet → Option (Except Error (List String))
  | command raw => some (answer raw)
  | html _ => none
  | prose _ => none

/-- A line of a body that is a command, and fails. -/
def CommandFails (answer : String → Except Error (List String)) (line : String) (e : Error) :
    Prop :=
  line.toList.head? = some '@' ∧ answer line = .error e

/-- What takes the place of a line: of a command its fragments, of another line the line itself. -/
inductive Shows (answer : String → Except Error (List String)) : String → List Snippet → Prop
  | fragments {line : String} {fragments : List String} : line.toList.head? = some '@' →
      answer line = .ok fragments → Shows answer line (fragments.map prose)
  | verbatim {line : String} : line.toList.head? ≠ some '@' → Shows answer line [prose line]

/-- The outcome of replacing the commands of a body goes by the order of its lines. -/
structure ResolvesInOrder (answer : String → Except Error (List String)) (body : List String)
    (outcome : Except Error (List Snippet)) : Prop where
  /-- It is a failure exactly if some command fails. -/
  fails_iff : (∃ e, outcome = .error e) ↔ ∃ line ∈ body, ∃ e, CommandFails answer line e
  /-- The failure is that of the first command that fails. -/
  error_iff : ∀ e, outcome = .error e ↔ FirstFailure (CommandFails answer) body e
  /-- Otherwise each line has what takes its place, and in their order. -/
  ok_iff : ∀ shown, outcome = .ok shown ↔
    ∃ parts, List.Forall₂ (Shows answer) body parts ∧ shown = parts.flatten

variable {answer : String → Except Error (List String)} {renderer : Renderer}

/-- The fragments of a line, as prose. -/
def shownOf (answer : String → Except Error (List String)) (line : String) :
    Except Error (List Snippet) :=
  (Page.fragments answer line).map (List.map prose)

theorem shownOf_eq_error_iff (line : String) (e : Error) :
    shownOf answer line = .error e ↔ CommandFails answer line e := by
  unfold shownOf Page.fragments CommandFails
  by_cases hcommand : line.toList.head? = some '@'
  · rw [if_pos hcommand]
    cases answer line <;> simp [hcommand, Except.map]
  · rw [if_neg hcommand]
    simp [hcommand, Except.map]

theorem shownOf_eq_ok_iff (line : String) (part : List Snippet) :
    shownOf answer line = .ok part ↔ Shows answer line part := by
  unfold shownOf Page.fragments
  by_cases hcommand : line.toList.head? = some '@'
  · rw [if_pos hcommand]
    constructor
    · intro h
      cases hanswer : answer line with
      | error e =>
          rw [hanswer] at h
          cases h
      | ok fragments =>
          rw [hanswer] at h
          obtain rfl : fragments.map prose = part := Except.ok.inj h
          exact .fragments hcommand hanswer
    · intro h
      cases h with
      | fragments _ hanswer =>
          rw [hanswer]
          rfl
      | verbatim hnot => exact absurd hcommand hnot
  · rw [if_neg hcommand]
    constructor
    · intro h
      obtain rfl : [prose line] = part := Except.ok.inj h
      exact .verbatim hcommand
    · intro h
      cases h with
      | fragments hyes _ => exact absurd hyes hcommand
      | verbatim _ => rfl

/-- In the place of a line's snippet stand the fragments of the line. -/
theorem place_ofLine (line : String) :
    place (commandTask? answer) (List.map prose) (ofLine line) = shownOf answer line := by
  unfold ofLine shownOf Page.fragments
  by_cases hcommand : line.toList.head? = some '@'
  · rw [if_pos hcommand, if_pos hcommand]
    rfl
  · rw [if_neg hcommand, if_neg hcommand]
    rfl

/-- A body with its commands replaced is put together from their tasks. -/
theorem resolved_eq_joined {finished : Finished (List String)} {snippets : List Snippet}
    (hfinished : finished.Perm (outcomes (commandTask? answer) snippets)) :
    resolved snippets finished = joined (List.map prose) finished snippets := by
  unfold resolved joined
  refine congrArg (Except.map List.flatten) (mapM_congr ?_)
  rintro ⟨snippet, position⟩ hmem
  have hlookup := lookup_of_perm hfinished (List.mem_zipIdx_iff_getElem?.1 hmem)
  cases snippet with
  | command raw =>
      simp only [resolve]
      rw [hlookup]
      rfl
  | html text =>
      simp only [resolve]
      rw [hlookup]
      rfl
  | prose text =>
      simp only [resolve]
      rw [hlookup]
      rfl

/-- **Commands are replaced in document order, and the first that fails is told.** -/
theorem resolvesInOrder {body : List String} {finished : Finished (List String)}
    (hfinished : finished.Perm (outcomes (commandTask? answer) (classify body))) :
    ResolvesInOrder answer body (resolved (classify body) finished) := by
  have hresolved : resolved (classify body) finished =
      (body.mapM (shownOf answer)).map List.flatten := by
    have hlines : (classify body).mapM (place (commandTask? answer) (List.map prose)) =
        body.mapM (shownOf answer) := by
      unfold classify
      rw [List.mapM_map]
      exact mapM_congr fun line _ => place_ofLine line
    rw [resolved_eq_joined hfinished, joined_of_perm hfinished, hlines]
  have herror : ∀ e, resolved (classify body) finished = .error e ↔
      body.mapM (shownOf answer) = .error e := by
    intro e
    rw [hresolved]
    cases body.mapM (shownOf answer) <;> simp [Except.map]
  refine ⟨?_, ?_, ?_⟩
  · simp only [herror]
    exact exists_mapM_eq_error_iff shownOf_eq_error_iff
  · intro e
    rw [herror]
    exact mapM_eq_error_iff_firstFailure shownOf_eq_error_iff
  · intro shown
    have hok : ∀ parts, body.mapM (shownOf answer) = .ok parts ↔
        List.Forall₂ (Shows answer) body parts := by
      intro parts
      simp only [mapM_eq_ok_iff, shownOf_eq_ok_iff]
    rw [hresolved]
    cases hparts : body.mapM (shownOf answer) with
    | error e => simp [← hok, hparts, Except.map]
    | ok parts =>
        simp only [Except.map, ← hok, hparts, Except.ok.injEq, exists_eq_left', eq_comm]

/-- Where the commands are replaced there is only prose. -/
theorem ResolvesInOrder.exists_eq_prose {body : List String}
    {outcome : Except Error (List Snippet)} (h : ResolvesInOrder answer body outcome)
    {shown : List Snippet} (hshown : outcome = .ok shown) {snippet : Snippet}
    (hmem : snippet ∈ shown) : ∃ text, snippet = prose text := by
  obtain ⟨parts, hparts, rfl⟩ := (h.ok_iff shown).1 hshown
  obtain ⟨part, hpart, hsnippet⟩ := List.mem_flatten.1 hmem
  obtain ⟨line, -, hshows⟩ := exists_mem_of_forall₂ hparts.flip hpart
  cases hshows with
  | fragments _ _ =>
      obtain ⟨text, -, rfl⟩ := List.mem_map.1 hsnippet
      exact ⟨text, rfl⟩
  | verbatim _ => exact ⟨line, List.mem_singleton.1 hsnippet⟩

/-! ## Fragments and their HTML -/

/-- Rendering prose is a task.  A command that is left is one that fails. -/
def renderTask? (renderer : Renderer) : Snippet → Option (Except Error String)
  | command raw => some (.error (.unresolvedCommand raw))
  | html _ => none
  | prose text => some (renderer text)

/-- A snippet that cannot be rendered, and why. -/
inductive RenderFails (renderer : Renderer) : Snippet → Error → Prop
  | command (raw : String) : RenderFails renderer (command raw) (.unresolvedCommand raw)
  | prose {text : String} {e : Error} : renderer text = .error e →
      RenderFails renderer (prose text) e

/-- A snippet with its HTML: what is HTML stays as it is. -/
inductive Renders (renderer : Renderer) : Snippet → Snippet → Prop
  | html (text : String) : Renders renderer (html text) (html text)
  | prose {text rendered : String} : renderer text = .ok rendered →
      Renders renderer (prose text) (html rendered)

/-- The outcome of rendering snippets goes by their order. -/
structure RendersInOrder (renderer : Renderer) (snippets : List Snippet)
    (outcome : Except Error (List Snippet)) : Prop where
  /-- A failure is that of the first snippet that cannot be rendered. -/
  error_iff : ∀ e, outcome = .error e ↔ FirstFailure (RenderFails renderer) snippets e
  /-- Otherwise each snippet has its HTML, at the same position. -/
  ok_iff : ∀ page, outcome = .ok page ↔ List.Forall₂ (Renders renderer) snippets page

theorem render_eq_error_iff (snippet : Snippet) (e : Error) :
    render renderer snippet = .error e ↔ RenderFails renderer snippet e := by
  cases snippet with
  | command raw =>
      constructor
      · intro h
        obtain rfl := Except.error.inj h
        exact .command raw
      · rintro ⟨⟩
        rfl
  | html text =>
      constructor <;> rintro ⟨⟩
  | prose text =>
      rw [render]
      constructor
      · intro h
        cases hrender : renderer text with
        | error e' =>
            rw [hrender] at h
            obtain rfl : e' = e := Except.error.inj h
            exact .prose hrender
        | ok rendered =>
            rw [hrender] at h
            cases h
      · rintro ⟨⟩
        next hrender => rw [hrender]; rfl

theorem render_eq_ok_iff (snippet result : Snippet) :
    render renderer snippet = .ok result ↔ Renders renderer snippet result := by
  cases snippet with
  | command raw => constructor <;> rintro ⟨⟩
  | html text =>
      constructor
      · intro h
        obtain rfl := Except.ok.inj h
        exact .html text
      · rintro ⟨⟩
        rfl
  | prose text =>
      rw [render]
      constructor
      · intro h
        cases hrender : renderer text with
        | error e =>
            rw [hrender] at h
            cases h
        | ok rendered =>
            rw [hrender] at h
            obtain rfl : html rendered = result := Except.ok.inj h
            exact .prose hrender
      · rintro ⟨⟩
        next hrender => rw [hrender]; rfl

/-- **Snippets are rendered in their order, and the first that fails is told.** -/
theorem rendersInOrder (renderer : Renderer) (snippets : List Snippet) :
    RendersInOrder renderer snippets (rendered renderer snippets) where
  error_iff := fun _ => mapM_eq_error_iff_firstFailure render_eq_error_iff
  ok_iff := by
    intro page
    unfold rendered
    simp only [mapM_eq_ok_iff, render_eq_ok_iff]

/-- Rendering is put together from its tasks. -/
theorem joined_eq_rendered {done : Finished String} {snippets : List Snippet}
    (hdone : done.Perm (outcomes (renderTask? renderer) snippets)) :
    joined (fun text => [html text]) done snippets = rendered renderer snippets := by
  have hplace : ∀ snippet, place (renderTask? renderer) (fun text => [html text]) snippet =
      (render renderer snippet).map fun result => [result] := by
    intro snippet
    cases snippet with
    | command raw => rfl
    | html text => rfl
    | prose text =>
        show (renderer text).map (fun text => [html text]) =
          ((renderer text).map html).map fun result => [result]
        cases renderer text <;> rfl
  have hsingle (results : List Snippet) : (results.map fun result => [result]).flatten = results :=
    (List.flatMap_def ..).symm.trans (List.flatMap_singleton' results)
  rw [joined_of_perm hdone, mapM_congr fun snippet _ => hplace snippet, mapM_map_answer]
  unfold rendered
  cases snippets.mapM (render renderer) with
  | error e => rfl
  | ok results => exact congrArg Except.ok (hsingle results)

namespace RendersInOrder

variable {snippets : List Snippet} {outcome : Except Error (List Snippet)}

/-- HTML is kept as it is, where it is. -/
theorem getElem?_of_html (h : RendersInOrder renderer snippets outcome) {page : List Snippet}
    (hpage : outcome = .ok page) {i : Nat} {text : String}
    (hget : snippets[i]? = some (html text)) : page[i]? = some (html text) := by
  have hall := (h.ok_iff page).1 hpage
  clear h hpage
  induction hall generalizing i with
  | nil => simp at hget
  | @cons snippet result rest results hfirst _ ih =>
      cases i with
      | zero =>
          obtain rfl : snippet = html text := by simpa using hget
          cases hfirst
          rfl
      | succ i => exact ih (by simpa using hget)

/-- A command that is left makes rendering fail. -/
theorem exists_error_of_command (h : RendersInOrder renderer snippets outcome) {raw : String}
    (hmem : command raw ∈ snippets) : ∃ e, outcome = .error e := by
  cases outcome with
  | error e => exact ⟨e, rfl⟩
  | ok page =>
      obtain ⟨result, -, hresult⟩ := exists_mem_of_forall₂ ((h.ok_iff page).1 rfl) hmem
      cases hresult

/-- Where there is only prose, a failure is that of the renderer on a fragment. -/
theorem exists_prose_of_error (h : RendersInOrder renderer snippets outcome)
    (hprose : ∀ snippet ∈ snippets, ∃ text, snippet = prose text) {e : Error}
    (herror : outcome = .error e) : ∃ text, prose text ∈ snippets ∧ renderer text = .error e := by
  obtain ⟨before, snippet, after, rfl, -, hfails⟩ := (h.error_iff e).1 herror
  have hmem : snippet ∈ before ++ snippet :: after := by simp
  obtain ⟨text, rfl⟩ := hprose snippet hmem
  cases hfails with
  | prose hrender => exact ⟨text, hmem, hrender⟩

end RendersInOrder

/-! ## Both stages -/

/-- **The page of a body keeps to the order of the document.**  Whatever order tasks finish in,
commands are replaced in place and the first one that fails is told; what comes out of this is only
prose, so a failure to render it is the renderer's, on the first fragment that it cannot render, and
otherwise each fragment has its HTML at the same position.  Of any snippets whatever, rendering
keeps what is HTML already, and fails if a command is left. -/
theorem resolved_rendered_in_order (answer : String → Except Error (List String))
    (renderer : Renderer) (body : List String) (finished : Finished (List String))
    (hfinished : finished.Perm (outcomes (commandTask? answer) (classify body))) :
    ResolvesInOrder answer body (resolved (classify body) finished) ∧
    (∀ shown, resolved (classify body) finished = .ok shown →
      (∀ snippet ∈ shown, ∃ text, snippet = prose text) ∧
      RendersInOrder renderer shown (rendered renderer shown) ∧
      ∀ e, rendered renderer shown = .error e →
        ∃ text, prose text ∈ shown ∧ renderer text = .error e) ∧
    ∀ (snippets : List Snippet) (done : Finished String),
      done.Perm (outcomes (renderTask? renderer) snippets) →
      joined (fun text => [html text]) done snippets = rendered renderer snippets ∧
      (∀ page, rendered renderer snippets = .ok page → ∀ (i : Nat) (text : String),
        snippets[i]? = some (html text) → page[i]? = some (html text)) ∧
      ∀ raw, command raw ∈ snippets → ∃ e, rendered renderer snippets = .error e := by
  have hresolves := resolvesInOrder hfinished
  refine ⟨hresolves, ?_, ?_⟩
  · intro shown hshown
    have hprose : ∀ snippet ∈ shown, ∃ text, snippet = prose text :=
      fun snippet hmem => hresolves.exists_eq_prose hshown hmem
    have hrenders := rendersInOrder renderer shown
    exact ⟨hprose, hrenders, fun e he => hrenders.exists_prose_of_error hprose he⟩
  · intro snippets done hdone
    have hrenders := rendersInOrder renderer snippets
    refine ⟨joined_eq_rendered hdone, ?_, ?_⟩
    · intro page hpage i text hget
      exact hrenders.getElem?_of_html hpage hget
    · intro raw hmem
      exact hrenders.exists_error_of_command hmem

/-- A body with a command that stands for two fragments and one that stands for none. -/
def sampleBody : List String := ["intro", "@two", "", "@none", "end"]

/-- What the commands of `sampleBody` come to. -/
def sampleAnswer (raw : String) : Except Error (List String) :=
  if raw = "@two" then .ok ["x", "y"] else .ok []

/-- The commands of `sampleBody`, the last one finished first. -/
def sampleFinished : Finished (List String) := [(3, .ok []), (1, .ok ["x", "y"])]

/-- A renderer that fails on two fragments of `sampleBody`. -/
def sampleRenderer (text : String) : Except Error String :=
  if text = "y" ∨ text = "end" then .error (.renderFailed text) else .ok ("<" ++ text ++ ">")

theorem resolved_rendered_in_order_sample :
    sampleFinished.Perm (outcomes (commandTask? sampleAnswer) (classify sampleBody)) ∧
    resolved (classify sampleBody) sampleFinished =
      .ok [prose "intro", prose "x", prose "y", prose "", prose "end"] ∧
    rendered sampleRenderer [prose "intro", prose "x", prose "y", prose "", prose "end"] =
      .error (.renderFailed "y") ∧
    ∃ e, rendered sampleRenderer [html "<hr>", command "@two"] = .error e := by
  have hfinished : sampleFinished.Perm
      (outcomes (commandTask? sampleAnswer) (classify sampleBody)) := by
    have hswap : outcomes (commandTask? sampleAnswer) (classify sampleBody) =
        [(1, .ok ["x", "y"]), (3, .ok [])] := rfl
    rw [hswap]
    exact .swap _ _ _
  obtain ⟨hresolves, hrenders, hany⟩ :=
    resolved_rendered_in_order sampleAnswer sampleRenderer sampleBody sampleFinished hfinished
  have hshown : resolved (classify sampleBody) sampleFinished =
      .ok [prose "intro", prose "x", prose "y", prose "", prose "end"] := by
    have htwo : Shows sampleAnswer "@two" [prose "x", prose "y"] :=
      @Shows.fragments sampleAnswer "@two" ["x", "y"] rfl rfl
    have hnone : Shows sampleAnswer "@none" [] := @Shows.fragments sampleAnswer "@none" [] rfl rfl
    have hintro : Shows sampleAnswer "intro" [prose "intro"] := .verbatim (by decide)
    have hblank : Shows sampleAnswer "" [prose ""] := .verbatim (by decide)
    have hend : Shows sampleAnswer "end" [prose "end"] := .verbatim (by decide)
    exact (hresolves.ok_iff _).2 ⟨_, .cons hintro (.cons htwo (.cons hblank (.cons hnone
      (.cons hend .nil)))), rfl⟩
  refine ⟨hfinished, hshown, ?_, ?_⟩
  · refine ((hrenders _ hshown).2.1.error_iff _).2
      ⟨[prose "intro", prose "x"], prose "y", [prose "", prose "end"], rfl, ?_, .prose rfl⟩
    intro snippet hmem e hfails
    simp only [List.mem_cons, List.not_mem_nil, or_false] at hmem
    rcases hmem with rfl | rfl <;> cases hfails <;> next h => cases h
  · exact (hany [html "<hr>", command "@two"] _ (.refl _)).2.2 "@two" (by simp)

end Snippet

end LiveExcerpts
