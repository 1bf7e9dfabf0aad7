import LiveExcerpts.Page
import LiveExcerpts.Proofs.Sharing
/-!
# What a page says

A page is the HTML of every line of a body in order, where a command stands for the fragments that
it comes to.  It depends on what each command comes to, not on when it does.

Main definitions: `Page.fragments`, `Page.ofAnswers`, `Page.IsOf`.  Main statements: `Page.html` is
`Page.ofAnswers` of whatever the tasks came to (`Page.html_alike`), and `Page.ofAnswers` makes the
page of a body or fails (`Page.ofAnswers_eq_ok_iff`).
-/

namespace LiveExcerpts

/-! ## Tasks -/

namespace Snippet

theorem mem_commands_iff {snippets : List Snippet} {raw : String} {position : Nat} :
    (position, raw) ∈ commands snippets ↔ (command raw, position) ∈ snippets.zipIdx := by
  unfold commands
  rw [List.mem_filterMap]
  constructor
  · rintro ⟨⟨snippet, k⟩, hmem, heq⟩
    cases snippet with
    | command text =>
        obtain ⟨rfl, rfl⟩ := Prod.mk.inj (Option.some.inj heq)
        exact hmem
    | html text => cases heq
    | prose text => cases heq
  · intro hmem
    exact ⟨_, hmem, rfl⟩

/-- No two commands have the same position. -/
theorem nodup_fst_commands (snippets : List Snippet) :
    ((commands snippets).map Prod.fst).Nodup := by
  have hsub : ((commands snippets).map Prod.fst).Sublist (snippets.zipIdx.map Prod.snd) := by
    unfold commands
    induction snippets.zipIdx with
    | nil => exact .slnil
    | cons pair rest ih =>
        obtain ⟨snippet, k⟩ := pair
        cases snippet with
        | command text => exact ih.cons_cons k
        | html text => exact ih.cons k
        | prose text => exact ih.cons k
  refine hsub.nodup ?_
  rw [List.zipIdx_map_snd]
  exact List.nodup_range'

end Snippet

/-- Where no two entries have the same key, an entry is what is found under its key. -/
theorem lookup_eq_some_of_mem {α β : Type} [BEq α] [LawfulBEq α] {entries : List (α × β)}
    (hnodup : (entries.map Prod.fst).Nodup) {a : α} {b : β} (h : (a, b) ∈ entries) :
    entries.lookup a = some b := by
  obtain ⟨before, after, rfl⟩ := List.append_of_mem h
  refine List.lookup_eq_some_iff.2 ⟨before, after, rfl, fun entry hentry => ?_⟩
  rw [List.map_append, List.nodup_append] at hnodup
  have hne := hnodup.2.2 entry.1 (List.mem_map_of_mem hentry) a (by simp)
  simpa using hne.symm

section RunTasks

variable {σ α : Type} {run : String → σ → Except Error α × σ}

/-- The outcome of a task stands under the position of the task. -/
theorem map_fst_runTasks (tasks : List (Nat × String)) (s : σ) :
    (runTasks run tasks s).1.map Prod.fst = tasks.map Prod.fst := by
  induction tasks generalizing s with
  | nil => rfl
  | cons task rest ih => exact congrArg (task.1 :: ·) (ih _)

/-- Every task is run on a state that the tasks before it left. -/
theorem exists_mem_runTasks {Left : σ → Prop} (hrun : ∀ raw s, Left s → Left (run raw s).2)
    {tasks : List (Nat × String)} {position : Nat} {raw : String} (hmem : (position, raw) ∈ tasks)
    {s : σ} (hs : Left s) :
    ∃ s', Left s' ∧ (position, (run raw s').1) ∈ (runTasks run tasks s).1 := by
  induction tasks generalizing s with
  | nil => cases hmem
  | cons task rest ih =>
      obtain ⟨k, text⟩ := task
      rcases List.mem_cons.1 hmem with heq | hrest
      · obtain ⟨rfl, rfl⟩ := Prod.mk.inj heq
        exact ⟨s, hs, List.mem_cons_self⟩
      · obtain ⟨s', hs', hfound⟩ := ih hrest (hrun text s hs)
        exact ⟨s', hs', List.mem_cons_of_mem _ hfound⟩

end RunTasks

namespace Extractor

/-- The same answers are alike. -/
theorem SameAnswer.alike {raw : String} {x y : Except Error (List String)}
    (h : SameAnswer raw x y) : Alike Eq x y := by
  cases h with
  | fragments fragments => exact .ok rfl
  | failed h => exact .error (.commandFailed h)

end Extractor

/-! ## From answers to a page -/

namespace Page

variable (renderer : Renderer) (answer : String → Except Error (List String))

/-- The fragments that a line of a body stands for: a command for what it comes to, any other line
for itself. -/
def fragments (line : String) : Except Error (List String) :=
  if line.toList.head? = some '@' then answer line else .ok [line]

/-- The page of a body, when it is known what its commands come to. -/
def ofAnswers (body : List String) : Except Error String := do
  let shown ← body.mapM (fragments answer)
  let parts ← shown.flatten.mapM renderer
  return String.join parts

/-- The text is the page of a body: the HTML of the fragments of every line, in order. -/
def IsOf (body : List String) (html : String) : Prop :=
  ∃ shown parts, List.Forall₂ (fun line fragments => Page.fragments answer line = .ok fragments)
      body shown ∧
    List.Forall₂ (fun fragment part => renderer fragment = .ok part) shown.flatten parts ∧
    html = String.join parts

variable {renderer answer}

/-- **The page is made exactly if every line has its fragments and every fragment its HTML.** -/
theorem ofAnswers_eq_ok_iff {body : List String} {html : String} :
    ofAnswers renderer answer body = .ok html ↔ IsOf renderer answer body html := by
  unfold ofAnswers IsOf
  rw [bind_eq_ok_iff]
  constructor
  · rintro ⟨shown, hshown, hrest⟩
    obtain ⟨parts, hparts, hjoin⟩ := bind_eq_ok_iff.1 hrest
    exact ⟨shown, parts, mapM_eq_ok_iff.1 hshown, mapM_eq_ok_iff.1 hparts,
      (Except.ok.inj hjoin).symm⟩
  · rintro ⟨shown, parts, hshown, hparts, rfl⟩
    exact ⟨shown, mapM_eq_ok_iff.2 hshown,
      bind_eq_ok_iff.2 ⟨parts, mapM_eq_ok_iff.2 hparts, rfl⟩⟩

/-- Rendering fragments and joining their HTML. -/
theorem rendered_prose_bind (renderer : Renderer) (fragments : List String) :
    (Snippet.rendered renderer (fragments.map .prose) >>= fun rendered =>
      Except.ok (String.join (rendered.map Snippet.text))) =
      (fragments.mapM renderer >>= fun parts => .ok (String.join parts)) := by
  have hrender : Snippet.rendered renderer (fragments.map .prose) =
      (fragments.mapM renderer).map (List.map .html) := by
    unfold Snippet.rendered
    rw [List.mapM_map, ← mapM_map_answer]
    rfl
  rw [hrender]
  cases fragments.mapM renderer with
  | error e => rfl
  | ok parts => simp [Except.map, bind, Except.bind, Function.comp_def, Snippet.text]

/-- What takes the place of a line's snippet is prose: the fragments of the line. -/
theorem resolve_alike {body : List String} {finished : Finished (List String)}
    (hfinished : ∀ raw position, (.command raw, position) ∈ (Snippet.classify body).zipIdx →
      ∃ outcome, finished.lookup position = some outcome ∧ Alike Eq outcome (answer raw))
    {snippet : Snippet} {position : Nat}
    (hmem : (snippet, position) ∈ (Snippet.classify body).zipIdx) :
    Alike Eq (Snippet.resolve finished (snippet, position))
      ((fragments answer snippet.text).map (List.map .prose)) := by
  have hclass : snippet ∈ body.map Snippet.ofLine := List.fst_mem_of_mem_zipIdx hmem
  obtain ⟨line, -, rfl⟩ := List.mem_map.1 hclass
  rw [Snippet.text_ofLine]
  unfold Snippet.ofLine at hmem ⊢
  unfold fragments
  by_cases hcommand : line.toList.head? = some '@'
  · rw [if_pos hcommand] at hmem ⊢
    rw [if_pos hcommand]
    obtain ⟨outcome, hlookup, halike⟩ := hfinished line position hmem
    simp only [Snippet.resolve, hlookup]
    exact halike.map fun _ _ heq => heq ▸ rfl
  · rw [if_neg hcommand, if_neg hcommand]
    exact .ok rfl

/-- **The page of a body does not depend on when its commands finish**, but for the spelling of
paths in a failure. -/
theorem html_alike {body : List String} {finished : Finished (List String)}
    (hfinished : ∀ raw position, (.command raw, position) ∈ (Snippet.classify body).zipIdx →
      ∃ outcome, finished.lookup position = some outcome ∧ Alike Eq outcome (answer raw)) :
    Alike Eq (html renderer body finished) (ofAnswers renderer answer body) := by
  have hresolve : Alike Eq ((Snippet.classify body).zipIdx.mapM (Snippet.resolve finished))
      ((Snippet.classify body).zipIdx.mapM fun pair =>
        (fragments answer pair.1.text).map (List.map .prose)) :=
    Alike.mapM _ fun _ hmem => resolve_alike hfinished hmem
  have hlines : ((Snippet.classify body).zipIdx.mapM fun pair =>
        (fragments answer pair.1.text).map (List.map Snippet.prose)) =
      (body.mapM (fragments answer)).map (List.map (List.map Snippet.prose)) := by
    have htexts : (Snippet.classify body).zipIdx.map (fun pair => pair.1.text) = body := by
      rw [← Function.comp_def Snippet.text Prod.fst, ← List.map_map, List.zipIdx_map_fst,
        Snippet.map_text_classify]
    calc ((Snippet.classify body).zipIdx.mapM fun pair =>
          (fragments answer pair.1.text).map (List.map Snippet.prose))
        = ((Snippet.classify body).zipIdx.map fun pair => pair.1.text).mapM fun line =>
            (fragments answer line).map (List.map Snippet.prose) := by
          rw [List.mapM_map]
          rfl
      _ = body.mapM fun line => (fragments answer line).map (List.map Snippet.prose) := by
          rw [htexts]
      _ = _ := mapM_map_answer _ body
  rw [hlines] at hresolve
  unfold html Snippet.resolved ofAnswers
  generalize (Snippet.classify body).zipIdx.mapM (Snippet.resolve finished) = resolved at hresolve
  generalize body.mapM (fragments answer) = shown at hresolve
  cases shown with
  | error e =>
      cases hresolve with
      | error he => exact .error he
  | ok shown =>
      cases hresolve with
      | ok heq =>
          subst heq
          have hflat : (shown.map (List.map Snippet.prose)).flatten =
              shown.flatten.map Snippet.prose := List.map_flatten.symm
          have hpage := rendered_prose_bind renderer shown.flatten
          rw [← hflat] at hpage
          exact hpage ▸ Alike.refl (fun _ => rfl) _

end Page

end LiveExcerpts
