import LiveExcerpts.Cache
/-!
# Histories of a cache

What a cache has done for each of the calls it was used in, one after the other: whether a parser
was built, rewound and used, what came of it, and which parser was kept.  Building may come out
differently from call to call, and actions may change the parser and fail.

Main definitions: `Cache.Call`, `Cache.Record`, `Cache.records`, `Cache.onSlot`.  Main statements:
what a call comes to depends on the parser of its key only (`Cache.record_serve`), so that the calls
of one key do not notice those of the others (`Cache.filter_records`), and `Cache.records_per_key`
on what happens in each of them.
-/

namespace LiveExcerpts.Cache

variable {κ π ε α : Type}

/-! ## Calls and records -/

/-- What takes place in a call. -/
inductive Event (π : Type) where
  /-- A parser is built, with or without success. -/
  | built
  /-- The parser is rewound. -/
  | rewound (parser : π)
  /-- The parser is used. -/
  | used (parser : π)
deriving DecidableEq, Repr

/-- A call that uses the parser of a key. -/
structure Call (κ π ε α : Type) where
  /-- The key. -/
  key : κ
  /-- How building the parser comes out, if that takes place in this call. -/
  built : Except ε π
  /-- What is done with the parser: what comes of it, and the parser as it is left. -/
  action : π → Except ε α × π

/-- What a call came to. -/
structure Record (κ π ε α : Type) where
  /-- The call. -/
  call : Call κ π ε α
  /-- What came of it. -/
  answer : Except ε α
  /-- What took place, in order. -/
  events : List (Event π)
  /-- The parser that the key has afterwards. -/
  kept : Option π

namespace Record

/-- In this call the parser of the key was built, or was to be. -/
def Builds (r : Record κ π ε α) : Prop := .built ∈ r.events

/-- In this call the parser of the key was built. -/
def HasBuilt (r : Record κ π ε α) : Prop := r.Builds ∧ ∃ parser, r.call.built = .ok parser

/-- After the events `lead`, the parser was rewound and then used, once each; what came of its use
is the answer, and it was kept as the use left it. -/
structure Acts (rewind : π → π) (lead : List (Event π)) (parser : π) (r : Record κ π ε α) :
    Prop where
  /-- The parser was used right after it had been rewound. -/
  events_eq : r.events = lead ++ [.rewound parser, .used (rewind parser)]
  /-- The answer is that of the action. -/
  answer_eq : r.answer = (r.call.action (rewind parser)).1
  /-- The parser was kept as the action left it. -/
  kept_eq : r.kept = some (r.call.action (rewind parser)).2

end Record

/-! ## One call of a key -/

/-- What a call comes to if the key has the parser `slot`, or none. -/
def onSlot (rewind : π → π) (slot : Option π) (call : Call κ π ε α) : Record κ π ε α :=
  match slot, call.built with
  | some parser, _ => act [] parser
  | none, .ok parser => act [.built] parser
  | none, .error e => ⟨call, .error e, [.built], none⟩
where
  /-- The record of a call that uses this parser. -/
  act (lead : List (Event π)) (parser : π) : Record κ π ε α :=
    ⟨call, (call.action (rewind parser)).1, lead ++ [.rewound parser, .used (rewind parser)],
      some (call.action (rewind parser)).2⟩

section OnSlot

variable (rewind : π → π) (slot : Option π) (call : Call κ π ε α)

@[simp] theorem call_onSlot : (onSlot rewind slot call).call = call := by
  unfold onSlot
  split <;> rfl

/-- A parser is built exactly where there is none. -/
theorem builds_onSlot_iff : (onSlot rewind slot call).Builds ↔ slot = none := by
  unfold onSlot Record.Builds
  split
  · simp [onSlot.act]
  · simp [onSlot.act]
  · simp

/-- Afterwards there is a parser, unless there was none and none was built. -/
theorem kept_onSlot_eq_none_iff :
    (onSlot rewind slot call).kept = none ↔
      slot = none ∧ ¬ (onSlot rewind slot call).HasBuilt := by
  unfold Record.HasBuilt
  rw [builds_onSlot_iff, call_onSlot]
  unfold onSlot
  split
  · simp [onSlot.act]
  · next hbuilt => simp [onSlot.act, hbuilt]
  · next hbuilt => simp [hbuilt]

/-- If building fails nothing else takes place, and there is still no parser. -/
theorem onSlot_of_error {e : ε} (hslot : slot = none) (h : call.built = .error e) :
    onSlot rewind slot call = ⟨call, .error e, [.built], none⟩ := by
  unfold onSlot
  rw [hslot, h]

/-- A parser that is built is used. -/
theorem acts_onSlot_of_ok {parser : π} (hslot : slot = none) (h : call.built = .ok parser) :
    (onSlot rewind slot call).Acts rewind [.built] parser := by
  unfold onSlot
  rw [hslot, h]
  exact ⟨rfl, rfl, rfl⟩

/-- A parser that is there is used. -/
theorem acts_onSlot_of_some {parser : π} (hslot : slot = some parser) :
    (onSlot rewind slot call).Acts rewind [] parser := by
  unfold onSlot
  rw [hslot]
  exact ⟨rfl, rfl, rfl⟩

end OnSlot

/-! ## The calls of one key -/

/-- The records of calls of one key, which has the parser `slot`, or none, before the first. -/
def onSlotAll (rewind : π → π) : Option π → List (Call κ π ε α) → List (Record κ π ε α)
  | _, [] => []
  | slot, call :: calls =>
    let record := onSlot rewind slot call
    record :: onSlotAll rewind record.kept calls

/-- The parser that a key has after the records of its calls, if it has `slot` before them. -/
def slotAfter (slot : Option π) (before : List (Record κ π ε α)) : Option π :=
  before.getLast?.elim slot Record.kept

theorem slotAfter_cons (slot : Option π) (s : Record κ π ε α) (before : List (Record κ π ε α)) :
    slotAfter slot (s :: before) = slotAfter s.kept before := by
  cases before with
  | nil => rfl
  | cons t before =>
      unfold slotAfter
      rw [List.getLast?_cons_cons, List.getLast?_eq_some_getLast (List.cons_ne_nil t before)]
      rfl

/-- Each call finds the parser that the last one has kept. -/
theorem eq_onSlot_of_onSlotAll {rewind : π → π} {slot : Option π} {calls : List (Call κ π ε α)}
    {before after : List (Record κ π ε α)} {r : Record κ π ε α}
    (h : onSlotAll rewind slot calls = before ++ r :: after) :
    r = onSlot rewind (slotAfter slot before) r.call := by
  induction before generalizing slot calls with
  | nil =>
      cases calls with
      | nil => cases h
      | cons call calls =>
          obtain ⟨rfl, -⟩ := List.cons.inj h
          rw [call_onSlot]
          rfl
  | cons s before ih =>
      cases calls with
      | nil => cases h
      | cons call calls =>
          obtain ⟨rfl, hrest⟩ := List.cons.inj h
          rw [slotAfter_cons]
          exact ih hrest

/-- There is no parser before a call if there was none at first and none has been built. -/
theorem slotAfter_eq_none_iff {rewind : π → π} {slot : Option π} {calls : List (Call κ π ε α)}
    {before after : List (Record κ π ε α)} (h : onSlotAll rewind slot calls = before ++ after) :
    slotAfter slot before = none ↔ slot = none ∧ ∀ s ∈ before, ¬ s.HasBuilt := by
  induction before generalizing slot calls with
  | nil => simp [slotAfter]
  | cons s before ih =>
      cases calls with
      | nil => cases h
      | cons call calls =>
          obtain ⟨rfl, hrest⟩ := List.cons.inj h
          rw [slotAfter_cons, ih hrest, kept_onSlot_eq_none_iff, List.forall_mem_cons, and_assoc]

/-! ## Serving -/

section Serve

variable [DecidableEq κ]

/-- Writes down that something takes place. -/
def note (event : Event π) : StateM (List (Event π)) Unit := modify (· ++ [event])

/-- Serves a call and writes down what takes place. -/
def serve (rewind : π → π) (cache : Cache κ π) (call : Call κ π ε α) :
    Record κ π ε α × Cache κ π :=
  let ((answer, after), events) := (cache.use call.key
    (fun _ => do note .built; return call.built)
    (fun parser => do note (.rewound parser); return rewind parser)
    (fun parser => do note (.used parser); return call.action parser)).run []
  (⟨call, answer, events, after.find? call.key⟩, after)

/-- Serves calls in the order in which they come to be served. -/
def serveAll (rewind : π → π) :
    Cache κ π → List (Call κ π ε α) → List (Record κ π ε α) × Cache κ π
  | cache, [] => ([], cache)
  | cache, call :: calls =>
    let (record, cache) := serve rewind cache call
    let (records, cache) := serveAll rewind cache calls
    (record :: records, cache)

/-- The records of calls that a new cache serves. -/
def records (rewind : π → π) (calls : List (Call κ π ε α)) : List (Record κ π ε α) :=
  (serveAll rewind {} calls).1

/-- **What a call comes to depends on the parser of its key only.** -/
theorem record_serve (rewind : π → π) (cache : Cache κ π) (call : Call κ π ε α) :
    (serve rewind cache call).1 = onSlot rewind (cache.find? call.key) call := by
  obtain ⟨key, built, action⟩ := call
  unfold serve use onSlot
  dsimp only
  cases hslot : cache.find? key with
  | some parser =>
      show Record.mk _ _ _ ((cache.put key _).find? key) = _
      rw [find?_put_self]
      rfl
  | none =>
      cases built with
      | error e =>
          show Record.mk _ _ _ (cache.find? key) = _
          rw [hslot]
          rfl
      | ok parser =>
          show Record.mk _ _ _ ((cache.put key _).find? key) = _
          rw [find?_put_self]
          rfl

/-- After a call its key has the parser that the record says. -/
theorem find?_serve_self (rewind : π → π) (cache : Cache κ π) (call : Call κ π ε α) :
    (serve rewind cache call).2.find? call.key = (serve rewind cache call).1.kept := rfl

/-- A call leaves the parsers of other keys as they were. -/
theorem find?_serve_of_ne (rewind : π → π) (cache : Cache κ π) {call : Call κ π ε α} {other : κ}
    (h : other ≠ call.key) : (serve rewind cache call).2.find? other = cache.find? other := by
  obtain ⟨key, built, action⟩ := call
  unfold serve use
  dsimp only
  cases cache.find? key with
  | some parser => exact find?_put_of_ne h _ cache
  | none =>
      cases built with
      | error e => rfl
      | ok parser => exact find?_put_of_ne h _ cache

theorem map_call_serveAll (rewind : π → π) (cache : Cache κ π) (calls : List (Call κ π ε α)) :
    (serveAll rewind cache calls).1.map Record.call = calls := by
  induction calls generalizing cache with
  | nil => rfl
  | cons call calls ih => exact congrArg (call :: ·) (ih _)

/-- **Each key goes its own way**: what its calls come to is settled by them alone. -/
theorem filter_serveAll (rewind : π → π) (cache : Cache κ π) (calls : List (Call κ π ε α))
    (key : κ) :
    (serveAll rewind cache calls).1.filter (fun r => r.call.key = key) =
      onSlotAll rewind (cache.find? key) (calls.filter fun call => call.key = key) := by
  induction calls generalizing cache with
  | nil => rfl
  | cons call calls ih =>
      have hrecord := record_serve rewind cache call
      have hcall : (serve rewind cache call).1.call = call := rfl
      show List.filter _ ((serve rewind cache call).1 ::
        (serveAll rewind (serve rewind cache call).2 calls).1) = _
      by_cases hkey : call.key = key
      · subst hkey
        rw [List.filter_cons_of_pos (by simp [hcall]), List.filter_cons_of_pos (by simp), ih,
          find?_serve_self, hrecord]
        rfl
      · rw [List.filter_cons_of_neg (by simp [hcall, hkey]),
          List.filter_cons_of_neg (by simp [hkey]), ih,
          find?_serve_of_ne rewind cache (Ne.symm hkey)]

/-- **The calls of one key do not notice those of the others.** -/
theorem filter_records (rewind : π → π) (calls : List (Call κ π ε α)) (key : κ) :
    (records rewind calls).filter (fun r => r.call.key = key) =
      records rewind (calls.filter fun call => call.key = key) := by
  have hall : ∀ r ∈ records rewind (calls.filter fun call => call.key = key),
      decide (r.call.key = key) = true := by
    intro r hr
    have hcall := List.mem_map_of_mem (f := Record.call) hr
    rw [records, map_call_serveAll] at hcall
    exact (List.mem_filter.1 hcall).2
  rw [← List.filter_eq_self.2 hall]
  unfold records
  rw [filter_serveAll, filter_serveAll, List.filter_filter]
  simp

/-! ## Histories -/

/-- The parser that a key was left with by the last of its calls. -/
def lastKept (before : List (Record κ π ε α)) (key : κ) : Option π :=
  slotAfter none (before.filter fun s => s.call.key = key)

section Splits

variable {rewind : π → π} {calls : List (Call κ π ε α)} {before after : List (Record κ π ε α)}
  {r : Record κ π ε α}

/-- The records of one key, up to a record of that key and after it. -/
theorem onSlotAll_of_records (h : records rewind calls = before ++ r :: after) :
    onSlotAll rewind none (calls.filter fun call => call.key = r.call.key) =
      (before.filter fun s => s.call.key = r.call.key) ++
        r :: after.filter fun s => s.call.key = r.call.key := by
  have hfilter := filter_serveAll rewind {} calls r.call.key
  rw [← records, h, List.filter_append, List.filter_cons_of_pos (by simp)] at hfilter
  exact hfilter.symm

/-- **A call finds the parser that the last call of its key has kept.** -/
theorem eq_onSlot_of_records (h : records rewind calls = before ++ r :: after) :
    r = onSlot rewind (lastKept before r.call.key) r.call :=
  eq_onSlot_of_onSlotAll (onSlotAll_of_records h)

/-- **A parser is built as long as none of the key has been.** -/
theorem builds_iff_of_records (h : records rewind calls = before ++ r :: after) :
    r.Builds ↔ ∀ s ∈ before, s.call.key = r.call.key → ¬ s.HasBuilt := by
  have hslot := builds_onSlot_iff rewind (lastKept before r.call.key) r.call
  rw [← eq_onSlot_of_records h] at hslot
  rw [hslot, lastKept, slotAfter_eq_none_iff (onSlotAll_of_records h)]
  simp

end Splits

/-- What holds of each record and those before it holds of every two. -/
theorem pairwise_of_splits {β : Type} {R : β → β → Prop} {l : List β}
    (h : ∀ before b after, l = before ++ b :: after → ∀ a ∈ before, R a b) : l.Pairwise R := by
  induction l with
  | nil => exact .nil
  | cons a l ih =>
      refine List.pairwise_cons.2 ⟨fun b hb => ?_, ih fun before b after hl c hc => ?_⟩
      · obtain ⟨before, after, rfl⟩ := List.append_of_mem hb
        exact h (a :: before) b after rfl a List.mem_cons_self
      · exact h (a :: before) b after (by rw [hl]; rfl) c (List.mem_cons_of_mem a hc)

/-- **A cache is a machine for each key.**  Whatever calls it serves, in whatever order, and however
building comes out in each of them:

* there is a record for each call, and those of one key are the records of its calls alone;
* a parser is built in exactly those calls before which none of the same key has been, so that no
  two calls of a key have built one;
* if building fails that is the answer, nothing else takes place, and the key has no parser;
* in all other calls the parser that was built, or else the one that the last call of the key has
  kept, is rewound, used right after that, and kept as its use leaves it, whether that fails or
  not. -/
theorem records_per_key (rewind : π → π) (calls : List (Call κ π ε α)) :
    (records rewind calls).map Record.call = calls ∧
    (∀ key, (records rewind calls).filter (fun r => r.call.key = key) =
      records rewind (calls.filter fun call => call.key = key)) ∧
    (records rewind calls).Pairwise
      (fun s r => s.call.key = r.call.key → ¬ (s.HasBuilt ∧ r.HasBuilt)) ∧
    ∀ before r after, records rewind calls = before ++ r :: after →
      (r.Builds ↔ ∀ s ∈ before, s.call.key = r.call.key → ¬ s.HasBuilt) ∧
      (r.Builds → ∀ e, r.call.built = .error e →
        r.answer = .error e ∧ r.events = [.built] ∧ r.kept = none) ∧
      (r.Builds → ∀ parser, r.call.built = .ok parser → r.Acts rewind [.built] parser) ∧
      (¬ r.Builds → ∃ parser, lastKept before r.call.key = some parser ∧
        r.Acts rewind [] parser) := by
  refine ⟨map_call_serveAll rewind {} calls, filter_records rewind calls, ?_, ?_⟩
  · refine pairwise_of_splits fun before r after h s hs hkey hboth => ?_
    exact (builds_iff_of_records h).1 hboth.2.1 s hs hkey hboth.1
  · intro before r after h
    have hslot := builds_onSlot_iff rewind (lastKept before r.call.key) r.call
    have hr := eq_onSlot_of_records h
    rw [← hr] at hslot
    refine ⟨builds_iff_of_records h, fun hbuilds e he => ?_, fun hbuilds parser hok => ?_,
      fun hnot => ?_⟩
    · rw [hr, onSlot_of_error rewind _ r.call (hslot.1 hbuilds) he]
      exact ⟨rfl, rfl, rfl⟩
    · rw [hr]
      exact acts_onSlot_of_ok rewind _ r.call (hslot.1 hbuilds) hok
    · obtain ⟨parser, hparser⟩ := Option.ne_none_iff_exists'.1 (mt hslot.2 hnot)
      refine ⟨parser, hparser, ?_⟩
      rw [hr]
      exact acts_onSlot_of_some rewind _ r.call hparser

end Serve

/-- Calls of two keys, with parsers that count: the first call of the key `false` cannot build one,
the second can but fails in its action, and in the third building would fail again. -/
def retried : List (Call Bool Nat String Nat) :=
  [⟨false, .error "gone", fun n => (.ok n, n)⟩, ⟨true, .ok 5, fun n => (.ok n, n + 1)⟩,
    ⟨false, .ok 0, fun n => (.error "failed", n + 1)⟩, ⟨false, .error "gone", fun n => (.ok n, n)⟩]

/-- The last of these calls builds nothing: it uses what the failed action has left. -/
theorem records_per_key_retried : ∃ before r, records (· + 10) retried = before ++ [r] ∧
    ¬ r.Builds ∧ ∃ parser, lastKept before false = some parser ∧ parser = 11 ∧
      r.Acts (· + 10) [] parser := by
  have hrecords : records (· + 10) retried = (records (· + 10) retried).take 3 ++
      [onSlot (· + 10) (some 11) ⟨false, .error "gone", fun n => (.ok n, n)⟩] := rfl
  have hnot := mt (builds_onSlot_iff (· + 10) (some 11)
    (⟨false, .error "gone", fun n => (.ok n, n)⟩ : Call Bool Nat String Nat)).1 nofun
  obtain ⟨-, -, -, hsplit⟩ := records_per_key (· + 10) retried
  obtain ⟨-, -, -, hacts⟩ := hsplit _ _ _ hrecords
  obtain ⟨parser, hparser, hact⟩ := hacts hnot
  exact ⟨_, _, hrecords, hnot, parser, hparser, (Option.some.inj hparser).symm, hact⟩

end LiveExcerpts.Cache
