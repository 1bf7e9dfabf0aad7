import LiveExcerpts.Excerpt
/-!
# The tokens of an excerpt, whatever the declaration

The indices of a declaration may lie in any order, and beyond the stream.  The run of tokens that is
shown of it still begins at one place for both extents, the one after the last significant token
above the declaration, and only the object of a property can be without a signature.

Main statements: `TokenStream.firstToken_eq_iff`, `Declaration.brace?_eq_some_iff`, where a
signature ends (`Declaration.signatureEnd_le`, `Declaration.signatureEnd_eq_error_iff`), and
`Declaration.exists_first_of_range` on the runs of tokens of any declaration.
-/

namespace LiveExcerpts

variable {stream : TokenStream} {file : Path}

/-! ## The first token -/

namespace TokenStream

/-- Where there is something significant, there is a token. -/
theorem exists_token_of_isTrivia_eq_false {i : Nat} (h : stream.isTrivia i = false) :
    ∃ token, stream.tokens[i]? = some token := by
  rw [isTrivia] at h
  cases htoken : stream.tokens[i]? with
  | none => rw [htoken] at h; exact nomatch h
  | some token => exact ⟨token, rfl⟩

/-- Beyond the stream there is nothing significant. -/
theorem isTrivia_of_size_le {i : Nat} (h : stream.size ≤ i) : stream.isTrivia i = true := by
  cases htrivia : stream.isTrivia i with
  | true => rfl
  | false =>
      obtain ⟨token, htoken⟩ := exists_token_of_isTrivia_eq_false htrivia
      have hlt : i < stream.size := (Array.getElem?_eq_some_iff.1 htoken).1
      omega

/-- **The first token of an excerpt** is the one from which on there is only trivia above the
declaration, and before which there is none. -/
theorem firstToken_eq_iff {start first : Nat} :
    stream.firstToken start = first ↔ first ≤ start ∧
      (∀ i, first ≤ i → i < start → stream.isTrivia i = true) ∧
      ∀ n, first = n + 1 → stream.isTrivia n = false := by
  have hle := stream.firstToken_le start
  constructor
  · rintro rfl
    exact ⟨hle, fun i => stream.isTrivia_of_firstToken_le,
      fun n => stream.isTrivia_of_firstToken_eq_succ⟩
  · rintro ⟨hfirst, habove, hbefore⟩
    -- Whichever of the two came first, the token before the other one would be both.
    rcases Nat.lt_trichotomy (stream.firstToken start) first with hlt | heq | hgt
    · obtain ⟨n, rfl⟩ := Nat.exists_eq_succ_of_ne_zero (Nat.ne_zero_of_lt hlt)
      have htrivia := stream.isTrivia_of_firstToken_le (Nat.le_of_lt_succ hlt) (by omega)
      rw [hbefore n rfl] at htrivia
      exact nomatch htrivia
    · exact heq
    · obtain ⟨n, hn⟩ := Nat.exists_eq_succ_of_ne_zero (Nat.ne_zero_of_lt hgt)
      have hnot := stream.isTrivia_of_firstToken_eq_succ hn
      rw [habove n (by omega) (by omega)] at hnot
      exact nomatch hnot

/-- Going back from beyond the stream is going back from its end. -/
theorem firstToken_min_size (stream : TokenStream) (start : Nat) :
    stream.firstToken (min start stream.size) = stream.firstToken start := by
  symm
  rw [firstToken_eq_iff]
  have hle := stream.firstToken_le (min start stream.size)
  refine ⟨by omega, fun i hi hlt => ?_, fun n => stream.isTrivia_of_firstToken_eq_succ⟩
  rcases Nat.lt_or_ge i stream.size with hin | hbeyond
  · exact stream.isTrivia_of_firstToken_le hi (by omega)
  · exact isTrivia_of_size_le hbeyond

end TokenStream

/-! ## The end of a signature -/

namespace Declaration

variable {d : Declaration}

/-- **The brace of an object** is the first one from the object on, behind the first token of the
declaration and before its last. -/
theorem brace?_eq_some_iff {object brace : Nat} :
    d.brace? stream object = some brace ↔
      (∃ token, stream.tokens[brace]? = some token ∧ token.kind = Node.openBrace) ∧
      max object (d.start + 1) ≤ brace ∧ brace < d.stop ∧
      ∀ i token, max object (d.start + 1) ≤ i → i < brace → stream.tokens[i]? = some token →
        token.kind ≠ Node.openBrace := by
  rw [brace?, List.find?_range'_eq_some, List.mem_range'_1]
  constructor
  · rintro ⟨hbrace, ⟨hlow, hhigh⟩, hbefore⟩
    obtain ⟨token, htoken, hkind⟩ := (Option.any_eq_true _ _).1 hbrace
    refine ⟨⟨token, htoken, beq_iff_eq.1 hkind⟩, hlow, by omega, fun i t hi hlt ht hopen => ?_⟩
    have hnot := hbefore i hi hlt
    rw [ht, Option.any_some, hopen, beq_self_eq_true] at hnot
    exact nomatch hnot
  · rintro ⟨⟨token, htoken, hkind⟩, hlow, hhigh, hbefore⟩
    have hsize : brace < stream.size := (Array.getElem?_eq_some_iff.1 htoken).1
    refine ⟨?_, ⟨hlow, by omega⟩, fun i hi hlt => ?_⟩
    · rw [htoken, Option.any_some, hkind, beq_self_eq_true]
    · cases ht : stream.tokens[i]? with
      | none => rfl
      | some t =>
          rw [Option.any_some, beq_eq_false_iff_ne.2 (hbefore i t hi hlt ht)]
          rfl

/-- There is no brace for an object exactly if no token in its reach is one. -/
theorem brace?_eq_none_iff {object : Nat} :
    d.brace? stream object = none ↔
      ∀ i token, max object (d.start + 1) ≤ i → i < d.stop → stream.tokens[i]? = some token →
        token.kind ≠ Node.openBrace := by
  rw [brace?, List.find?_eq_none]
  constructor
  · intro hnone i token hlow hhigh htoken hopen
    have hsize : i < stream.size := (Array.getElem?_eq_some_iff.1 htoken).1
    refine hnone i (List.mem_range'_1.2 ⟨hlow, by omega⟩) ?_
    rw [htoken, Option.any_some, hopen, beq_self_eq_true]
  · intro hnone i hi hany
    obtain ⟨token, htoken, hkind⟩ := (Option.any_eq_true _ _).1 hany
    obtain ⟨hlow, hhigh⟩ := List.mem_range'_1.1 hi
    exact hnone i token hlow (by omega) htoken (beq_iff_eq.1 hkind)

/-- The signature of a property that holds an object ends two tokens before the brace. -/
theorem signatureEnd_of_brace? {object brace : Nat} (hkind : d.kind = .property)
    (hobject : d.object? = some object) (hbrace : d.brace? stream object = some brace) :
    d.signatureEnd stream file = .ok (brace - 2) := by
  rw [signatureEnd, hkind, hobject]
  simp only [hbrace]

/-- **A signature ends no later than the declaration and what is before its body.** -/
theorem signatureEnd_le {bound last : Nat} (hstop : d.stop ≤ bound)
    (hbody : ∀ body, d.body? = some body → body ≤ bound + 1)
    (h : d.signatureEnd stream file = .ok last) : last ≤ bound := by
  rw [signatureEnd] at h
  split at h
  · next body _ hsome =>
      obtain rfl : body - 1 = last := Except.ok.inj h
      exact Nat.sub_le_of_le_add (hbody body hsome)
  · next body _ hsome =>
      obtain rfl : body - 1 = last := Except.ok.inj h
      exact Nat.sub_le_of_le_add (hbody body hsome)
  · next object _ _ =>
      cases hbrace : d.brace? stream object with
      | none => rw [hbrace] at h; exact nomatch h
      | some brace =>
          rw [hbrace] at h
          obtain rfl : brace - 2 = last := Except.ok.inj h
          obtain ⟨-, -, hlt, -⟩ := brace?_eq_some_iff.1 hbrace
          omega
  · obtain rfl : d.stop = last := Except.ok.inj h
    exact hstop

/-- **Only the object of a property can be without a signature**, for want of a brace. -/
theorem signatureEnd_eq_error_iff {e : Error} :
    d.signatureEnd stream file = .error e ↔
      e = .bodyNotFound file d.name ∧ d.kind = .property ∧
        ∃ object, d.object? = some object ∧ d.brace? stream object = none := by
  rw [signatureEnd]
  split
  · next hkind _ => simp [hkind]
  · next hkind _ => simp [hkind]
  · next object hkind hobject =>
      cases hbrace : d.brace? stream object with
      | some brace => simp [hbrace, hobject]
      | none => simp [hbrace, hobject, hkind, eq_comm]
  · next hnot =>
      refine ⟨nofun, ?_⟩
      rintro ⟨-, hkind, object, hobject, -⟩
      exact absurd hobject (hnot object hkind)

/-! ## Runs of tokens -/

/-- The run of a definition goes on to the declaration's last token, but begins where it begins. -/
theorem range_definition (stream : TokenStream) (file : Path) (d : Declaration) :
    d.range stream file .definition =
      .ok ⟨stream.firstToken d.start, max d.stop (stream.firstToken d.start)⟩ := by
  show Except.ok (TokenRange.mk (stream.firstToken (min d.start stream.size))
    (max d.stop (stream.firstToken (min d.start stream.size)))) = _
  rw [stream.firstToken_min_size]

/-- The run of a signature goes on to the signature's end, but begins where it begins. -/
theorem range_signature (stream : TokenStream) (file : Path) (d : Declaration) :
    d.range stream file .signature = (d.signatureEnd stream file).map fun last =>
      ⟨stream.firstToken d.start, max last (stream.firstToken d.start)⟩ := by
  rw [range, stream.firstToken_min_size]
  cases d.signatureEnd stream file <;> rfl

/-- There is a run for the signature exactly if the signature has an end. -/
theorem range_signature_eq_ok_iff {s : TokenRange} :
    d.range stream file .signature = .ok s ↔
      ∃ last, d.signatureEnd stream file = .ok last ∧
        s = ⟨stream.firstToken d.start, max last (stream.firstToken d.start)⟩ := by
  rw [range_signature]
  cases d.signatureEnd stream file with
  | error e => simp [Except.map]
  | ok last => simp [Except.map, eq_comm]

/-- The run of a signature fails exactly as its end does. -/
theorem range_signature_eq_error_iff {e : Error} :
    d.range stream file .signature = .error e ↔ d.signatureEnd stream file = .error e := by
  rw [range_signature]
  cases d.signatureEnd stream file <;> simp [Except.map]

/-- Both runs begin at one token. -/
theorem first_of_range {extent : Extent} {r : TokenRange}
    (h : d.range stream file extent = .ok r) : r.first = stream.firstToken d.start := by
  cases extent with
  | definition =>
      rw [range_definition] at h
      obtain rfl := Except.ok.inj h
      rfl
  | signature =>
      obtain ⟨last, -, rfl⟩ := range_signature_eq_ok_iff.1 h
      rfl

/-- **Whatever its indices, a declaration has a run of tokens for its definition and, unless its
object is without a brace, one for its signature.**  Both begin at one token, which is not behind
the declaration's first; from it up to the declaration there is only trivia, and before it stands a
significant token, if there is any.  A signature fails exactly for a property that holds an object
without an opening brace from there on, behind the declaration's first token and before its last,
and the failure names the declaration. -/
theorem exists_first_of_range (stream : TokenStream) (file : Path) (d : Declaration) :
    ∃ first, first ≤ d.start ∧
      (∀ i, first ≤ i → i < d.start → stream.isTrivia i = true) ∧
      (first = 0 ∨ ∃ token, stream.tokens[first - 1]? = some token ∧
        stream.isTrivia (first - 1) = false) ∧
      (∀ extent r, d.range stream file extent = .ok r → r.first = first ∧ r.first ≤ r.last) ∧
      d.range stream file .definition = .ok ⟨first, max d.stop first⟩ ∧
      ∀ e, d.range stream file .signature = .error e ↔
        e = .bodyNotFound file d.name ∧ d.kind = .property ∧
          ∃ object, d.object? = some object ∧
            ∀ i token, max object (d.start + 1) ≤ i → i < d.stop →
              stream.tokens[i]? = some token → token.kind ≠ Node.openBrace := by
  obtain ⟨hle, habove, hbefore⟩ := TokenStream.firstToken_eq_iff.1
    (rfl : stream.firstToken d.start = stream.firstToken d.start)
  refine ⟨_, hle, habove, ?_, fun extent r hr => ⟨first_of_range hr, range_first_le_last hr⟩,
    range_definition stream file d, fun e => ?_⟩
  · cases hfirst : stream.firstToken d.start with
    | zero => exact .inl rfl
    | succ n =>
        have hsignificant := hbefore n hfirst
        obtain ⟨token, htoken⟩ := TokenStream.exists_token_of_isTrivia_eq_false hsignificant
        exact .inr ⟨token, htoken, hsignificant⟩
  · rw [range_signature_eq_error_iff, signatureEnd_eq_error_iff]
    simp only [brace?_eq_none_iff]

end Declaration

end LiveExcerpts
