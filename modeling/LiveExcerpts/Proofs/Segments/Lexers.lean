import LiveExcerpts.Proofs.Segments.Bytewise
import LiveExcerpts.Text.Slice
/-!
# Lexers in a block comment

A lexer that has taken a `/*` looks for the end of the comment in the bytes behind it, round by
round, in steps of one byte and of two.  If it finds the end it goes on to there, and it must not
come to stand within a character.

Main definitions: `Search.Ends`, `Lexer.Returns`, `Lexer.ExactSearch`.  Main statements: the rounds
come to an end (`Search.exists_ends_iff`), and the call returns, behind the least byte at which the
comment is closed, or where it was (`Lexer.exactSearch`).
-/

namespace LiveExcerpts

/-! ## The rounds of the search -/

/-- How far the search for the end of a block comment is in the bytes behind its `/*`. -/
structure Search where
  /-- The number of comments that are open. -/
  depth : Nat
  /-- The byte that it has come to. -/
  place : Nat
deriving DecidableEq, Repr

/-- What a round of the search comes to. -/
inductive Round where
  /-- The search goes on. -/
  | goesOn (next : Search)
  /-- The comment is closed in front of this byte. -/
  | closed (stop : Nat)
  /-- There are no two bytes any more. -/
  | exhausted
deriving DecidableEq, Repr

namespace Search

/-- A round of the search: the two bytes that it has come to are a pair, or the first is passed
over. -/
def round (bytes : List UInt8) (search : Search) : Round :=
  match bytes.drop search.place with
  | b :: c :: _ =>
    if b = '/'.toUInt8 ∧ c = '*'.toUInt8 then .goesOn ⟨search.depth + 1, search.place + 2⟩
    else if b = '*'.toUInt8 ∧ c = '/'.toUInt8 then
      if search.depth - 1 = 0 then .closed (search.place + 2)
      else .goesOn ⟨search.depth - 1, search.place + 2⟩
    else .goesOn ⟨search.depth, search.place + 1⟩
  | _ => .exhausted

/-- The search ends after a number of rounds, with the byte in front of which the comment is
closed, if it is. -/
inductive Ends (bytes : List UInt8) : Search → Nat → Option Nat → Prop
  /-- The comment is closed in this round. -/
  | closed {search : Search} {stop : Nat} (h : search.round bytes = .closed stop) :
      Ends bytes search 1 (some stop)
  /-- There is no further round. -/
  | exhausted {search : Search} (h : search.round bytes = .exhausted) : Ends bytes search 0 none
  /-- The search goes on. -/
  | goesOn {search next : Search} {rounds : Nat} {answer : Option Nat}
      (h : search.round bytes = .goesOn next) (hnext : Ends bytes next rounds answer) :
      Ends bytes search (rounds + 1) answer

/-- What the search among characters finds in the bytes that are left. -/
def answer? (bytes : List UInt8) (search : Search) : Option Nat :=
  closing? search.depth search.place ((bytes.drop search.place).map Char.ofUInt8)

variable {bytes : List UInt8} {search : Search}

/-- **A round of the search keeps the answer.**  It takes a byte at least, unless it is the last. -/
theorem round_cases (bytes : List UInt8) (search : Search) :
    (∃ next, search.round bytes = .goesOn next ∧ next.answer? bytes = search.answer? bytes ∧
      search.place < next.place ∧ next.place ≤ bytes.length) ∨
    (∃ stop, search.round bytes = .closed stop ∧ search.answer? bytes = some stop ∧
      search.place < bytes.length) ∨
    (search.round bytes = .exhausted ∧ search.answer? bytes = none) := by
  obtain ⟨depth, place⟩ := search
  simp only [round, answer?]
  rcases hdrop : bytes.drop place with _ | ⟨b, _ | ⟨c, rest⟩⟩
  · exact .inr (.inr ⟨rfl, rfl⟩)
  · exact .inr (.inr ⟨rfl, rfl⟩)
  have hone : bytes.drop (place + 1) = c :: rest := by
    rw [← List.drop_drop, hdrop, List.drop_one, List.tail_cons]
  have htwo : bytes.drop (place + 2) = rest := by
    rw [← List.drop_drop, hdrop, List.drop_succ_cons, List.drop_one, List.tail_cons]
  have hlength : bytes.length - place = rest.length + 2 := by
    rw [← List.length_drop, hdrop, List.length_cons, List.length_cons]
  have hend : place + 2 ≤ bytes.length := by omega
  have hslash := fun b => ofUInt8_eq_iff (b := b) (.inl rfl : InMark '/')
  have hstar := fun b => ofUInt8_eq_iff (b := b) (.inr rfl : InMark '*')
  simp only [List.map_cons, closing?, hslash, hstar]
  by_cases hopen : b = '/'.toUInt8 ∧ c = '*'.toUInt8
  · rw [if_pos hopen, if_pos hopen]
    refine .inl ⟨_, rfl, ?_, Nat.lt_add_of_pos_right (by decide), hend⟩
    rw [htwo]
  · rw [if_neg hopen, if_neg hopen]
    by_cases hclose : b = '*'.toUInt8 ∧ c = '/'.toUInt8
    · rw [if_pos hclose, if_pos hclose]
      by_cases hle : depth ≤ 1
      · rw [if_pos (Nat.sub_eq_zero_of_le hle), if_pos hle]
        exact .inr (.inl ⟨_, rfl, rfl, Nat.lt_of_succ_lt hend⟩)
      · rw [if_neg (by omega), if_neg hle]
        refine .inl ⟨_, rfl, ?_, Nat.lt_add_of_pos_right (by decide), hend⟩
        rw [htwo]
    · rw [if_neg hclose, if_neg hclose]
      refine .inl ⟨_, rfl, ?_, Nat.lt_succ_self place, Nat.le_of_succ_le hend⟩
      rw [hone, List.map_cons]

/-- The search ends in one way only. -/
theorem Ends.unique {rounds rounds' : Nat} {answer answer' : Option Nat}
    (h : Ends bytes search rounds answer) (h' : Ends bytes search rounds' answer') :
    rounds' = rounds ∧ answer' = answer := by
  induction h generalizing rounds' answer' with
  | closed hround | exhausted hround => cases h' <;> simp_all
  | goesOn hround hnext ih =>
      cases h' with
      | closed hround' | exhausted hround' => simp_all
      | goesOn hround' hnext' =>
          obtain rfl := Round.goesOn.inj (hround'.symm.trans hround)
          obtain ⟨rfl, rfl⟩ := ih hnext'
          exact ⟨rfl, rfl⟩

/-- The search ends, with the answer of the search among characters. -/
theorem exists_ends (bytes : List UInt8) (search : Search) :
    ∃ rounds ≤ bytes.length - search.place, Ends bytes search rounds (search.answer? bytes) := by
  induction hleft : bytes.length - search.place using Nat.strong_induction_on
    generalizing search with
  | h left ih =>
      rcases round_cases bytes search with
        ⟨next, hround, hanswer, hlt, hle⟩ | ⟨stop, hround, hanswer, hlt⟩ | ⟨hround, hanswer⟩
      · obtain ⟨rounds, hrounds, hends⟩ := ih (bytes.length - next.place) (by omega) next rfl
        rw [hanswer] at hends
        exact ⟨rounds + 1, by omega, .goesOn hround hends⟩
      · rw [hanswer]
        exact ⟨1, by omega, .closed hround⟩
      · rw [hanswer]
        exact ⟨0, Nat.zero_le _, .exhausted hround⟩

/-- **The search always ends**, after at most as many rounds as there are bytes left, and with the
answer of the search among characters. -/
theorem exists_ends_iff (bytes : List UInt8) (search : Search) :
    ∃ rounds ≤ bytes.length - search.place, ∀ n found,
      Ends bytes search n found ↔ n = rounds ∧ found = search.answer? bytes := by
  obtain ⟨rounds, hrounds, hends⟩ := exists_ends bytes search
  refine ⟨rounds, hrounds, fun n found => ⟨hends.unique, ?_⟩⟩
  rintro ⟨rfl, rfl⟩
  exact hends

end Search

/-! ## Lexers -/

/-- A lexer in a text: it has taken the text up to a byte. -/
structure Lexer where
  /-- The text. -/
  text : String
  /-- The byte after the last that has been taken. -/
  stop : Nat
deriving DecidableEq, Repr

namespace Lexer

/-- What is left of the text. -/
def remainder? (lexer : Lexer) : Option String :=
  Text.slice? lexer.text lexer.stop lexer.text.utf8ByteSize

/-- The lexer after `n` more bytes, unless these end within a character or beyond the text. -/
def bump? (lexer : Lexer) (n : Nat) : Option Lexer :=
  if Text.IsEdge lexer.text (lexer.stop + n) then some ⟨lexer.text, lexer.stop + n⟩ else none

/-- The lexer, at the same byte of a text that goes on. -/
def append (lexer : Lexer) (more : String) : Lexer := ⟨lexer.text ++ more, lexer.stop⟩

/-- The call by which a lexer that has taken a `/*` goes on to the end of the comment: it returns
whether the comment is closed, and the lexer behind it.  A call that would leave the lexer within
a character does not return. -/
inductive Returns (lexer : Lexer) : Bool → Lexer → Prop
  /-- The comment is closed. -/
  | closed {rest : String} {rounds n : Nat} {after : Lexer}
      (hrest : lexer.remainder? = some rest)
      (hends : Search.Ends (Text.bytes rest) ⟨1, 0⟩ rounds (some n))
      (hafter : lexer.bump? n = some after) : Returns lexer true after
  /-- It is not, and the lexer takes nothing. -/
  | unclosed {rest : String} {rounds : Nat} (hrest : lexer.remainder? = some rest)
      (hends : Search.Ends (Text.bytes rest) ⟨1, 0⟩ rounds none) : Returns lexer false lexer

variable {lexer : Lexer} {rest : String}

/-- What is left stands behind what has been taken. -/
theorem remainder?_eq_some_iff :
    lexer.remainder? = some rest ↔
      ∃ before, lexer.text = before ++ rest ∧ lexer.stop = before.utf8ByteSize := by
  obtain ⟨text, stop⟩ := lexer
  constructor
  · intro h
    obtain ⟨⟨-, hedge, -⟩, -⟩ := Text.slice?_eq_some_iff.1 h
    obtain ⟨before, hbefore⟩ :=
      Text.exists_slice?_of_isEdge (Nat.zero_le stop) (Text.isEdge_zero text) hedge
    have hwhole := (Text.slice?_append hbefore h).symm.trans (Text.slice?_zero_utf8ByteSize text)
    have hsize := Text.add_utf8ByteSize_of_slice? hbefore
    rw [Nat.zero_add] at hsize
    exact ⟨before, (Option.some.inj hwhole).symm, hsize.symm⟩
  · rintro ⟨before, rfl, rfl⟩
    have hedge := Text.isEdge_iff.2 ⟨before, rest, rfl, rfl⟩
    refine Text.slice?_eq_some_iff.2
      ⟨⟨hedge.le_utf8ByteSize, hedge, Text.isEdge_utf8ByteSize _⟩, ?_⟩
    rw [String.toByteArray_append, String.utf8ByteSize_append]
    exact (ByteArray.extract_append_eq_right rfl rfl).symm

/-- A lexer can go on to where a character of what is left ends. -/
theorem bump?_of_isEdge (h : lexer.remainder? = some rest) {n : Nat} (hn : Text.IsEdge rest n) :
    lexer.bump? n = some ⟨lexer.text, lexer.stop + n⟩ := by
  obtain ⟨before, htext, hstop⟩ := remainder?_eq_some_iff.1 h
  obtain ⟨body, tail, rfl, rfl⟩ := Text.isEdge_iff.1 hn
  refine if_pos (Text.isEdge_iff.2 ⟨before ++ body, tail, ?_, ?_⟩)
  · rw [htext, String.append_assoc]
  · rw [hstop, String.utf8ByteSize_append]

variable {answer : Bool} {after : Lexer}

/-- **Where the search finds a byte, the call returns behind it.** -/
theorem returns_iff_of_some (h : lexer.remainder? = some rest) {n : Nat}
    (hn : Text.closingByte? rest = some n) :
    lexer.Returns answer after ↔ answer = true ∧ after = ⟨lexer.text, lexer.stop + n⟩ := by
  obtain ⟨rounds, -, hends⟩ := Search.exists_ends_iff (Text.bytes rest) ⟨1, 0⟩
  have hfound : Search.answer? (Text.bytes rest) ⟨1, 0⟩ = some n := hn
  obtain ⟨body, tail, htext, hsize, -⟩ := Text.exists_append_of_closingByte? hn
  have hbump := bump?_of_isEdge h (Text.isEdge_iff.2 ⟨body, tail, htext, hsize⟩)
  rw [hfound] at hends
  constructor
  · rintro (⟨hrest, hrounds, hafter⟩ | ⟨hrest, hrounds⟩)
    · obtain rfl := Option.some.inj (hrest.symm.trans h)
      obtain rfl := Option.some.inj ((hends _ _).1 hrounds).2
      exact ⟨rfl, Option.some.inj (hafter.symm.trans hbump)⟩
    · obtain rfl := Option.some.inj (hrest.symm.trans h)
      exact absurd ((hends _ _).1 hrounds).2 nofun
  · rintro ⟨rfl, rfl⟩
    exact .closed h ((hends rounds (some n)).2 ⟨rfl, rfl⟩) hbump

/-- **Where the search finds nothing, the call takes nothing.** -/
theorem returns_iff_of_none (h : lexer.remainder? = some rest)
    (hnone : Text.closingByte? rest = none) :
    lexer.Returns answer after ↔ answer = false ∧ after = lexer := by
  obtain ⟨rounds, -, hends⟩ := Search.exists_ends_iff (Text.bytes rest) ⟨1, 0⟩
  have hfound : Search.answer? (Text.bytes rest) ⟨1, 0⟩ = none := hnone
  rw [hfound] at hends
  constructor
  · rintro (⟨hrest, hrounds, hafter⟩ | ⟨hrest, hrounds⟩)
    · obtain rfl := Option.some.inj (hrest.symm.trans h)
      exact absurd ((hends _ _).1 hrounds).2 nofun
    · exact ⟨rfl, rfl⟩
  · rintro ⟨rfl, rfl⟩
    exact .unclosed h ((hends rounds none).2 ⟨rfl, rfl⟩)

theorem returns_true_iff (h : lexer.remainder? = some rest) :
    lexer.Returns true after ↔
      ∃ n, Text.closingByte? rest = some n ∧ after = ⟨lexer.text, lexer.stop + n⟩ := by
  cases hfound : Text.closingByte? rest with
  | none => simp [returns_iff_of_none h hfound]
  | some n => simp [returns_iff_of_some h hfound]

theorem returns_false_iff (h : lexer.remainder? = some rest) :
    lexer.Returns false after ↔ Text.closingByte? rest = none ∧ after = lexer := by
  cases hfound : Text.closingByte? rest with
  | none => simp [returns_iff_of_none h hfound]
  | some n => simp [returns_iff_of_some h hfound]

/-- **The call returns**, and in one way only. -/
theorem exists_returns_iff (h : lexer.remainder? = some rest) :
    ∃ found behind, ∀ answer after,
      lexer.Returns answer after ↔ answer = found ∧ after = behind := by
  cases hfound : Text.closingByte? rest with
  | none => exact ⟨false, lexer, fun _ _ => returns_iff_of_none h hfound⟩
  | some n => exact ⟨true, _, fun _ _ => returns_iff_of_some h hfound⟩

/-- What is left goes on with the text. -/
theorem remainder?_append (h : lexer.remainder? = some rest) (more : String) :
    (lexer.append more).remainder? = some (rest ++ more) := by
  obtain ⟨before, htext, hstop⟩ := remainder?_eq_some_iff.1 h
  refine remainder?_eq_some_iff.2 ⟨before, ?_, hstop⟩
  rw [append, htext, String.append_assoc]

/-- The comment that a text behind a `/*` closes. -/
theorem commentAt?_open (cs : List Char) :
    commentAt? ('/' :: '*' :: cs) =
      (closing? 1 0 cs).map fun n => (SegmentKind.block, 2 + n) := by
  show (closing? 1 2 cs).map (SegmentKind.block, ·) = _
  rw [closing?_add 1 2 0, Option.map_map]
  rfl

/-- What the call that goes on to the end of a comment promises of a lexer with `rest` before
it. -/
structure ExactSearch (lexer : Lexer) (rest : String) : Prop where
  /-- The search ends, after at most as many rounds as there are bytes, and in one way only. -/
  ends : ∃ rounds found, rounds ≤ rest.utf8ByteSize ∧ ∀ n answer,
    Search.Ends (Text.bytes rest) ⟨1, 0⟩ n answer ↔ n = rounds ∧ answer = found
  /-- The call returns, and in one way only. -/
  returns : ∃ found behind, ∀ answer after,
    lexer.Returns answer after ↔ answer = found ∧ after = behind
  /-- It returns that the comment is closed exactly if the depth somewhere comes from one to
  zero. -/
  closed_iff : (∃ after, lexer.Returns true after) ↔ (Text.closings rest).Nonempty
  /-- The lexer has then taken the text up to the least byte where it does, which is within the
  text and an edge of a character. -/
  closed : ∀ after, lexer.Returns true after → ∃ n, IsLeast (Text.closings rest) n ∧
    n ≤ rest.utf8ByteSize ∧ Text.IsEdge rest n ∧ after = ⟨lexer.text, lexer.stop + n⟩
  /-- Otherwise it has taken nothing. -/
  unclosed_iff : ∀ after, lexer.Returns false after ↔ Text.closings rest = ∅ ∧ after = lexer
  /-- If the comment is closed, a text that goes on has the same comment. -/
  append : ∀ after, lexer.Returns true after → ∀ more answer behind,
    (lexer.append more).Returns answer behind ↔ answer = true ∧ behind = after.append more
  /-- The comment is the one among the pieces of the text. -/
  commentAt?_iff : ∀ body tail, rest = body ++ tail →
    (commentAt? ('/' :: '*' :: rest.toList) = some (.block, 2 + body.length) ↔
      lexer.Returns true ⟨lexer.text, lexer.stop + body.utf8ByteSize⟩)
  /-- And where the call takes nothing there is none. -/
  commentAt?_eq_none_iff :
    commentAt? ('/' :: '*' :: rest.toList) = none ↔ lexer.Returns false lexer

/-- **The search for the end of a block comment is total, minimal and safe.** -/
theorem exactSearch (lexer : Lexer) (rest : String) (h : lexer.remainder? = some rest) :
    lexer.ExactSearch rest where
  ends := by
    obtain ⟨rounds, hrounds, hends⟩ := Search.exists_ends_iff (Text.bytes rest) ⟨1, 0⟩
    rw [Text.length_bytes] at hrounds
    exact ⟨rounds, _, hrounds, hends⟩
  returns := exists_returns_iff h
  closed_iff := by
    rw [Set.nonempty_iff_ne_empty, ne_eq, ← Text.closingByte?_eq_none_iff, ← ne_eq,
      Option.ne_none_iff_exists']
    constructor
    · rintro ⟨after, hafter⟩
      obtain ⟨n, hn, -⟩ := (returns_true_iff h).1 hafter
      exact ⟨n, hn⟩
    · rintro ⟨n, hn⟩
      exact ⟨_, (returns_true_iff h).2 ⟨n, hn, rfl⟩⟩
  closed := fun after hafter => by
    obtain ⟨n, hn, rfl⟩ := (returns_true_iff h).1 hafter
    obtain ⟨body, tail, htext, hsize, -⟩ := Text.exists_append_of_closingByte? hn
    have hedge := Text.isEdge_iff.2 ⟨body, tail, htext, hsize⟩
    exact ⟨n, Text.closingByte?_eq_some_iff.1 hn, hedge.le_utf8ByteSize, hedge, rfl⟩
  unclosed_iff := fun after => by
    rw [returns_false_iff h, Text.closingByte?_eq_none_iff]
  append := fun after hafter more answer behind => by
    obtain ⟨n, hn, rfl⟩ := (returns_true_iff h).1 hafter
    exact returns_iff_of_some (remainder?_append h more) (Text.closingByte?_append hn more)
  commentAt?_iff := fun body tail hrest => by
    have hchars : commentAt? ('/' :: '*' :: rest.toList) = some (.block, 2 + body.length) ↔
        closing? 1 0 rest.toList = some body.length := by
      simp [commentAt?_open]
    rw [hchars, returns_true_iff h, hrest, ← Text.closingByte?_append_iff]
    simp
  commentAt?_eq_none_iff := by
    rw [commentAt?_open, Option.map_eq_none_iff, returns_false_iff h,
      Text.closingByte?_eq_map, Option.map_eq_none_iff, and_iff_left rfl]

/-- A lexer behind a `/*`, where the comment goes on beyond ASCII and has a `/*/` within it. -/
def nested : Lexer := ⟨"a/*ü/*/ */*/ß", 3⟩

/-- The lexer goes on over ten bytes, whatever follows. -/
theorem exactSearch_nested :
    nested.remainder? = some "ü/*/ */*/ß" ∧ IsLeast (Text.closings "ü/*/ */*/ß") 10 ∧
      ∀ more, (nested.append more).Returns true ⟨nested.text ++ more, 13⟩ := by
  have hrest : nested.remainder? = some "ü/*/ */*/ß" := by decide +kernel
  have hexact := exactSearch nested "ü/*/ */*/ß" hrest
  have hreturns : nested.Returns true ⟨nested.text, 13⟩ :=
    (hexact.commentAt?_iff "ü/*/ */*/" "ß" (by decide +kernel)).1 (by decide +kernel)
  obtain ⟨n, hleast, -, -, hn⟩ := hexact.closed _ hreturns
  obtain rfl : 10 = n := Nat.add_left_cancel (congrArg Lexer.stop hn)
  exact ⟨hrest, hleast, fun more => (hexact.append _ hreturns more _ _).2 ⟨rfl, rfl⟩⟩

end Lexer

end LiveExcerpts
