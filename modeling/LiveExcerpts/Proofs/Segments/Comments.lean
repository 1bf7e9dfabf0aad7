import Mathlib.Data.List.TakeWhile
import LiveExcerpts.Segment
/-!
# Comments of a text

What a comment is, said without the search for its end: a line comment is `//` with the rest of its
line, and a block comment is the shortest text from its `/*` on whose marks are balanced.

Main definitions: `depthAfter`, `Balanced`, `OpensComment`, `Piece.Stands`.  Main statements: the
search finds a comment exactly where one opens (`commentAt?_eq_none_iff`), and the comment that it
finds is the one that stands there (`stands_of_commentAt?`, `Piece.Stands.commentAt?`).
-/

namespace LiveExcerpts

/-! ## One step of the search -/

theorem closing?_open (depth n : Nat) (cs : List Char) :
    closing? depth n ('/' :: '*' :: cs) = closing? (depth + 1) (n + 2) cs := by
  rw [closing?, if_pos ⟨rfl, rfl⟩]

theorem closing?_close (depth n : Nat) (cs : List Char) :
    closing? depth n ('*' :: '/' :: cs) =
      if depth ≤ 1 then some (n + 2) else closing? (depth - 1) (n + 2) cs := by
  rw [closing?, if_neg (by decide), if_pos ⟨rfl, rfl⟩]

/-- A character is not the first of a mark, given the text behind it. -/
def BeginsNoMark (c : Char) (cs : List Char) : Prop :=
  ∀ d ∈ cs.head?, ¬(c = '/' ∧ d = '*') ∧ ¬(c = '*' ∧ d = '/')

/-- A character that is in no mark begins none. -/
theorem beginsNoMark_of_ne {c : Char} (hslash : c ≠ '/') (hstar : c ≠ '*') (cs : List Char) :
    BeginsNoMark c cs :=
  fun _ _ => ⟨fun h => hslash h.1, fun h => hstar h.1⟩

/-- A character that begins no mark is passed over. -/
theorem closing?_cons {c : Char} {cs : List Char} (h : BeginsNoMark c cs) (depth n : Nat) :
    closing? depth n (c :: cs) = closing? depth (n + 1) cs := by
  cases cs with
  | nil => rfl
  | cons d cs =>
      obtain ⟨hopen, hclose⟩ := h d rfl
      rw [closing?, if_neg hopen, if_neg hclose]

/-! ## Depth -/

/-- The number of block comments that are open after a text, if `depth` are before it.  Pairs `/*`
and `*/` are taken from the left and do not overlap. -/
def depthAfter : Nat → List Char → Nat
  | depth, c :: d :: cs =>
    if c = '/' ∧ d = '*' then depthAfter (depth + 1) cs
    else if c = '*' ∧ d = '/' then depthAfter (depth - 1) cs
    else depthAfter depth (d :: cs)
  | depth, _ => depth

theorem depthAfter_open (depth : Nat) (cs : List Char) :
    depthAfter depth ('/' :: '*' :: cs) = depthAfter (depth + 1) cs := by
  rw [depthAfter, if_pos ⟨rfl, rfl⟩]

theorem depthAfter_close (depth : Nat) (cs : List Char) :
    depthAfter depth ('*' :: '/' :: cs) = depthAfter (depth - 1) cs := by
  rw [depthAfter, if_neg (by decide), if_pos ⟨rfl, rfl⟩]

theorem depthAfter_skip {c d : Char} (hopen : ¬(c = '/' ∧ d = '*')) (hclose : ¬(c = '*' ∧ d = '/'))
    (depth : Nat) (cs : List Char) :
    depthAfter depth (c :: d :: cs) = depthAfter depth (d :: cs) := by
  rw [depthAfter, if_neg hopen, if_neg hclose]

/-- A beginning of a text reaches past its first two characters, or leaves the depth as it is. -/
theorem depthAfter_eq_or_prefix (depth : Nat) {c d : Char} {cs body : List Char}
    (h : body <+: c :: d :: cs) :
    depthAfter depth body = depth ∨ ∃ after, body = c :: d :: after ∧ after <+: cs := by
  rcases List.prefix_cons_iff.1 h with rfl | ⟨rest, rfl, hrest⟩
  · exact .inl rfl
  · rcases List.prefix_cons_iff.1 hrest with rfl | ⟨after, rfl, hafter⟩
    · exact .inl rfl
    · exact .inr ⟨after, rfl, hafter⟩

/-- The shortest text at the beginning of `cs` after which none of `depth` comments is open. -/
structure Closes (depth : Nat) (cs body : List Char) : Prop where
  /-- The text stands at the beginning. -/
  isPrefix : body <+: cs
  /-- After it no comment is open. -/
  depth_eq_zero : depthAfter depth body = 0
  /-- Within it one always is. -/
  shortest : ∀ other, other <+: cs → depthAfter depth other = 0 → body.length ≤ other.length

/-- What closes after a pair of characters closes with them. -/
theorem Closes.pair {depth inner : Nat} {c d : Char} {cs body : List Char}
    (h : Closes inner cs body) (hdepth : depth ≠ 0)
    (hpair : ∀ after, depthAfter depth (c :: d :: after) = depthAfter inner after) :
    Closes depth (c :: d :: cs) (c :: d :: body) where
  isPrefix := List.cons_prefix_cons.2 ⟨rfl, List.cons_prefix_cons.2 ⟨rfl, h.isPrefix⟩⟩
  depth_eq_zero := (hpair body).trans h.depth_eq_zero
  shortest := by
    intro other hother hzero
    rcases depthAfter_eq_or_prefix depth hother with hsame | ⟨after, rfl, hafter⟩
    · exact absurd (hsame.symm.trans hzero) hdepth
    · have hle := h.shortest after hafter ((hpair after).symm.trans hzero)
      simp only [List.length_cons]
      omega

/-- What closes after a character that begins no pair closes with it. -/
theorem Closes.skip {depth : Nat} {c d : Char} {cs body : List Char}
    (h : Closes depth (d :: cs) body) (hdepth : depth ≠ 0) (hopen : ¬(c = '/' ∧ d = '*'))
    (hclose : ¬(c = '*' ∧ d = '/')) : Closes depth (c :: d :: cs) (c :: body) where
  isPrefix := List.cons_prefix_cons.2 ⟨rfl, h.isPrefix⟩
  depth_eq_zero := by
    rcases List.prefix_cons_iff.1 h.isPrefix with rfl | ⟨after, rfl, -⟩
    · exact absurd h.depth_eq_zero hdepth
    · exact (depthAfter_skip hopen hclose depth after).trans h.depth_eq_zero
  shortest := by
    intro other hother hzero
    rcases depthAfter_eq_or_prefix depth hother with hsame | ⟨after, rfl, hafter⟩
    · exact absurd (hsame.symm.trans hzero) hdepth
    · rw [depthAfter_skip hopen hclose] at hzero
      have hle := h.shortest _ (List.cons_prefix_cons.2 ⟨rfl, hafter⟩) hzero
      simp only [List.length_cons] at hle ⊢
      omega

/-- **The search for the end of a block comment finds the shortest text that closes it.** -/
theorem closes_of_closing? {depth n m : Nat} {cs : List Char} (hdepth : depth ≠ 0)
    (h : closing? depth n cs = some m) :
    ∃ body, Closes depth cs body ∧ m = n + body.length := by
  fun_induction closing? depth n cs with
  | case1 depth n c d cs hpair ih =>
      obtain ⟨rfl, rfl⟩ := hpair
      obtain ⟨body, hbody, rfl⟩ := ih (Nat.succ_ne_zero depth) h
      refine ⟨_, hbody.pair hdepth (depthAfter_open depth), ?_⟩
      simp only [List.length_cons]
      omega
  | case2 depth n c d cs hopen hpair hle =>
      obtain ⟨rfl, rfl⟩ := hpair
      obtain rfl : n + 2 = m := Option.some.inj h
      have hend : Closes (depth - 1) cs [] :=
        ⟨List.nil_prefix, Nat.sub_eq_zero_of_le hle, fun _ _ _ => Nat.zero_le _⟩
      exact ⟨_, hend.pair hdepth (depthAfter_close depth), rfl⟩
  | case3 depth n c d cs hopen hpair hlt ih =>
      obtain ⟨rfl, rfl⟩ := hpair
      obtain ⟨body, hbody, rfl⟩ := ih (by omega) h
      refine ⟨_, hbody.pair hdepth (depthAfter_close depth), ?_⟩
      simp only [List.length_cons]
      omega
  | case4 depth n c d cs hopen hclose ih =>
      obtain ⟨body, hbody, rfl⟩ := ih hdepth h
      refine ⟨_, hbody.skip hdepth hopen hclose, ?_⟩
      simp only [List.length_cons]
      omega
  | case5 depth n cs hcs => simp at h

/-- Where the search finds no end, a comment stays open after every beginning of the text. -/
theorem depthAfter_ne_zero_of_closing? {depth n : Nat} {cs body : List Char} (hdepth : depth ≠ 0)
    (h : closing? depth n cs = none) (hbody : body <+: cs) : depthAfter depth body ≠ 0 := by
  fun_induction closing? depth n cs generalizing body with
  | case1 depth n c d cs hpair ih =>
      obtain ⟨rfl, rfl⟩ := hpair
      rcases depthAfter_eq_or_prefix depth hbody with hsame | ⟨after, rfl, hafter⟩
      · rw [hsame]
        exact hdepth
      · rw [depthAfter_open]
        exact ih (Nat.succ_ne_zero depth) h hafter
  | case2 depth n c d cs hopen hpair hle => simp at h
  | case3 depth n c d cs hopen hpair hlt ih =>
      obtain ⟨rfl, rfl⟩ := hpair
      rcases depthAfter_eq_or_prefix depth hbody with hsame | ⟨after, rfl, hafter⟩
      · rw [hsame]
        exact hdepth
      · rw [depthAfter_close]
        exact ih (by omega) h hafter
  | case4 depth n c d cs hopen hclose ih =>
      rcases depthAfter_eq_or_prefix depth hbody with hsame | ⟨after, rfl, hafter⟩
      · rw [hsame]
        exact hdepth
      · rw [depthAfter_skip hopen hclose]
        exact ih hdepth h (List.cons_prefix_cons.2 ⟨rfl, hafter⟩)
  | case5 depth n cs hcs =>
      -- One character at most is left, and it changes nothing.
      rcases body with _ | ⟨c, _ | ⟨d, after⟩⟩
      · exact hdepth
      · exact hdepth
      · obtain ⟨rest, rfl⟩ := hbody
        exact absurd rfl (hcs c d (after ++ rest))

/-! ## Comments -/

/-- A text that opens with `/*` and leaves no block comment open. -/
def Balanced (cs : List Char) : Prop := ['/', '*'] <+: cs ∧ depthAfter 0 cs = 0

/-- A comment opens at the beginning of a text: a line comment, or a block comment that is closed
somewhere. -/
def OpensComment (cs : List Char) : Prop :=
  ['/', '/'] <+: cs ∨ ∃ comment, comment <+: cs ∧ Balanced comment

/-- A piece is what the text begins with that consists of the piece and of `rest`.  A line comment
is `//` and everything up to the end of its line; a block comment is the shortest beginning that is
balanced; and inside code no comment opens. -/
def Piece.Stands (piece : Piece) (rest : List Char) : Prop :=
  match piece.kind with
  | .line => ∃ body, piece.text = '/' :: '/' :: body ∧ (∀ c ∈ body, endsLine c = false) ∧
      ∀ c ∈ rest.head?, endsLine c = true
  | .block => Balanced piece.text ∧
      ∀ other, other <+: piece.text ++ rest → Balanced other → piece.text.length ≤ other.length
  | .code => ∀ tail, tail ≠ [] → tail <:+ piece.text → ¬ OpensComment (tail ++ rest)

/-- A balanced text is `/*` with a text that closes it. -/
theorem balanced_iff {cs : List Char} :
    Balanced cs ↔ ∃ body, cs = '/' :: '*' :: body ∧ depthAfter 1 body = 0 := by
  constructor
  · rintro ⟨⟨body, rfl⟩, hzero⟩
    exact ⟨body, rfl, (depthAfter_open 0 body).symm.trans hzero⟩
  · rintro ⟨body, rfl, hzero⟩
    exact ⟨⟨body, rfl⟩, (depthAfter_open 0 body).trans hzero⟩

/-- Within a text that leaves none of `depth` comments open there is a mark that closes the last of
them. -/
theorem exists_prefix_closes {depth : Nat} {cs : List Char} (hdepth : depth ≠ 0)
    (hzero : depthAfter depth cs = 0) :
    ∃ front, front ++ ['*', '/'] <+: cs ∧ depthAfter depth (front ++ ['*', '/']) = 0 := by
  fun_induction depthAfter depth cs with
  | case1 depth c d cs hopen ih =>
      obtain ⟨rfl, rfl⟩ := hopen
      obtain ⟨front, hfront, hclosed⟩ := ih (Nat.succ_ne_zero depth) hzero
      refine ⟨'/' :: '*' :: front, ?_, (depthAfter_open depth _).trans hclosed⟩
      exact List.cons_prefix_cons.2 ⟨rfl, List.cons_prefix_cons.2 ⟨rfl, hfront⟩⟩
  | case2 depth c d cs hopen hclose ih =>
      obtain ⟨rfl, rfl⟩ := hclose
      by_cases hlast : depth - 1 = 0
      · exact ⟨[], ⟨cs, rfl⟩, (depthAfter_close depth []).trans hlast⟩
      · obtain ⟨front, hfront, hclosed⟩ := ih hlast hzero
        refine ⟨'*' :: '/' :: front, ?_, (depthAfter_close depth _).trans hclosed⟩
        exact List.cons_prefix_cons.2 ⟨rfl, List.cons_prefix_cons.2 ⟨rfl, hfront⟩⟩
  | case3 depth c d cs hopen hclose ih =>
      obtain ⟨front, hfront, hclosed⟩ := ih hdepth hzero
      refine ⟨c :: front, List.cons_prefix_cons.2 ⟨rfl, hfront⟩, ?_⟩
      -- What the mark is closed with begins with the same character, so no pair comes about.
      obtain ⟨more, hmore⟩ : ∃ more, front ++ ['*', '/'] = d :: more := by
        rcases List.prefix_cons_iff.1 hfront with hnil | ⟨more, hmore, -⟩
        · simp at hnil
        · exact ⟨more, hmore⟩
      rw [hmore] at hclosed
      rw [List.cons_append, hmore, depthAfter_skip hopen hclose]
      exact hclosed
  | case4 cs depth _ => exact absurd hzero hdepth

/-- Where a line comment stands, its two slashes do. -/
theorem Piece.Stands.exists_line_eq {text rest : List Char} (h : Piece.Stands ⟨.line, text⟩ rest) :
    ∃ body, text = '/' :: '/' :: body := by
  obtain ⟨body, htext, -⟩ := h
  exact ⟨body, htext⟩

/-- **Where a block comment stands, both of its delimiters do.** -/
theorem Piece.Stands.exists_block_eq {text rest : List Char}
    (h : Piece.Stands ⟨.block, text⟩ rest) :
    ∃ body, text = '/' :: '*' :: (body ++ ['*', '/']) := by
  obtain ⟨hbalanced, hshortest⟩ := h
  obtain ⟨inner, htext, hzero⟩ := balanced_iff.1 hbalanced
  obtain rfl : text = '/' :: '*' :: inner := htext
  obtain ⟨body, hbody, hclosed⟩ := exists_prefix_closes Nat.one_ne_zero hzero
  -- The text up to the mark is balanced, and no shorter one is.
  have hstart : '/' :: '*' :: (body ++ ['*', '/']) <+: '/' :: '*' :: inner :=
    List.cons_prefix_cons.2 ⟨rfl, List.cons_prefix_cons.2 ⟨rfl, hbody⟩⟩
  have hle := hshortest _ (hstart.trans (List.prefix_append _ rest))
    (balanced_iff.2 ⟨_, rfl, hclosed⟩)
  exact ⟨body, (hstart.eq_of_length_le hle).symm⟩

/-- A comment opens where a comment stands. -/
theorem Piece.Stands.opensComment {piece : Piece} {rest : List Char} (h : piece.Stands rest)
    (hkind : piece.kind ≠ .code) : OpensComment (piece.text ++ rest) := by
  obtain ⟨kind, text⟩ := piece
  cases kind with
  | line =>
      obtain ⟨body, rfl, -, -⟩ := h
      exact .inl ⟨body ++ rest, rfl⟩
  | block => exact .inr ⟨text, List.prefix_append _ _, h.1⟩
  | code => exact absurd rfl hkind

/-- No comment is empty. -/
theorem Piece.Stands.text_ne_nil {piece : Piece} {rest : List Char} (h : piece.Stands rest)
    (hkind : piece.kind ≠ .code) : piece.text ≠ [] := by
  obtain ⟨kind, text⟩ := piece
  cases kind with
  | line =>
      obtain ⟨body, rfl, -, -⟩ := h
      exact List.cons_ne_nil _ _
  | block =>
      obtain ⟨⟨body, rfl⟩, -⟩ := h.1
      exact List.cons_ne_nil _ _
  | code => exact absurd rfl hkind

/-- **What the search takes for a comment stands there.** -/
theorem stands_of_commentAt? {cs : List Char} {kind : SegmentKind} {n : Nat}
    (h : commentAt? cs = some (kind, n)) :
    kind ≠ .code ∧ ∃ text rest, cs = text ++ rest ∧ n = text.length ∧
      Piece.Stands ⟨kind, text⟩ rest := by
  rw [commentAt?.eq_def] at h
  split at h
  · next cs =>
      obtain ⟨rfl, rfl⟩ := Prod.mk.inj (Option.some.inj h)
      refine ⟨nofun, '/' :: '/' :: cs.takeWhile fun c => !endsLine c,
        cs.dropWhile fun c => !endsLine c, ?_, Nat.add_comm _ _, _, rfl, ?_, ?_⟩
      · rw [List.cons_append, List.cons_append, List.takeWhile_append_dropWhile]
      · intro c hc
        simpa using List.mem_takeWhile_imp hc
      · intro c hc
        have hnot := List.head?_dropWhile_not (fun c => !endsLine c) cs
        rw [Option.mem_def.1 hc] at hnot
        simpa using hnot
  · next cs =>
      obtain ⟨m, hm, heq⟩ := Option.map_eq_some_iff.1 h
      obtain ⟨rfl, rfl⟩ := Prod.mk.inj heq
      obtain ⟨body, hbody, rfl⟩ := closes_of_closing? Nat.one_ne_zero hm
      obtain ⟨rest, rfl⟩ := hbody.isPrefix
      refine ⟨nofun, '/' :: '*' :: body, rest, rfl, Nat.add_comm _ _,
        balanced_iff.2 ⟨body, rfl, hbody.depth_eq_zero⟩, ?_⟩
      intro other hother hbalanced
      obtain ⟨inner, rfl, hzero⟩ := balanced_iff.1 hbalanced
      have hinner : inner <+: body ++ rest :=
        (List.cons_prefix_cons.1 (List.cons_prefix_cons.1 hother).2).2
      have hle := hbody.shortest inner hinner hzero
      simp only [List.length_cons]
      omega
  · simp at h

/-- **The search finds nothing exactly where no comment opens.** -/
theorem commentAt?_eq_none_iff {cs : List Char} : commentAt? cs = none ↔ ¬ OpensComment cs := by
  constructor
  · rintro hnone (⟨rest, rfl⟩ | ⟨comment, hprefix, hbalanced⟩)
    · simp [commentAt?] at hnone
    · obtain ⟨body, rfl, hzero⟩ := balanced_iff.1 hbalanced
      obtain ⟨rest, rfl⟩ := hprefix
      have hclosing : closing? 1 2 (body ++ rest) = none := Option.map_eq_none_iff.1 hnone
      exact depthAfter_ne_zero_of_closing? Nat.one_ne_zero hclosing (List.prefix_append _ _) hzero
  · intro hnot
    cases h : commentAt? cs with
    | none => rfl
    | some found =>
        obtain ⟨kind, n⟩ := found
        obtain ⟨hkind, text, rest, rfl, -, hstands⟩ := stands_of_commentAt? h
        exact absurd (hstands.opensComment hkind) hnot

/-- **A comment that stands somewhere is found there.** -/
theorem Piece.Stands.commentAt? {piece : Piece} {rest : List Char} (h : piece.Stands rest)
    (hkind : piece.kind ≠ .code) :
    commentAt? (piece.text ++ rest) = some (piece.kind, piece.text.length) := by
  obtain ⟨kind, text⟩ := piece
  cases kind with
  | line =>
      obtain ⟨body, rfl, hbody, hrest⟩ := h
      have htake : rest.takeWhile (fun c => !endsLine c) = [] := by
        cases rest with
        | nil => rfl
        | cons c cs => rw [List.takeWhile_cons_of_neg (by simp [hrest c rfl])]
      have hline : (body ++ rest).takeWhile (fun c => !endsLine c) = body := by
        rw [List.takeWhile_append_of_pos (fun c hc => by simp [hbody c hc]), htake,
          List.append_nil]
      show some (SegmentKind.line, 2 + ((body ++ rest).takeWhile fun c => !endsLine c).length) = _
      rw [hline, Nat.add_comm]
      rfl
  | block =>
      obtain ⟨hbalanced, hshortest⟩ := h
      obtain ⟨body, rfl, hzero⟩ := balanced_iff.1 hbalanced
      show (closing? 1 2 (body ++ rest)).map (SegmentKind.block, ·) = _
      -- The search finds an end, since `body` closes, and both ends are the first one.
      cases hclosing : closing? 1 2 (body ++ rest) with
      | none =>
          have hopen := depthAfter_ne_zero_of_closing? Nat.one_ne_zero hclosing
            (List.prefix_append body rest)
          exact absurd hzero hopen
      | some m =>
          obtain ⟨found, hfound, rfl⟩ := closes_of_closing? Nat.one_ne_zero hclosing
          have hle : found.length ≤ body.length :=
            hfound.shortest body (List.prefix_append body rest) hzero
          have hprefix : '/' :: '*' :: found <+: '/' :: '*' :: (body ++ rest) :=
            List.cons_prefix_cons.2 ⟨rfl, List.cons_prefix_cons.2 ⟨rfl, hfound.isPrefix⟩⟩
          have hge := hshortest _ hprefix (balanced_iff.2 ⟨found, rfl, hfound.depth_eq_zero⟩)
          simp only [List.length_cons] at hge
          have hlength : 2 + found.length = ('/' :: '*' :: body).length := by
            simp only [List.length_cons]
            omega
          rw [Option.map_some, hlength]
  | code => exact absurd rfl hkind

end LiveExcerpts
