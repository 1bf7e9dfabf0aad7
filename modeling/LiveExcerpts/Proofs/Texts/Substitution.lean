import LiveExcerpts.Proofs.Texts.Lines
/-!
# Texts with characters replaced

Where the characters of a text come from that has been made out of another one, and which of its
stretches are pieces between separators.

Main statements: a piece is a stretch without separators between two of them or the ends
(`mem_pieces_iff`), what has no separators and occurs in a text occurs in one of its pieces
(`exists_piece_of_isInfix`), and a character that a text did not have before a substitution comes
from the replacement (`exists_of_substitute_eq`).
-/

namespace LiveExcerpts.Text

/-! ## Pieces in a text -/

/-- **A piece stands between two separators**, or between one and an end of the text, or is all of
it. -/
theorem mem_pieces_iff {d : Char} {cs piece : List Char} :
    piece ∈ pieces (· == d) cs ↔ d ∉ piece ∧ ∃ before after, cs = before ++ piece ++ after ∧
      (∀ c ∈ before.getLast?, c = d) ∧ ∀ c ∈ after.head?, c = d := by
  constructor
  · intro h
    refine ⟨fun hd => by simpa using (mem_of_mem_pieces h hd).2, ?_⟩
    obtain ⟨front, back, hpieces⟩ := List.append_of_mem h
    have hcs := intercalate_pieces d cs
    have hback : ∀ c ∈ (back.flatMap (d :: ·)).head?, c = d := by
      intro c hc
      cases back with
      | nil => cases hc
      | cons next back => exact (Option.some.inj hc).symm
    rw [hpieces] at hcs
    cases front with
    | nil =>
        rw [List.nil_append, intercalate_singleton_cons] at hcs
        exact ⟨[], _, hcs.symm, nofun, hback⟩
    | cons first front =>
        rw [List.cons_append, intercalate_singleton_cons, List.flatMap_append,
          List.flatMap_cons] at hcs
        refine ⟨first ++ front.flatMap (d :: ·) ++ [d], back.flatMap (d :: ·), ?_, ?_, hback⟩
        · rw [← hcs]
          simp
        · intro c hc
          rw [List.getLast?_concat] at hc
          exact (Option.some.inj hc).symm
  · rintro ⟨hd, before, after, rfl, hbefore, hafter⟩
    have hpiece : pieces (· == d) piece = [piece] := by
      apply pieces_of_not_sep
      intro c hc
      rw [beq_eq_false_iff_ne]
      rintro rfl
      exact hd hc
    have hrest : piece ∈ pieces (· == d) (piece ++ after) := by
      cases after with
      | nil => rw [List.append_nil, hpiece]; exact List.mem_singleton_self piece
      | cons c after =>
          obtain rfl : c = d := hafter c rfl
          rw [pieces_append_of_sep (by simp), hpiece]
          exact List.mem_append_left _ (List.mem_singleton_self piece)
    rcases List.eq_nil_or_concat before with rfl | ⟨before, c, rfl⟩
    · exact hrest
    · obtain rfl : c = d := hbefore c (by rw [List.concat_eq_append, List.getLast?_concat]; rfl)
      rw [List.concat_eq_append, List.append_assoc, List.append_assoc, List.singleton_append,
        pieces_append_of_sep (by simp)]
      exact List.mem_append_right _ hrest

/-- A piece is a stretch of the text. -/
theorem isInfix_of_mem_pieces {d : Char} {cs piece : List Char} (h : piece ∈ pieces (· == d) cs) :
    piece <:+: cs := by
  obtain ⟨-, before, after, rfl, -, -⟩ := mem_pieces_iff.1 h
  exact ⟨before, after, rfl⟩

/-- **What occurs in a text and has no separator in it occurs in one of the pieces.** -/
theorem exists_piece_of_isInfix {d : Char} {pattern cs : List Char} (hd : d ∉ pattern)
    (h : pattern <:+: cs) : ∃ piece ∈ pieces (· == d) cs, pattern <:+: piece := by
  obtain ⟨before, after, rfl⟩ := h
  -- The piece goes on to both sides as long as there is no separator.
  obtain ⟨front, hfront, hlast⟩ := exists_eq_append_last d before
  have hback : after = after.takeWhile (· != d) ++ after.dropWhile (· != d) :=
    List.takeWhile_append_dropWhile.symm
  let lead := (before.reverse.takeWhile (· != d)).reverse
  let trail := after.takeWhile (· != d)
  refine ⟨lead ++ pattern ++ trail, mem_pieces_iff.2 ⟨?_, front, after.dropWhile (· != d), ?_,
    hlast, fun _ => eq_of_mem_head?_dropWhile_bne⟩, ⟨lead, trail, rfl⟩⟩
  · rw [List.mem_append, List.mem_append, List.mem_reverse]
    rintro ((hlead | hpattern) | htrail)
    · exact not_mem_takeWhile_bne d _ hlead
    · exact hd hpattern
    · exact not_mem_takeWhile_bne d _ htrail
  · calc before ++ pattern ++ after
        = (front ++ lead) ++ pattern ++ (trail ++ after.dropWhile (· != d)) := by
          rw [← hfront, ← hback]
      _ = _ := by simp only [List.append_assoc]

/-! ## Substitution -/

theorem substitute_append (c : Char) (replacement cs ds : List Char) :
    substitute c replacement (cs ++ ds) =
      substitute c replacement cs ++ substitute c replacement ds := List.flatMap_append

theorem substitute_cons_self (c : Char) (replacement cs : List Char) :
    substitute c replacement (c :: cs) = replacement ++ substitute c replacement cs := by
  rw [substitute, List.flatMap_cons, if_pos rfl]
  rfl

theorem substitute_cons_of_ne {c d : Char} (h : d ≠ c) (replacement cs : List Char) :
    substitute c replacement (d :: cs) = d :: substitute c replacement cs := by
  rw [substitute, List.flatMap_cons, if_neg h]
  rfl

/-- Where one character is put for another, each is replaced where it stands. -/
theorem substitute_singleton (c d : Char) (cs : List Char) :
    substitute c [d] cs = cs.map fun e => if e = c then d else e := by
  induction cs with
  | nil => rfl
  | cons e cs ih =>
      by_cases hec : e = c
      · subst hec
        rw [substitute_cons_self, ih, List.map_cons, if_pos rfl]
        rfl
      · rw [substitute_cons_of_ne hec, ih, List.map_cons, if_neg hec]

/-- A text without the character stays as it is. -/
theorem substitute_of_not_mem {c : Char} {cs : List Char} (h : c ∉ cs) (replacement : List Char) :
    substitute c replacement cs = cs := by
  induction cs with
  | nil => rfl
  | cons d cs ih =>
      obtain ⟨hd, hcs⟩ := not_or.1 (mt List.mem_cons.2 h)
      rw [substitute_cons_of_ne (Ne.symm hd), ih hcs]

/-- Texts joined by a character that none of them has are joined by what is put for it. -/
theorem substitute_intercalate {c : Char} {texts : List (List Char)}
    (h : ∀ text ∈ texts, c ∉ text) (d : Char) :
    substitute c [d] ([c].intercalate texts) = [d].intercalate texts := by
  induction texts with
  | nil => rfl
  | cons text texts ih =>
      obtain ⟨htext, htexts⟩ := List.forall_mem_cons.1 h
      cases texts with
      | nil =>
          rw [List.intercalate_singleton, List.intercalate_singleton, substitute_of_not_mem htext]
      | cons next texts =>
          rw [List.intercalate_cons_cons, List.intercalate_cons_cons, substitute_append,
            substitute_append, substitute_of_not_mem htext, ih htexts]
          rw [substitute_cons_self]
          rfl

/-- A character that has been replaced is gone. -/
theorem not_mem_substitute {c : Char} {replacement : List Char} (h : c ∉ replacement)
    (cs : List Char) : c ∉ substitute c replacement cs := by
  intro hmem
  obtain ⟨d, -, hd⟩ := List.mem_flatMap.1 hmem
  split at hd
  · exact h hd
  · next hne => exact hne (List.mem_singleton.1 hd).symm

/-- **A character that the text did not have comes from the replacement.** -/
theorem exists_of_substitute_eq {c d : Char} {replacement cs before after : List Char}
    (hd : d ∉ cs) (h : substitute c replacement cs = before ++ d :: after) :
    ∃ front back lead trail, cs = front ++ c :: back ∧ replacement = lead ++ d :: trail ∧
      before = substitute c replacement front ++ lead ∧
      after = trail ++ substitute c replacement back := by
  induction cs generalizing before with
  | nil => cases before <;> cases h
  | cons e cs ih =>
      obtain ⟨hde, hd⟩ := not_or.1 (mt List.mem_cons.2 hd)
      by_cases hec : e = c
      · subst hec
        rw [substitute_cons_self] at h
        -- Either the character is in this copy of the replacement, or it stands further on.
        rcases List.append_eq_append_iff.1 h with ⟨later, hbefore, hcs⟩ | ⟨rest, hcopy, hrest⟩
        · obtain ⟨front, back, lead, trail, rfl, hreplacement, hlater, hafter⟩ := ih hd hcs
          refine ⟨e :: front, back, lead, trail, rfl, hreplacement, ?_, hafter⟩
          rw [hbefore, hlater, substitute_cons_self, List.append_assoc]
        · cases rest with
          | nil =>
              rw [List.nil_append] at hrest
              obtain ⟨front, back, lead, trail, rfl, hreplacement, hnil, hafter⟩ :=
                @ih [] hd hrest.symm
              refine ⟨e :: front, back, lead, trail, rfl, hreplacement, ?_, hafter⟩
              rw [List.append_nil] at hcopy
              rw [substitute_cons_self, List.append_assoc, ← hnil, List.append_nil, hcopy]
          | cons x trail =>
              obtain ⟨rfl, rfl⟩ := List.cons.inj hrest
              exact ⟨[], cs, before, trail, rfl, hcopy, rfl, rfl⟩
      · rw [substitute_cons_of_ne hec] at h
        cases before with
        | nil => exact absurd (List.cons.inj h).1.symm hde
        | cons x before =>
            obtain ⟨rfl, hcs⟩ := List.cons.inj h
            obtain ⟨front, back, lead, trail, rfl, hreplacement, rfl, hafter⟩ := ih hd hcs
            refine ⟨e :: front, back, lead, trail, rfl, hreplacement, ?_, hafter⟩
            rw [substitute_cons_of_ne hec]
            rfl

end LiveExcerpts.Text
