import LiveExcerpts.Command
import LiveExcerpts.Proofs.Texts.Occurrences
import LiveExcerpts.Proofs.Texts.Words
/-!
# What command lines say

The grammar of commands, said without reading: an `@`, a verb and a target, with blanks around them,
where the target is a path and an identifier with `::` between them.

Main definitions: `Command.IsLine`, `Command.IsTarget`, `Command.Reading`, `Command.written`.  Main
statements: what a line comes to is settled by its words (`Command.reading_parse`), a command can be
read back from any way to write it (`Command.parse_written`), and both together
(`Command.parse_grammar`).
-/

namespace LiveExcerpts

theorem Extent.ofVerb?_eq_some_iff {verb : String} {extent : Extent} :
    ofVerb? verb = some extent ↔ verb = extent.verb := by
  constructor
  · intro h
    unfold ofVerb? at h
    split at h
    · next hverb => exact Option.some.inj h ▸ hverb
    · split at h
      · next hverb => exact Option.some.inj h ▸ hverb
      · cases h
  · rintro rfl
    exact Command.ofVerb?_verb extent

theorem Extent.ofVerb?_eq_none_iff {verb : String} :
    ofVerb? verb = none ↔ ∀ extent : Extent, verb ≠ extent.verb := by
  rw [Option.eq_none_iff_forall_ne_some]
  exact forall_congr' fun extent => not_congr ofVerb?_eq_some_iff

namespace Command

/-! ## Lines -/

/-- A line that consists of an `@` and these words, with blanks around each of them. -/
def IsLine (raw : String) (words : List String) : Prop :=
  ∃ before after, raw.toList = before ++ '@' :: after ∧ Text.allBlank before = true ∧
    Text.IsSpaced (words.map String.toList) after

/-- **The words that are read off a line are those that it consists of.** -/
theorem words?_eq_some_iff {raw : String} {words : List String} :
    words? raw = some words ↔ IsLine raw words := by
  have hat : Text.isBlank '@' = false := rfl
  constructor
  · intro h
    unfold words? at h
    split at h
    · next cs hcs =>
        obtain rfl := Option.some.inj h
        obtain ⟨lead, tail, hlead, htail, heq⟩ := Text.exists_eq_append_trim raw.toList
        refine ⟨lead, cs ++ tail, ?_, hlead, ?_⟩
        · rw [heq, hcs, List.append_assoc, List.cons_append]
        · rw [Text.isSpaced_iff_words_eq, Text.words_append_blank htail]
          simp [Function.comp_def]
    · cases h
  · rintro ⟨before, after, heq, hbefore, hspaced⟩
    have htrim : Text.trim raw.toList = '@' :: Text.trimEnd after := by
      rw [heq, Text.trim, Text.trimStart_append_of_blank hbefore, Text.trimStart_cons,
        if_neg (by rw [hat]; decide)]
      exact Text.trimEnd_append_cons hat [] after
    obtain ⟨gap, hgap, hafter⟩ := Text.exists_eq_trimEnd_append after
    have hwords : Text.words (Text.trimEnd after) = words.map String.toList := by
      have hsame := congrArg Text.words hafter
      rwa [Text.words_append_blank hgap, hspaced.words_eq, eq_comm] at hsame
    unfold words?
    rw [htrim]
    simp [hwords, Function.comp_def]

theorem IsLine.unique {raw : String} {words words' : List String} (h : IsLine raw words)
    (h' : IsLine raw words') : words = words' :=
  Option.some.inj ((words?_eq_some_iff.2 h).symm.trans (words?_eq_some_iff.2 h'))

/-! ## Targets -/

/-- A target that consists of a path and an identifier with `::` between them, the first one in
it.  Neither of the two is empty. -/
structure IsTarget (word path identifier : String) : Prop where
  /-- The target is put together from the path and the identifier. -/
  eq_append : word = path ++ "::" ++ identifier
  /-- There is no `::` before this one. -/
  least : ∀ p q : String, word = p ++ "::" ++ q → path.length ≤ p.length
  /-- There is a path. -/
  path_ne_empty : path ≠ ""
  /-- There is an identifier. -/
  identifier_ne_empty : identifier ≠ ""

/-- A target is cut at the first `::`. -/
theorem splitFirst?_eq_some_iff {word path identifier : String} :
    Text.splitFirst? [':', ':'] word.toList = some (path.toList, identifier.toList) ↔
      word = path ++ "::" ++ identifier ∧
        ∀ p q : String, word = p ++ "::" ++ q → path.length ≤ p.length := by
  have happend : ∀ p q : String, word = p ++ "::" ++ q ↔
      word.toList = p.toList ++ [':', ':'] ++ q.toList := by
    intro p q
    rw [← String.toList_inj, String.toList_append, String.toList_append]
    rfl
  rw [Text.splitFirst?_eq_some_iff, happend]
  simp only [← String.length_toList]
  refine and_congr_right fun _ => ⟨fun h p q hpq => ?_, fun h p q hpq => ?_⟩
  · exact h p.toList q.toList ((happend p q).1 hpq)
  · have hle := h (String.ofList p) (String.ofList q) ((happend _ _).2 (by simpa using hpq))
    rwa [String.toList_ofList] at hle

/-- A target is read as the path and the identifier that it consists of, or found malformed. -/
theorem target_cases (raw word : String) :
    (∃ path identifier, IsTarget word path identifier ∧
      target raw word = .ok (path, identifier)) ∨
    (∀ path identifier, ¬ IsTarget word path identifier) ∧
      ∃ reason, target raw word = .error (.malformedCommand raw reason) := by
  unfold target
  cases hsplit : Text.splitFirst? [':', ':'] word.toList with
  | none =>
      refine .inr ⟨fun path identifier h => ?_, _, rfl⟩
      rw [splitFirst?_eq_some_iff.2 ⟨h.eq_append, h.least⟩] at hsplit
      cases hsplit
  | some parts =>
      obtain ⟨path, identifier⟩ := parts
      have hcut := hsplit
      rw [← String.toList_ofList (l := path), ← String.toList_ofList (l := identifier),
        splitFirst?_eq_some_iff] at hcut
      by_cases hempty : path = [] ∨ identifier = []
      · refine .inr ⟨fun p i h => ?_, _, if_pos (by simpa using hempty)⟩
        rw [splitFirst?_eq_some_iff.2 ⟨h.eq_append, h.least⟩] at hsplit
        obtain ⟨rfl, rfl⟩ := Prod.mk.inj (Option.some.inj hsplit)
        rcases hempty with hp | hi
        · exact h.path_ne_empty (by simpa using hp)
        · exact h.identifier_ne_empty (by simpa using hi)
      · obtain ⟨hp, hi⟩ := not_or.1 hempty
        refine .inl ⟨_, _, ⟨hcut.1, hcut.2, ?_, ?_⟩, if_neg (by simpa using hempty)⟩
        · simpa using hp
        · simpa using hi

theorem IsTarget.unique {word path path' identifier identifier' : String}
    (h : IsTarget word path identifier) (h' : IsTarget word path' identifier') :
    path = path' ∧ identifier = identifier' := by
  have hcut := splitFirst?_eq_some_iff.2 ⟨h.eq_append, h.least⟩
  rw [splitFirst?_eq_some_iff.2 ⟨h'.eq_append, h'.least⟩] at hcut
  obtain ⟨hpath, hidentifier⟩ := Prod.mk.inj (Option.some.inj hcut)
  exact ⟨(String.toList_inj.1 hpath).symm, (String.toList_inj.1 hidentifier).symm⟩

/-- A path without `::` that does not end in a colon stands before the first `::` of a target. -/
theorem isTarget_append {path identifier : String} (hpath : path ≠ "")
    (hidentifier : identifier ≠ "") (hcolons : ¬ [':', ':'] <:+: path.toList)
    (hend : path.toList.getLast? ≠ some ':') :
    IsTarget (path ++ "::" ++ identifier) path identifier := by
  refine ⟨rfl, fun p q hpq => Nat.le_of_not_lt fun hlt => ?_, hpath, hidentifier⟩
  have hseparator : "::".toList = [':', ':'] := rfl
  have hlists := congrArg String.toList hpq
  simp only [String.toList_append, List.append_assoc, hseparator] at hlists
  -- A `::` further to the left begins within the path.
  rcases List.append_eq_append_iff.1 hlists with ⟨mid, hp, -⟩ | ⟨mid, hp, hmid⟩
  · have hlength := congrArg List.length hp
    simp only [List.length_append, String.length_toList] at hlength
    omega
  · rcases mid with _ | ⟨c, _ | ⟨d, mid⟩⟩
    · have hlength := congrArg List.length hp
      simp only [List.append_nil, String.length_toList] at hlength
      omega
    · obtain ⟨rfl, -⟩ := List.cons.inj hmid
      exact hend (by rw [hp, List.getLast?_concat])
    · simp only [List.cons_append, List.cons.injEq] at hmid
      obtain ⟨rfl, rfl, -⟩ := hmid
      exact hcolons ⟨p.toList, mid, by rw [hp, List.append_assoc]; rfl⟩

/-! ## Reading -/

/-- What a line comes to. -/
inductive Reading (raw : String) : Except Error Command → Prop
  /-- The line is no `@` with one or two words. -/
  | shapeless {reason : String}
      (hline : ∀ words, IsLine raw words → words.length = 0 ∨ 2 < words.length) :
      Reading raw (.error (.malformedCommand raw reason))
  /-- The first of one or two words is no verb. -/
  | unknown {verb : String} {more : List String} (hline : IsLine raw (verb :: more))
      (hmore : more.length ≤ 1) (hverb : ∀ extent : Extent, verb ≠ extent.verb) :
      Reading raw (.error (.unknownCommand verb))
  /-- There is a verb, but no target after it. -/
  | untargeted {extent : Extent} {more : List String} {reason : String}
      (hline : IsLine raw (extent.verb :: more)) (hmore : more.length ≤ 1)
      (htarget : ∀ word ∈ more, ∀ path identifier, ¬ IsTarget word path identifier) :
      Reading raw (.error (.malformedCommand raw reason))
  /-- There are a verb and a target. -/
  | command {command : Command} {word : String}
      (hline : IsLine raw [command.extent.verb, word])
      (htarget : IsTarget word command.path command.identifier) : Reading raw (.ok command)

/-- **A line is read by its words.** -/
theorem reading_parse (raw : String) : Reading raw (parse raw) := by
  unfold parse
  cases hwords : words? raw with
  | none =>
      refine .shapeless fun words hline => ?_
      rw [words?_eq_some_iff.2 hline] at hwords
      cases hwords
  | some words =>
      have hline := words?_eq_some_iff.1 hwords
      rcases words with _ | ⟨verb, _ | ⟨word, _ | ⟨third, more⟩⟩⟩
      · exact .shapeless fun words hother => .inl (hline.unique hother ▸ rfl)
      · dsimp only
        cases hverb : Extent.ofVerb? verb with
        | none => exact .unknown hline (Nat.zero_le 1) (Extent.ofVerb?_eq_none_iff.1 hverb)
        | some extent =>
            obtain rfl := Extent.ofVerb?_eq_some_iff.1 hverb
            exact .untargeted hline (Nat.zero_le 1) (by simp)
      · dsimp only
        cases hverb : Extent.ofVerb? verb with
        | none => exact .unknown hline (Nat.le_refl 1) (Extent.ofVerb?_eq_none_iff.1 hverb)
        | some extent =>
            obtain rfl := Extent.ofVerb?_eq_some_iff.1 hverb
            rcases target_cases raw word with
              ⟨path, identifier, htarget, heq⟩ | ⟨hnone, reason, heq⟩
            · dsimp only
              rw [heq]
              exact @Reading.command raw ⟨extent, path, identifier⟩ _ hline htarget
            · dsimp only
              rw [heq]
              exact .untargeted hline (Nat.le_refl 1) (by simpa using hnone)
      · exact .shapeless fun words hother => .inr (hline.unique hother ▸ by simp)

/-- Where there is a command, the line is read as that. -/
theorem parse_of_isTarget {raw word : String} {command : Command}
    (hline : IsLine raw [command.extent.verb, word])
    (htarget : IsTarget word command.path command.identifier) : parse raw = .ok command := by
  rcases target_cases raw word with ⟨path, identifier, hfound, heq⟩ | ⟨hnone, -⟩
  · obtain ⟨rfl, rfl⟩ := hfound.unique htarget
    exact parse_of_words (words?_eq_some_iff.2 hline) heq
  · exact absurd htarget (hnone _ _)

/-- Where the first of one or two words is no verb, that is said. -/
theorem parse_of_not_verb {raw verb : String} {more : List String}
    (hline : IsLine raw (verb :: more)) (hmore : more.length ≤ 1)
    (hverb : ∀ extent : Extent, verb ≠ extent.verb) :
    parse raw = .error (.unknownCommand verb) := by
  have hreading := reading_parse raw
  generalize parse raw = outcome at hreading ⊢
  cases hreading with
  | shapeless hnone =>
      have hlength := hnone _ hline
      simp only [List.length_cons] at hlength
      omega
  | unknown hother =>
      obtain ⟨rfl, -⟩ := List.cons.inj (hother.unique hline)
      rfl
  | @untargeted extent _ _ hother =>
      obtain ⟨rfl, -⟩ := List.cons.inj (hother.unique hline)
      exact absurd rfl (hverb extent)
  | @command command _ hother =>
      obtain ⟨rfl, -⟩ := List.cons.inj (hother.unique hline)
      exact absurd rfl (hverb command.extent)

/-- **A line is found malformed** exactly if it has no shape, or a verb without a target. -/
theorem exists_parse_eq_malformed_iff {raw : String} :
    (∃ reason, parse raw = .error (.malformedCommand raw reason)) ↔
      (∀ words, IsLine raw words → words.length = 0 ∨ 2 < words.length) ∨
      ∃ (extent : Extent) (more : List String), IsLine raw (extent.verb :: more) ∧
        more.length ≤ 1 ∧ ∀ word ∈ more, ∀ path identifier, ¬ IsTarget word path identifier := by
  have hreading := reading_parse raw
  generalize parse raw = outcome at hreading ⊢
  cases hreading with
  | shapeless hnone => exact ⟨fun _ => .inl hnone, fun _ => ⟨_, rfl⟩⟩
  | untargeted hline hmore htarget =>
      exact ⟨fun _ => .inr ⟨_, _, hline, hmore, htarget⟩, fun _ => ⟨_, rfl⟩⟩
  | @unknown verb more hline hmore hverb =>
      refine ⟨nofun, ?_⟩
      rintro (hnone | ⟨extent, _, hother, -⟩)
      · have hlength := hnone _ hline
        simp only [List.length_cons] at hlength
        omega
      · obtain ⟨rfl, -⟩ := List.cons.inj (hline.unique hother)
        exact absurd rfl (hverb extent)
  | @command command word hline htarget =>
      refine ⟨nofun, ?_⟩
      rintro (hnone | ⟨extent, more, hother, -, hmore⟩)
      · have hlength := hnone _ hline
        simp only [List.length_cons, List.length_nil] at hlength
        omega
      · obtain ⟨-, rfl⟩ := List.cons.inj (hline.unique hother)
        exact absurd htarget (hmore word (by simp) _ _)

/-! ## Writing -/

/-- A command that can be written down: its path and its identifier are words, and the path can be
told from what follows it. -/
structure IsWritable (command : Command) : Prop where
  /-- The path is not empty and has no blanks. -/
  path_isWord : Text.IsWord command.path.toList
  /-- The identifier is not empty and has no blanks. -/
  identifier_isWord : Text.IsWord command.identifier.toList
  /-- The path has no `::` in it. -/
  no_separator : ¬ [':', ':'] <:+: command.path.toList
  /-- The path does not end in a colon. -/
  no_colon : command.path.toList.getLast? ≠ some ':'

/-- A command written down with blanks before the `@`, after it, between the verb and the target,
and after the target. -/
def written (before gap between after : List Char) (command : Command) : String :=
  String.ofList (before ++ '@' :: (gap ++ command.extent.verb.toList ++
    (between ++ (command.path ++ "::" ++ command.identifier).toList ++ after)))

/-- A verb is a word. -/
theorem isWord_verb (extent : Extent) : Text.IsWord extent.verb.toList := by
  cases extent with
  | signature => decide +kernel
  | definition => decide +kernel

/-- **A command can be read back however it is written**, as long as there is a blank between its
verb and its target. -/
theorem parse_written {command : Command} (h : command.IsWritable)
    {before gap between after : List Char} (hbefore : Text.allBlank before = true)
    (hgap : Text.allBlank gap = true) (hbetween : Text.allBlank between = true)
    (hafter : Text.allBlank after = true) (hne : between ≠ []) :
    parse (command.written before gap between after) = .ok command := by
  have hword : Text.IsWord (command.path ++ "::" ++ command.identifier).toList := by
    have hseparator : "::".toList = [':', ':'] := rfl
    have hcolons : Text.IsWord [':', ':'] := by decide +kernel
    rw [String.toList_append, String.toList_append, hseparator]
    refine ⟨by simp, ?_⟩
    simp only [List.forall_mem_append]
    exact ⟨⟨h.path_isWord.2, hcolons.2⟩, h.identifier_isWord.2⟩
  have hblank : ∀ rest : List Char, ∀ c ∈ (between ++ rest).head?, Text.isBlank c = true := by
    intro rest c hc
    obtain ⟨d, ds, rfl⟩ := List.exists_cons_of_ne_nil hne
    obtain rfl : d = c := by simpa using hc
    exact (Bool.and_eq_true_iff.1 hbetween).1
  have hend : ∀ c ∈ after.head?, Text.isBlank c = true :=
    fun c hc => List.all_eq_true.1 hafter c (List.mem_of_mem_head? hc)
  have hline : IsLine (command.written before gap between after)
      [command.extent.verb, command.path ++ "::" ++ command.identifier] := by
    refine ⟨before, _, String.toList_ofList, hbefore, ?_⟩
    refine .cons hgap (isWord_verb command.extent) ?_ (.cons hbetween hword hend (.nil hafter))
    rw [List.append_assoc]
    exact hblank _
  refine parse_of_isTarget hline (isTarget_append ?_ ?_ h.no_separator h.no_colon)
  · simpa using h.path_isWord.1
  · simpa using h.identifier_isWord.1

/-! ## The grammar -/

/-- **Reading accepts exactly the grammar of commands, and tells what is wrong with any other
line.**  A line of a verb and a target is the command of these two.  Of other lines, one whose first
of one or two words is no verb has an unknown command, and all that are left are malformed: those
without an `@` or with no word or more than two, whatever their verb, and those without a target.
So every command can be read back however it is written. -/
theorem parse_grammar (raw : String) :
    (∀ command, parse raw = .ok command ↔ ∃ word, IsLine raw [command.extent.verb, word] ∧
      IsTarget word command.path command.identifier) ∧
    (∀ verb, parse raw = .error (.unknownCommand verb) ↔
      ∃ more : List String, IsLine raw (verb :: more) ∧ more.length ≤ 1 ∧
        ∀ extent : Extent, verb ≠ extent.verb) ∧
    ((∃ reason, parse raw = .error (.malformedCommand raw reason)) ↔
      (∀ words, IsLine raw words → words.length = 0 ∨ 2 < words.length) ∨
      ∃ (extent : Extent) (more : List String), IsLine raw (extent.verb :: more) ∧
        more.length ≤ 1 ∧ ∀ word ∈ more, ∀ path identifier, ¬ IsTarget word path identifier) ∧
    ∀ (command : Command) (before gap between after : List Char), command.IsWritable →
      Text.allBlank (before ++ gap ++ between ++ after) = true → between ≠ [] →
      raw = command.written before gap between after → parse raw = .ok command := by
  refine ⟨fun command => ⟨fun h => ?_, ?_⟩, fun verb => ⟨fun h => ?_, ?_⟩,
    exists_parse_eq_malformed_iff, ?_⟩
  · have hreading := reading_parse raw
    rw [h] at hreading
    cases hreading with
    | command hline htarget => exact ⟨_, hline, htarget⟩
  · rintro ⟨word, hline, htarget⟩
    exact parse_of_isTarget hline htarget
  · have hreading := reading_parse raw
    rw [h] at hreading
    cases hreading with
    | unknown hline hmore hverb => exact ⟨_, hline, hmore, hverb⟩
  · rintro ⟨more, hline, hmore, hverb⟩
    exact parse_of_not_verb hline hmore hverb
  · rintro command before gap between after hwritable hblank hne rfl
    simp only [Text.allBlank_append, Bool.and_eq_true] at hblank
    obtain ⟨⟨⟨hbefore, hgap⟩, hbetween⟩, hafter⟩ := hblank
    exact parse_written hwritable hbefore hgap hbetween hafter hne

/-- The grammar at a line with blanks everywhere, and a target with colons in a row. -/
theorem parse_grammar_colons :
    parse "\t@ decl\u3000~.a:::b " = .ok ⟨.signature, "~.a", ":b"⟩ :=
  (parse_grammar _).2.2.2 ⟨.signature, "~.a", ":b"⟩ ['\t'] [' '] ['\u3000'] [' ']
    ⟨by decide +kernel, by decide +kernel, by decide +kernel, by decide +kernel⟩
    (by decide +kernel) (by decide) (by decide +kernel)

end Command

end LiveExcerpts
