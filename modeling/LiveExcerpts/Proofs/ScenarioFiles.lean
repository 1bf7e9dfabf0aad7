import LiveExcerpts.Scenario
import LiveExcerpts.Proofs.Texts.LineEnds
/-!
# Scenario files

How a scenario is written down in a file, and that it is read from there.  Blanks around the root
and the URL, slashes behind the URL, blank lines above the body and the kind of the line ends are
free to choose, and nothing of that is read; the lines of the body are read as they stand.  A file
cannot be read exactly if one of its first two lines says nothing.

Main definitions: `Scenario.IsWritable`, `Scenario.Layout`.  Main statement:
`Scenario.parse_written_or_refused`.
-/

namespace LiveExcerpts

/-! ## Writing scenarios down -/

/-- Blanks that can stand on a line. -/
structure Text.Gap where
  /-- The blanks. -/
  cs : List Char
  /-- There is nothing but blanks. -/
  blank : allBlank cs = true
  /-- There is no line feed. -/
  one_line : '\n' ∉ cs

/-- The text can be told from the blanks around it on a line. -/
structure Text.IsEntry (cs : List Char) : Prop where
  /-- It is not empty. -/
  ne_nil : cs ≠ []
  /-- It has no line feed. -/
  one_line : '\n' ∉ cs
  /-- It does not begin with a blank. -/
  first : ∀ c ∈ cs.head?, isBlank c = false
  /-- It does not end with a blank. -/
  last : ∀ c ∈ cs.getLast?, isBlank c = false

namespace Scenario

/-- A file can say what the scenario says. -/
structure IsWritable (scenario : Scenario) : Prop where
  /-- The root can stand on the first line. -/
  root : Text.IsEntry scenario.root.text.toList
  /-- The URL can stand on the second line. -/
  url : Text.IsEntry scenario.url.toList
  /-- The URL does not end in a slash. -/
  url_end : scenario.url.toList.getLast? ≠ some '/'
  /-- Each string of the body is a line. -/
  one_line : ∀ line ∈ scenario.body, '\n' ∉ line.toList
  /-- None of the lines ends in a carriage return. -/
  line_end : ∀ line ∈ scenario.body, line.toList.getLast? ≠ some '\r'
  /-- The first line of the body is not blank. -/
  first : ∀ line ∈ scenario.body.head?, Text.allBlank line.toList = false

/-- What is free to choose in the lines of a scenario's file. -/
structure Layout where
  /-- The blanks before the root. -/
  beforeRoot : Text.Gap
  /-- The blanks after the root. -/
  afterRoot : Text.Gap
  /-- The blanks before the URL. -/
  beforeUrl : Text.Gap
  /-- The number of slashes after the URL. -/
  slashes : Nat
  /-- The blanks after the URL and the slashes. -/
  afterUrl : Text.Gap
  /-- The blank lines above the body. -/
  above : List Text.Gap

/-- The lines of a scenario's file. -/
def Layout.lines (layout : Layout) (scenario : Scenario) : List (List Char) :=
  (layout.beforeRoot.cs ++ scenario.root.text.toList ++ layout.afterRoot.cs) ::
  (layout.beforeUrl.cs ++ (scenario.url.toList ++ List.replicate layout.slashes '/') ++
    layout.afterUrl.cs) ::
  (layout.above.map Text.Gap.cs ++ scenario.body.map String.toList)

/-- The line is missing or blank. -/
def SaysNothing (line : Option (List Char)) : Prop := ∀ cs ∈ line, Text.allBlank cs = true

end Scenario

/-! ## Reading entries -/

namespace Text

/-- A text is an entry if its first and its last character are not blank. -/
theorem isEntry_of_ends {cs : List Char} (honeLine : '\n' ∉ cs) {c d : Char}
    (hfirst : cs.head? = some c) (hc : isBlank c = false) (hlast : cs.getLast? = some d)
    (hd : isBlank d = false) : IsEntry cs where
  ne_nil := by
    rintro rfl
    cases hfirst
  one_line := honeLine
  first := by
    intro c' hc'
    obtain rfl := Option.some.inj (hfirst.symm.trans hc')
    exact hc
  last := by
    intro d' hd'
    obtain rfl := Option.some.inj (hlast.symm.trans hd')
    exact hd

/-- There is nothing to trim of an entry. -/
theorem IsEntry.trim_eq {cs : List Char} (h : IsEntry cs) : trim cs = cs := by
  have hlast : ∀ c ∈ cs.reverse.head?, isBlank c = false := by
    rw [List.head?_reverse]
    exact h.last
  unfold trim trimEnd trimStart
  rw [dropWhile_of_head? h.first, dropWhile_of_head? hlast, List.reverse_reverse]

/-- An entry is read without the blanks around it. -/
theorem IsEntry.trim_read {cs read : List Char} (h : IsEntry cs) {before after : Gap}
    (hread : ReadAs (before.cs ++ cs ++ after.cs) read) : trim read = cs := by
  rw [hread.trim, trim_append_of_blank before.blank after.blank, h.trim_eq]

end Text

theorem trimSlashes_append {url : List Char} (h : url.getLast? ≠ some '/') (n : Nat) :
    trimSlashes (url ++ List.replicate n '/') = url := by
  have hlast : ∀ c ∈ url.reverse.head?, (c == '/') = false := by
    rw [List.head?_reverse]
    intro c hc
    rw [beq_eq_false_iff_ne]
    rintro rfl
    exact h hc
  unfold trimSlashes
  rw [List.reverse_append, List.dropWhile_append_of_pos, Text.dropWhile_of_head? hlast,
    List.reverse_reverse]
  intro c hc
  rw [List.reverse_replicate] at hc
  rw [List.eq_of_mem_replicate hc]
  rfl

/-- A URL with slashes behind it is an entry. -/
theorem Text.IsEntry.append_slashes {url : List Char} (h : IsEntry url) (n : Nat) :
    IsEntry (url ++ List.replicate n '/') := by
  refine ⟨by simp [h.ne_nil], ?_, fun c hc => ?_, fun c hc => ?_⟩
  · rw [List.mem_append, not_or]
    exact ⟨h.one_line, fun hmem => absurd (List.eq_of_mem_replicate hmem) (by decide)⟩
  · rw [List.head?_append_of_ne_nil _ h.ne_nil] at hc
    exact h.first c hc
  · rw [List.getLast?_append, List.getLast?_replicate] at hc
    split at hc
    · exact h.last c hc
    · obtain rfl := Option.some.inj hc
      rfl

namespace Scenario

/-! ## Header lines -/

theorem headerLine?_of_isEntry {cs read : List Char} (h : Text.IsEntry cs)
    (hread : Text.trim read = cs) : headerLine? (some read) = some cs := by
  unfold headerLine?
  rw [Option.map_some, hread, Option.filter_some, if_pos]
  simpa using h.ne_nil

theorem headerLine?_eq_none_iff {line : Option (List Char)} :
    headerLine? line = none ↔ SaysNothing line := by
  unfold headerLine? SaysNothing
  cases line with
  | none => simp
  | some cs => simp [Text.trim_eq_nil_iff]

/-- A line says nothing exactly if nothing is read there. -/
theorem saysNothing_getElem?_iff {ls read : List (List Char)} (h : List.Forall₂ Text.ReadAs ls read)
    (i : Nat) : SaysNothing read[i]? ↔ SaysNothing ls[i]? := by
  induction h generalizing i with
  | nil => rfl
  | cons hread _ ih =>
      cases i with
      | zero => simp [SaysNothing, hread.allBlank]
      | succ i => simpa using ih i

/-- **A file cannot be read** exactly if its first line says nothing, or its second. -/
theorem parse_eq_error_iff {path : Path} {content : String} {ls : List (List Char)} {e : Error}
    (h : Text.IsLined ls content.toList) : parse path content = .error e ↔
      SaysNothing ls[0]? ∧
        e = .malformedScenario path "first line must name the source root" ∨
      ¬ SaysNothing ls[0]? ∧ SaysNothing ls[1]? ∧
        e = .malformedScenario path "second line must be the base link URL" := by
  have hfirst := saysNothing_getElem?_iff h.lines 0
  have hsecond := saysNothing_getElem?_iff h.lines 1
  rw [← headerLine?_eq_none_iff] at hfirst hsecond
  rw [← hfirst, ← hsecond]
  unfold parse
  dsimp only
  cases headerLine? (Text.lines content.toList)[0]? with
  | none => simp [eq_comm]
  | some root =>
      cases headerLine? (Text.lines content.toList)[1]? with
      | none => simp [eq_comm]
      | some url => simp

theorem exists_parse_eq_error_iff {path : Path} {content : String} {ls : List (List Char)}
    (h : Text.IsLined ls content.toList) :
    (∃ e, parse path content = .error e) ↔ SaysNothing ls[0]? ∨ SaysNothing ls[1]? := by
  simp only [parse_eq_error_iff h]
  constructor
  · rintro ⟨e, ⟨hfirst, -⟩ | ⟨-, hsecond, -⟩⟩
    · exact .inl hfirst
    · exact .inr hsecond
  · intro hnothing
    by_cases hfirst : SaysNothing ls[0]?
    · exact ⟨_, .inl ⟨hfirst, rfl⟩⟩
    · exact ⟨_, .inr ⟨hfirst, hnothing.resolve_left hfirst, rfl⟩⟩

/-! ## The body -/

/-- Of blank lines and a body the body is read. -/
theorem dropWhile_allBlank_of_readAs {above body read : List (List Char)}
    (h : List.Forall₂ Text.ReadAs (above ++ body) read)
    (habove : ∀ line ∈ above, Text.allBlank line = true)
    (hend : ∀ line ∈ body, line.getLast? ≠ some '\r')
    (hfirst : ∀ line ∈ body.head?, Text.allBlank line = false) :
    read.dropWhile Text.allBlank = body := by
  induction above generalizing read with
  | nil =>
      rw [Text.eq_of_readAs h hend]
      exact Text.dropWhile_of_head? hfirst
  | cons line above ih =>
      obtain ⟨hline, habove⟩ := List.forall_mem_cons.1 habove
      cases h with
      | cons hread hrest =>
          rw [List.dropWhile_cons_of_pos (hread.allBlank.trans hline)]
          exact ih hrest habove

/-- Below the blank lines the body is read as it is. -/
theorem IsWritable.dropWhile_allBlank {scenario : Scenario} (h : scenario.IsWritable)
    {above : List Text.Gap} {read : List (List Char)}
    (hread : List.Forall₂ Text.ReadAs (above.map Text.Gap.cs ++ scenario.body.map String.toList)
      read) : read.dropWhile Text.allBlank = scenario.body.map String.toList := by
  refine dropWhile_allBlank_of_readAs hread (List.forall_mem_map.2 fun gap _ => gap.blank)
    (List.forall_mem_map.2 h.line_end) ?_
  rw [List.head?_map]
  intro line hline
  obtain ⟨text, htext, rfl⟩ := Option.map_eq_some_iff.1 hline
  exact h.first text htext

/-! ## Files -/

theorem Layout.not_mem_lines {scenario : Scenario} (h : scenario.IsWritable) (layout : Layout) :
    ∀ line ∈ layout.lines scenario, '\n' ∉ line := by
  have hgap : ∀ before after : Text.Gap, ∀ cs, Text.IsEntry cs →
      '\n' ∉ before.cs ++ cs ++ after.cs := by
    intro before after cs hcs
    simp only [List.mem_append, not_or]
    exact ⟨⟨before.one_line, hcs.one_line⟩, after.one_line⟩
  unfold lines
  simp only [List.forall_mem_cons, List.forall_mem_append, List.forall_mem_map]
  exact ⟨hgap _ _ _ h.root, hgap _ _ _ (h.url.append_slashes layout.slashes),
    fun gap _ => gap.one_line, h.one_line⟩

/-- **Scenarios are read from their files**, whatever their layout and their line ends. -/
theorem parse_of_isLined {scenario : Scenario} (h : scenario.IsWritable) {layout : Layout}
    {content : String} (hlined : Text.IsLined (layout.lines scenario) content.toList)
    (path : Path) : parse path content = .ok scenario := by
  have hread := hlined.lines
  unfold Layout.lines at hread
  unfold parse
  dsimp only
  generalize Text.lines content.toList = read at hread
  cases hread with
  | cons hroot hrest =>
      cases hrest with
      | cons hurl hbody =>
          have hentry := h.url.append_slashes layout.slashes
          rw [List.getElem?_cons_zero, List.getElem?_cons_succ, List.getElem?_cons_zero,
            headerLine?_of_isEntry h.root (h.root.trim_read hroot),
            headerLine?_of_isEntry hentry (hentry.trim_read hurl)]
          dsimp only
          rw [trimSlashes_append h.url_end, List.drop_succ_cons, List.drop_succ_cons,
            List.drop_zero, h.dropWhile_allBlank hbody]
          simp

/-- **Scenario files are read as they are written.**  What a scenario says can be written down in
every layout, and whichever line ends are taken, reading the file gives the scenario, whose lines
are those of its snippets.  A file is refused exactly if its first line or its second is missing or
blank, and then as malformed. -/
theorem parse_written_or_refused (path : Path) :
    (∀ scenario : Scenario, scenario.IsWritable → ∀ layout : Layout,
      (∃ content : String, Text.IsLined (layout.lines scenario) content.toList) ∧
      ∀ content : String, Text.IsLined (layout.lines scenario) content.toList →
        parse path content = .ok scenario ∧
        (Snippet.classify scenario.body).map Snippet.text = scenario.body) ∧
    ∀ content : String, (∃ ls, Text.IsLined ls content.toList) ∧
      ∀ ls, Text.IsLined ls content.toList →
        ((∃ e, parse path content = .error e) ↔ SaysNothing ls[0]? ∨ SaysNothing ls[1]?) ∧
        ∀ e, parse path content = .error e → ∃ reason, e = .malformedScenario path reason := by
  constructor
  · intro scenario h layout
    refine ⟨?_, fun content hlined =>
      ⟨parse_of_isLined h hlined path, Snippet.map_text_classify scenario.body⟩⟩
    exact ⟨.ofList _, by
      rw [String.toList_ofList]
      exact Text.isLined_flatMap (layout.not_mem_lines h)⟩
  · intro content
    refine ⟨Text.exists_isLined content.toList, fun ls hlined => ?_⟩
    refine ⟨exists_parse_eq_error_iff hlined, fun e he => ?_⟩
    rcases (parse_eq_error_iff hlined).1 he with ⟨-, rfl⟩ | ⟨-, -, rfl⟩
    · exact ⟨_, rfl⟩
    · exact ⟨_, rfl⟩

/-- A scenario with a blank line in its body. -/
def engineNotes : Scenario :=
  ⟨⟨"../engine"⟩, "https://example.com", ["First line", "", "@decl ~.lib::run"]⟩

/-- Blanks around the entries, two slashes, and two blank lines above the body. -/
def wideLayout : Layout where
  beforeRoot := ⟨['\t'], by decide, by decide⟩
  afterRoot := ⟨[' '], by decide, by decide⟩
  beforeUrl := ⟨[], by decide, by decide⟩
  slashes := 2
  afterUrl := ⟨[' '], by decide, by decide⟩
  above := [⟨[], by decide, by decide⟩, ⟨[' '], by decide, by decide⟩]

theorem isWritable_engineNotes : engineNotes.IsWritable where
  root := Text.isEntry_of_ends (c := '.') (d := 'e') (by decide +kernel) (by decide +kernel) rfl
    (by decide +kernel) rfl
  url := Text.isEntry_of_ends (c := 'h') (d := 'm') (by decide +kernel) (by decide +kernel) rfl
    (by decide +kernel) rfl
  url_end := by decide +kernel
  one_line := by decide +kernel
  line_end := by decide +kernel
  first := by
    rintro line ⟨rfl⟩
    decide +kernel

/-- A file with line ends of both kinds, and none at its end. -/
def engineFile : String :=
  "\t../engine \r\nhttps://example.com// \r\n\n \nFirst line\r\n\n@decl ~.lib::run"

theorem isLined_engineFile : Text.IsLined (wideLayout.lines engineNotes) engineFile.toList := by
  have hchars : engineFile.toList =
      "\t../engine ".toList ++ '\r' :: '\n' :: ("https://example.com// ".toList ++ '\r' :: '\n' ::
        ([] ++ '\n' :: ([' '] ++ '\n' :: ("First line".toList ++ '\r' :: '\n' ::
          ([] ++ '\n' :: "@decl ~.lib::run".toList))))) := by
    decide +kernel
  have hlines : wideLayout.lines engineNotes = ["\t../engine ".toList,
      "https://example.com// ".toList, [], [' '], "First line".toList, [],
      "@decl ~.lib::run".toList] := by
    decide +kernel
  rw [hchars, hlines]
  refine .returnFeed (by decide +kernel) ?_
  refine .returnFeed (by decide +kernel) ?_
  refine .feed (by decide +kernel) ?_
  refine .feed (by decide +kernel) ?_
  refine .returnFeed (by decide +kernel) ?_
  refine .feed (by decide +kernel) ?_
  exact .last (by decide +kernel) (by decide +kernel)

/-- A file with a blank second line is refused. -/
theorem parse_written_or_refused_engineNotes :
    engineNotes.IsWritable ∧
    Text.IsLined (wideLayout.lines engineNotes) engineFile.toList ∧
    parse ⟨"notes"⟩ engineFile = .ok engineNotes ∧
    Text.IsLined ["../engine".toList, [' '], ['x']] "../engine\n \r\nx".toList ∧
    ∃ e, parse ⟨"notes"⟩ "../engine\n \r\nx" = .error e := by
  obtain ⟨hwritten, hrefused⟩ := parse_written_or_refused ⟨"notes"⟩
  have hread := ((hwritten engineNotes isWritable_engineNotes wideLayout).2 _ isLined_engineFile).1
  have hchars : "../engine\n \r\nx".toList =
      "../engine".toList ++ '\n' :: ([' '] ++ '\r' :: '\n' :: ['x']) := by
    decide +kernel
  have hlined : Text.IsLined ["../engine".toList, [' '], ['x']] "../engine\n \r\nx".toList := by
    rw [hchars]
    refine .feed (by decide +kernel) ?_
    refine .returnFeed (by decide +kernel) ?_
    exact .last (by decide +kernel) (by decide +kernel)
  have hblank : SaysNothing (["../engine".toList, [' '], ['x']] : List (List Char))[1]? := by
    rintro cs ⟨rfl⟩
    decide
  exact ⟨isWritable_engineNotes, isLined_engineFile, hread, hlined,
    ((hrefused _).2 _ hlined).1.2 (.inr hblank)⟩

end Scenario

end LiveExcerpts
