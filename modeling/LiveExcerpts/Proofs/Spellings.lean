import LiveExcerpts.Proofs.Excerpts.Range
import LiveExcerpts.Proofs.Files.Plain
import LiveExcerpts.Proofs.Sharing
/-!
# How failures spell paths

An extractor keeps a source file by the steps of its path, and with it the spelling that it was
loaded by.  A command that comes to the file by another spelling is served from what is kept, and if
it fails, its failure names the file as the first spelling had it.

Main definitions: `Error.source?`, `Extractor.Turn`, `Extractor.FirstSpelling`.  Main statements:
what an extractor keeps after a history of commands is what the first of them to load a file has
loaded (`Extractor.find?_sources_after`), and failures spell paths accordingly
(`Extractor.spelled_as_loaded_first`).
-/

namespace LiveExcerpts

/-! ## Failures that name a source file -/

/-- The source file that a failure to cut something out of it names. -/
def Error.source? : Error → Option Path
  | .bodyNotFound file _ => some file
  | .declarationNotFound _ file _ => some file
  | .parseFailed file _ => some file
  | _ => none

/-- A command line that cannot be read names no source file. -/
theorem Command.source?_of_parse {raw : String} {e : Error} (h : Command.parse raw = .error e) :
    e.source? = none := by
  unfold Command.parse at h
  dsimp only at h
  split at h
  · split at h <;> (cases h; rfl)
  · split at h
    · cases h
      rfl
    · next word _ _ extent _ =>
        unfold Command.target at h
        split at h
        · cases h
          rfl
        · split at h
          · cases h
            rfl
          · cases h
  · cases h
    rfl

namespace SourceFile

variable {grammars : Grammars} {fs : FileSystem} {path : Path}

/-- A file keeps the spelling that it was loaded by. -/
theorem path_of_load {file : SourceFile} (h : load grammars fs path = .ok file) :
    file.path = path := by
  unfold load at h
  split at h
  · cases h
  · cases h
  · split at h
    · cases h
    · split at h
      · cases h
      · next source _ =>
          obtain ⟨language, -, hparsed⟩ := bind_eq_ok_iff.1 h
          split at hparsed
          · cases hparsed
            rfl
          · cases hparsed

/-- A failure to load a file spells its path as it was asked for. -/
theorem source?_of_load {e : Error} (h : load grammars fs path = .error e) {named : Path}
    (hnamed : e.source? = some named) : named = path := by
  unfold load at h
  split at h
  · cases h
    cases hnamed
  · cases h
    cases hnamed
  · split at h
    · cases h
      exact (Option.some.inj hnamed).symm
    · split at h
      · cases h
        cases hnamed
      · next source _ =>
          rcases bind_eq_error_iff.1 h with hlanguage | ⟨language, -, hparsed⟩
          · unfold Language.ofPath at hlanguage
            dsimp only at hlanguage
            split at hlanguage
            · cases hlanguage
            · cases hlanguage
              cases hnamed
          · split at hparsed
            · cases hparsed
            · cases hparsed
              exact (Option.some.inj hnamed).symm

theorem source?_of_declare {file : SourceFile} {binding : Binding} {e : Error}
    (h : file.declare binding = .error e) : e.source? = some file.path := by
  unfold declare at h
  dsimp only at h
  split at h
  · split at h <;> cases h
  · cases h
    rfl

/-- A failure to cut something out of a file names it by the spelling that it was loaded by. -/
theorem source?_of_cut {file : SourceFile} {identifier : String} {extent : Extent} {e : Error}
    (h : file.cut identifier extent = .error e) : e.source? = some file.path := by
  unfold cut at h
  rcases bind_eq_error_iff.1 h with hlocate | ⟨d, -, hrest⟩
  · unfold locate at hlocate
    split at hlocate
    · exact source?_of_declare hlocate
    · cases hlocate
      rfl
  · rcases bind_eq_error_iff.1 hrest with hrange | ⟨r, -, hcutting⟩
    · cases extent with
      | definition =>
          rw [Declaration.range_definition] at hrange
          cases hrange
      | signature =>
          rw [Declaration.range_signature_eq_error_iff,
            Declaration.signatureEnd_eq_error_iff] at hrange
          rw [hrange.1]
          rfl
    · cases hcutting

end SourceFile

namespace Extractor

variable {grammars : Grammars} {fs : FileSystem}

/-- A command that finds no file to look into names no source file. -/
theorem source?_of_target {settings : Settings} {scenario : Scenario} {raw : String} {e : Error}
    (h : target fs settings scenario raw = .error e) : e.source? = none := by
  unfold target at h
  rcases bind_eq_error_iff.1 h with hparse | ⟨command, -, hrest⟩
  · exact Command.source?_of_parse hparse
  · rcases bind_eq_error_iff.1 hrest with hresolve | ⟨location, -, hpair⟩
    · unfold Location.resolve at hresolve
      dsimp only at hresolve
      split at hresolve
      · cases hresolve
      · cases hresolve
        rfl
    · cases hpair

/-- What a cut comes to: the file is found or loaded, then the declaration is cut out of it. -/
theorem fst_cut (location : Location) (extent : Extent) (x : Extractor) :
    (x.cut grammars fs location extent).1 =
      (x.sourceOf grammars fs location.sourcePath >>= fun file =>
        file.cut location.identifier extent) := by
  rw [cut_eq]
  cases x.sourceOf grammars fs location.sourcePath <;> rfl

/-- Where something is cut out it can be parted. -/
theorem fst_excerpt_eq_error_iff {location : Location} {extent : Extent} {x : Extractor}
    {cause : Error} : (x.excerpt grammars fs location extent).1 = .error cause ↔
      (x.cut grammars fs location extent).1 = .error cause := by
  rw [excerpt_eq]
  rcases x.cut grammars fs location extent with ⟨e | cutting, y⟩
  · simp
  · simp

/-- **Why commands fail**: there is nothing to look into, or nothing to be cut out of it. -/
theorem carryOut_eq_error_iff {scenario : Scenario} {raw : String} {x : Extractor} {cause : Error} :
    (x.carryOut grammars fs scenario raw).1 = .error (.commandFailed raw cause) ↔
      target fs x.settings scenario raw = .error cause ∨
      ∃ location extent, target fs x.settings scenario raw = .ok (location, extent) ∧
        (x.cut grammars fs location extent).1 = .error cause := by
  have hcause : ∀ result : Except Error (List String),
      result.mapError (Error.commandFailed raw) = .error (.commandFailed raw cause) ↔
        result = .error cause := by
    intro result
    cases result <;> simp [Except.mapError]
  rw [carryOut_eq]
  cases target fs x.settings scenario raw with
  | error e => simp
  | ok found =>
      obtain ⟨location, extent⟩ := found
      dsimp only
      rw [hcause, fst_excerpt_eq_error_iff]
      simp

/-- The spelling by which an extractor names the file at a path: the one that it keeps the file
under, if it does. -/
def spellingOf (path : Path) (x : Extractor) : Path :=
  (x.sources.find? path.components).elim path SourceFile.path

/-- **A failure names a file by the spelling that the extractor keeps it under**, and spells it as
the command does if it is not kept. -/
theorem eq_spellingOf_of_carryOut {scenario : Scenario} {raw : String} {x : Extractor}
    {cause : Error} {named : Path}
    (h : (x.carryOut grammars fs scenario raw).1 = .error (.commandFailed raw cause))
    (hnamed : cause.source? = some named) :
    ∃ location extent, target fs x.settings scenario raw = .ok (location, extent) ∧
      named = x.spellingOf location.sourcePath := by
  rcases carryOut_eq_error_iff.1 h with htarget | ⟨location, extent, htarget, hcut⟩
  · rw [source?_of_target htarget] at hnamed
    cases hnamed
  · refine ⟨location, extent, htarget, ?_⟩
    rw [fst_cut] at hcut
    unfold sourceOf at hcut
    unfold spellingOf
    cases hkept : x.sources.find? location.sourcePath.components with
    | none =>
        rw [hkept, Option.elim_none] at hcut
        rcases bind_eq_error_iff.1 hcut with hload | ⟨file, hload, hfails⟩
        · exact SourceFile.source?_of_load hload hnamed
        · have hsource := hnamed.symm.trans (SourceFile.source?_of_cut hfails)
          exact (Option.some.inj hsource).trans (SourceFile.path_of_load hload)
    | some file =>
        rw [hkept, Option.elim_some] at hcut
        exact Option.some.inj (hnamed.symm.trans (SourceFile.source?_of_cut hcut))

/-! ## What is kept after a history -/

/-- A command line of a scenario, with the files as they are when it is carried out. -/
structure Turn where
  /-- The files. -/
  files : FileSystem
  /-- The scenario. -/
  scenario : Scenario
  /-- The command line. -/
  line : String

/-- Carries out the command line. -/
def Turn.carryOut (grammars : Grammars) (turn : Turn) (x : Extractor) : Answer (List String) :=
  x.carryOut grammars turn.files turn.scenario turn.line

/-- A new extractor after it has carried out command lines, one after the other. -/
def after (grammars : Grammars) (settings : Settings) (turns : List Turn) : Extractor :=
  turns.foldl (fun x turn => (turn.carryOut grammars x).2) { settings }

/-- The file that a command line loads for the steps of a path, if nothing is kept for them. -/
def Turn.loaded? (grammars : Grammars) (settings : Settings) (turn : Turn)
    (steps : List Path.Component) : Option SourceFile :=
  match target turn.files settings turn.scenario turn.line with
  | .error _ => none
  | .ok (location, _) =>
    if location.sourcePath.components = steps then
      (SourceFile.load grammars turn.files location.sourcePath).toOption
    else none

theorem settings_carryOut (turn : Turn) (x : Extractor) :
    (turn.carryOut grammars x).2.settings = x.settings := by
  have hsame : (turn.carryOut grammars x).2.SameAs grammars turn.files x :=
    sameAs_carryOut turn.scenario turn.line x
  exact hsame.settings

theorem find?_sources_cut (location : Location) (extent : Extent) (x : Extractor)
    (steps : List Path.Component) :
    (x.cut grammars fs location extent).2.sources.find? steps =
      (x.sources.find? steps).or (if location.sourcePath.components = steps then
        (SourceFile.load grammars fs location.sourcePath).toOption else none) := by
  rw [cut_eq]
  unfold sourceOf
  by_cases hsteps : location.sourcePath.components = steps
  · rw [if_pos hsteps, hsteps]
    cases hkept : x.sources.find? steps with
    | some file => exact Cache.find?_put_self _ _ _
    | none =>
        rw [Option.elim_none, Option.none_or]
        cases SourceFile.load grammars fs location.sourcePath with
        | error e => exact hkept
        | ok file => exact Cache.find?_put_self _ _ _
  · rw [if_neg hsteps, Option.or_none]
    split
    · rfl
    · exact Cache.find?_put_of_ne (Ne.symm hsteps) _ _

/-- **What a command line changes in what is kept**: it adds the file that it loads, where nothing
is kept yet. -/
theorem find?_sources_carryOut (turn : Turn) (x : Extractor) (steps : List Path.Component) :
    (turn.carryOut grammars x).2.sources.find? steps =
      (x.sources.find? steps).or (turn.loaded? grammars x.settings steps) := by
  unfold Turn.carryOut Turn.loaded?
  rw [carryOut_eq]
  cases target turn.files x.settings turn.scenario turn.line with
  | error e => exact Option.or_none.symm
  | ok found =>
      obtain ⟨location, extent⟩ := found
      dsimp only
      rw [← find?_sources_cut location extent, excerpt_eq]
      rcases x.cut grammars turn.files location extent with ⟨e | cutting, y⟩
      · rfl
      · obtain ⟨reader, -, hsegments⟩ := y.exists_segments_eq cutting.text
        dsimp only
        rw [hsegments]

theorem settings_foldl_carryOut (turns : List Turn) (x : Extractor) :
    (turns.foldl (fun x turn => (turn.carryOut grammars x).2) x).settings = x.settings := by
  induction turns generalizing x with
  | nil => rfl
  | cons turn rest ih => exact (ih _).trans (settings_carryOut turn x)

theorem find?_sources_foldl_carryOut (turns : List Turn) (x : Extractor)
    (steps : List Path.Component) :
    (turns.foldl (fun x turn => (turn.carryOut grammars x).2) x).sources.find? steps =
      (x.sources.find? steps).or
        (turns.findSome? fun turn => turn.loaded? grammars x.settings steps) := by
  induction turns generalizing x with
  | nil => exact Option.or_none.symm
  | cons turn rest ih =>
      rw [List.foldl_cons, ih, find?_sources_carryOut, settings_carryOut, Option.or_assoc,
        List.findSome?_cons]
      cases turn.loaded? grammars x.settings steps <;> rfl

theorem settings_after (settings : Settings) (turns : List Turn) :
    (after grammars settings turns).settings = settings := settings_foldl_carryOut turns _

/-- **What is kept after a history** is what the first command line to load it has loaded. -/
theorem find?_sources_after (settings : Settings) (turns : List Turn)
    (steps : List Path.Component) :
    (after grammars settings turns).sources.find? steps =
      turns.findSome? fun turn => turn.loaded? grammars settings steps :=
  find?_sources_foldl_carryOut turns { settings } steps

/-! ## First spellings -/

/-- The command line looks into a file, which it spells as `path`, and the file can be loaded. -/
def Turn.Loads (grammars : Grammars) (settings : Settings) (turn : Turn) (path : Path) : Prop :=
  ∃ location extent file,
    target turn.files settings turn.scenario turn.line = .ok (location, extent) ∧
    location.sourcePath = path ∧ SourceFile.load grammars turn.files path = .ok file

/-- `path` is how the first command line that loads the file at `own` spells it. -/
def FirstSpelling (grammars : Grammars) (settings : Settings) (turns : List Turn)
    (own path : Path) : Prop :=
  ∃ before first later, turns = before ++ first :: later ∧
    first.Loads grammars settings path ∧ path.SameAs own ∧
    ∀ earlier ∈ before, ∀ other, earlier.Loads grammars settings other → ¬ other.SameAs own

variable {settings : Settings}

theorem Turn.loads_iff {turn : Turn} {path own : Path} :
    (turn.Loads grammars settings path ∧ path.SameAs own) ↔
      ∃ file, turn.loaded? grammars settings own.components = some file ∧ file.path = path := by
  unfold Turn.Loads Turn.loaded?
  cases target turn.files settings turn.scenario turn.line with
  | error e => simp
  | ok found =>
      obtain ⟨location, extent⟩ := found
      dsimp only
      constructor
      · rintro ⟨⟨location', extent', file, hfound, rfl, hload⟩, hsame⟩
        obtain ⟨rfl, rfl⟩ := Prod.mk.inj (Except.ok.inj hfound)
        refine ⟨file, ?_, SourceFile.path_of_load hload⟩
        have hsteps : location.sourcePath.components = own.components := hsame
        rw [if_pos hsteps, hload]
        rfl
      · rintro ⟨file, hloaded, rfl⟩
        split at hloaded
        · next hsame =>
            have hload := eq_ok_of_toOption hloaded
            have hpath := SourceFile.path_of_load hload
            exact ⟨⟨location, extent, file, rfl, hpath.symm, hpath ▸ hload⟩, hpath ▸ hsame⟩
        · cases hloaded

/-- The first spelling of a file is the one that it is kept under. -/
theorem firstSpelling_iff {turns : List Turn} {own path : Path} :
    FirstSpelling grammars settings turns own path ↔
      ∃ file, (after grammars settings turns).sources.find? own.components = some file ∧
        file.path = path := by
  rw [find?_sources_after]
  have hnone : ∀ turn : Turn,
      (∀ other, turn.Loads grammars settings other → ¬ other.SameAs own) ↔
        turn.loaded? grammars settings own.components = none := by
    intro turn
    rw [Option.eq_none_iff_forall_ne_some]
    constructor
    · intro h file hloaded
      obtain ⟨hloads, hsame⟩ := Turn.loads_iff.2 ⟨file, hloaded, rfl⟩
      exact h _ hloads hsame
    · intro h other hloads hsame
      obtain ⟨file, hloaded, -⟩ := Turn.loads_iff.1 ⟨hloads, hsame⟩
      exact h file hloaded
  constructor
  · rintro ⟨before, first, later, hturns, hloads, hsame, hbefore⟩
    obtain ⟨file, hloaded, hpath⟩ := Turn.loads_iff.1 ⟨hloads, hsame⟩
    exact ⟨file, List.findSome?_eq_some_iff.2 ⟨before, first, later, hturns, hloaded,
      fun turn hturn => (hnone turn).1 (hbefore turn hturn)⟩, hpath⟩
  · rintro ⟨file, hfind, hpath⟩
    obtain ⟨before, first, later, hturns, hloaded, hbefore⟩ := List.findSome?_eq_some_iff.1 hfind
    obtain ⟨hloads, hsame⟩ := Turn.loads_iff.2 ⟨file, hloaded, hpath⟩
    exact ⟨before, first, later, hturns, hloads, hsame,
      fun turn hturn => (hnone turn).2 (hbefore turn hturn)⟩

theorem FirstSpelling.sameAs {turns : List Turn} {own path : Path}
    (h : FirstSpelling grammars settings turns own path) : path.SameAs own := by
  obtain ⟨-, -, -, -, -, hsame, -⟩ := h
  exact hsame

/-- A file that the history has loaded is named by its first spelling. -/
theorem FirstSpelling.spellingOf_eq {turns : List Turn} {own path : Path}
    (h : FirstSpelling grammars settings turns own path) :
    (after grammars settings turns).spellingOf own = path := by
  obtain ⟨file, hkept, rfl⟩ := firstSpelling_iff.1 h
  unfold spellingOf
  rw [hkept]
  rfl

/-- A file that the history has not loaded is named as it is asked for. -/
theorem spellingOf_of_not_firstSpelling {turns : List Turn} {own : Path}
    (h : ∀ path, ¬ FirstSpelling grammars settings turns own path) :
    (after grammars settings turns).spellingOf own = own := by
  unfold spellingOf
  cases hkept : (after grammars settings turns).sources.find? own.components with
  | none => rfl
  | some file => exact absurd (firstSpelling_iff.2 ⟨file, hkept, rfl⟩) (h file.path)

/-- **Failures spell a file as the command line that loaded it first.**  After any history, a
failure of a command that names a source file names the one that the command looks into.  The
spelling is that of the first command line of the history to load the file, and so it is the
command's own exactly if there was none such, or it was spelled in the same way there. -/
theorem spelled_as_loaded_first {turns : List Turn} {turn : Turn} {cause : Error} {file : Path}
    (h : (turn.carryOut grammars (after grammars settings turns)).1 =
      .error (.commandFailed turn.line cause))
    (hfile : cause.source? = some file) :
    ∃ location extent,
      target turn.files settings turn.scenario turn.line = .ok (location, extent) ∧
      file.SameAs location.sourcePath ∧
      (∀ path, FirstSpelling grammars settings turns location.sourcePath path → file = path) ∧
      (file = location.sourcePath ↔
        ∀ path, FirstSpelling grammars settings turns location.sourcePath path →
          path = location.sourcePath) := by
  obtain ⟨location, extent, htarget, rfl⟩ := eq_spellingOf_of_carryOut h hfile
  rw [settings_after] at htarget
  refine ⟨location, extent, htarget, ?_⟩
  by_cases hloaded : ∃ path, FirstSpelling grammars settings turns location.sourcePath path
  · obtain ⟨first, hfirst⟩ := hloaded
    refine ⟨?_, fun path hpath => hpath.spellingOf_eq, ?_⟩
    · rw [hfirst.spellingOf_eq]
      exact hfirst.sameAs
    · constructor
      · intro hown path hpath
        exact hpath.spellingOf_eq.symm.trans hown
      · intro hall
        exact hfirst.spellingOf_eq.trans (hall first hfirst)
  · have hnone := not_exists.1 hloaded
    rw [spellingOf_of_not_firstSpelling hnone]
    exact ⟨.refl _, fun path hpath => absurd hpath (hnone path),
      iff_of_true rfl fun path hpath => absurd hpath (hnone path)⟩

/-! ### Two spellings of one file -/

/-- A source tree with one file, which declares nothing. -/
def bareTree : FileSystem :=
  ⟨[(["r"], .directory), (["r", "src"], .directory),
    (["r", "src", "lib.rs"], .file (.text ""))], []⟩

/-- The parsers of empty files. -/
def bareGrammars : Grammars := fun _ _ => .ok ⟨"source_file", true, none, 0, 0, []⟩

/-- A command line about the source tree. -/
def bareTurn (line : String) : Turn := ⟨bareTree, ⟨⟨"r"⟩, "u", []⟩, line⟩

theorem isPlain_bareTree : bareTree.IsPlain := by
  apply FileSystem.isPlain_of_entries rfl
  intro place entry hmem
  simp only [bareTree, List.mem_cons, List.not_mem_nil, or_false, Prod.mk.injEq] at hmem
  rcases hmem with ⟨rfl, rfl⟩ | ⟨rfl, rfl⟩ | ⟨rfl, rfl⟩ <;> exact ⟨rfl, nofun⟩

theorem target_bareTurn {line : String} (command : Command) {location : Location}
    (hparse : Command.parse line = .ok command)
    (hlocation : location = Location.ofCommand .default ⟨"r"⟩ "u" command)
    (hpasses : bareTree.Passes location.sourcePath)
    (hfile : bareTree.lookup? (bareTree.placeOf location.sourcePath) = some (.file (.text ""))) :
    target (bareTurn line).files .default (bareTurn line).scenario (bareTurn line).line =
      .ok (location, command.extent) := by
  have hstat := FileSystem.isFile_iff.2 ⟨_, isPlain_bareTree.stat_eq_ok_iff.2 ⟨hpasses, hfile⟩⟩
  have hresolve := Location.resolve_eq_ok_iff.2 ⟨hlocation, hstat⟩
  exact bind_eq_ok_iff.2 ⟨command, hparse, bind_eq_ok_iff.2 ⟨location, hresolve, rfl⟩⟩

/-- One dot after the home directory. -/
theorem target_one_dot : target bareTree .default ⟨⟨"r"⟩, "u", []⟩ "@decl ~.lib::b" =
    .ok (⟨⟨"r"⟩, ⟨"src/lib.rs"⟩, "b", "u"⟩, .signature) :=
  target_bareTurn ⟨.signature, "~.lib", "b"⟩ (by decide +kernel) (by decide +kernel)
    (by decide +kernel) (by decide +kernel)

/-- Two dots, and so two slashes. -/
theorem target_two_dots : target bareTree .default ⟨⟨"r"⟩, "u", []⟩ "@decl ~..lib::b" =
    .ok (⟨⟨"r"⟩, ⟨"src//lib.rs"⟩, "b", "u"⟩, .signature) :=
  target_bareTurn ⟨.signature, "~..lib", "b"⟩ (by decide +kernel) (by decide +kernel)
    (by decide +kernel) (by decide +kernel)

/-- The file as it is loaded by the spelling with one slash. -/
def bareFile : SourceFile :=
  .ofTree ⟨"r/src/lib.rs"⟩ .rust "" ⟨"source_file", true, none, 0, 0, []⟩

theorem loaded?_one_dot :
    (bareTurn "@decl ~.lib::b").loaded? bareGrammars .default (Path.mk "r/src//lib.rs").components =
      some bareFile := by
  have hstat : bareTree.stat ⟨"r/src/lib.rs"⟩ = .ok (.file (.text "")) :=
    isPlain_bareTree.stat_eq_ok_iff.2 (by decide +kernel)
  have hload : SourceFile.load bareGrammars bareTree ⟨"r/src/lib.rs"⟩ = .ok bareFile := by
    unfold SourceFile.load FileSystem.size FileSystem.readText
    rw [hstat]
    rfl
  have hpath : (Location.mk ⟨"r"⟩ ⟨"src/lib.rs"⟩ "b" "u").sourcePath = ⟨"r/src/lib.rs"⟩ := by
    decide +kernel
  unfold Turn.loaded? bareTurn
  rw [target_one_dot]
  dsimp only
  rw [hpath, if_pos (by decide +kernel), hload]
  rfl

/-- The command with two dots fails with the path of the one with one dot. -/
theorem carryOut_two_dots :
    ((bareTurn "@decl ~..lib::b").carryOut bareGrammars
      (after bareGrammars .default [bareTurn "@decl ~.lib::b"])).1 =
      .error (.commandFailed "@decl ~..lib::b" (.declarationNotFound [] ⟨"r/src/lib.rs"⟩ "b")) := by
  have hpath : (Location.mk ⟨"r"⟩ ⟨"src//lib.rs"⟩ "b" "u").sourcePath = ⟨"r/src//lib.rs"⟩ := by
    decide +kernel
  refine carryOut_eq_error_iff.2 (.inr ⟨⟨⟨"r"⟩, ⟨"src//lib.rs"⟩, "b", "u"⟩, .signature, ?_, ?_⟩)
  · rw [settings_after]
    exact target_two_dots
  · rw [fst_cut, hpath]
    unfold sourceOf
    rw [find?_sources_after, List.findSome?_cons, loaded?_one_dot]
    rfl

/-- The failure does not have the command's own spelling, since another was first. -/
theorem spelled_as_loaded_first_two_dots :
    ((bareTurn "@decl ~..lib::b").carryOut bareGrammars
      (after bareGrammars .default [bareTurn "@decl ~.lib::b"])).1 =
        .error (.commandFailed "@decl ~..lib::b" (.declarationNotFound [] ⟨"r/src/lib.rs"⟩ "b")) ∧
    ∃ location extent, target bareTree .default ⟨⟨"r"⟩, "u", []⟩ "@decl ~..lib::b" =
        .ok (location, extent) ∧
      (Path.mk "r/src/lib.rs").SameAs location.sourcePath ∧
      ¬ ∀ path, FirstSpelling bareGrammars .default [bareTurn "@decl ~.lib::b"]
        location.sourcePath path → path = location.sourcePath := by
  obtain ⟨location, extent, htarget, hsame, -, hown⟩ :=
    spelled_as_loaded_first carryOut_two_dots rfl
  refine ⟨carryOut_two_dots, location, extent, htarget, hsame, fun hall => ?_⟩
  obtain ⟨rfl, -⟩ := Prod.mk.inj (Except.ok.inj (target_two_dots.symm.trans htarget))
  exact absurd (hown.2 hall) (by decide +kernel)

/-- Not every failure spells the file as its command does. -/
theorem not_forall_spelled_as_asked :
    ¬ ∀ grammars settings (turns : List Turn) (turn : Turn) cause file location extent,
      (turn.carryOut grammars (after grammars settings turns)).1 =
        .error (.commandFailed turn.line cause) →
      cause.source? = some file →
      target turn.files settings turn.scenario turn.line = .ok (location, extent) →
      file = location.sourcePath := by
  intro h
  have hown := h _ _ _ _ _ _ _ _ carryOut_two_dots rfl target_two_dots
  exact absurd hown (by decide +kernel)

end Extractor

end LiveExcerpts
