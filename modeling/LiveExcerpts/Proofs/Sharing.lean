import LiveExcerpts.Extractor
import LiveExcerpts.Proofs.Files.Walk
import LiveExcerpts.Proofs.Outcomes
/-!
# Sharing an extractor

An extractor keeps what it has parsed.  What a command comes to depends on two things only: the
source file that the extractor has, or would load, for a path, and the pieces that it has, or would
make, of an excerpt.  No command changes either, but for the spelling of a source file's path, so
nobody can tell from the answers which commands were carried out before.

Main definitions: `Extractor.sourceOf`, `Extractor.piecesOf`, `Extractor.SameAs`.  Main statements:
two spellings of a file's path load the same file (`SourceFile.load_alike`), a command leaves an
extractor the same (`Extractor.sameAs_carryOut`), the same extractors give alike answers
(`Extractor.SameAs.carryOut`), and `Extractor.carryOutAll_alike_alone`.
-/

namespace LiveExcerpts

/-! ## One file under two spellings -/

namespace Path

theorem SameAs.fileName? {p q : Path} (h : p.SameAs q) : p.fileName? = q.fileName? := by
  unfold Path.fileName?
  rw [h]

theorem SameAs.extension? {p q : Path} (h : p.SameAs q) : p.extension? = q.extension? := by
  unfold Path.extension?
  rw [h.fileName?]

end Path

namespace FileSystem

variable {fs : FileSystem} {p q : Path}

/-- Two spellings of one path that lead to files lead to the same file. -/
theorem exists_stat_of_sameAs (hpq : p.SameAs q) (hp : fs.isFile p = true)
    (hq : fs.isFile q = true) :
    ∃ contents, fs.stat p = .ok (.file contents) ∧ fs.stat q = .ok (.file contents) := by
  obtain ⟨contents, hcontents⟩ := isFile_iff.1 hp
  obtain ⟨contents', hcontents'⟩ := isFile_iff.1 hq
  obtain rfl := Entry.file.inj (stat_eq_of_sameAs hpq hcontents hcontents')
  exact ⟨contents, hcontents, hcontents'⟩

end FileSystem

namespace SourceFile

/-- The same source file: it may have been asked for by two spellings of its path. -/
structure SameAs (file file' : SourceFile) : Prop where
  /-- The paths are two spellings of one. -/
  path : file.path.SameAs file'.path
  /-- The languages are the same. -/
  language : file.language = file'.language
  /-- The trees are the same. -/
  root : file.root = file'.root
  /-- The tokens are the same. -/
  tokens : file.tokens = file'.tokens

theorem SameAs.refl (file : SourceFile) : file.SameAs file := ⟨.refl _, rfl, rfl, rfl⟩

theorem SameAs.symm {file file' : SourceFile} (h : file.SameAs file') : file'.SameAs file :=
  ⟨h.path.symm, h.language.symm, h.root.symm, h.tokens.symm⟩

theorem SameAs.trans {file file' file'' : SourceFile} (h : file.SameAs file')
    (h' : file'.SameAs file'') : file.SameAs file'' :=
  ⟨h.path.trans h'.path, h.language.trans h'.language, h.root.trans h'.root,
    h.tokens.trans h'.tokens⟩

theorem parse_alike (grammars : Grammars) {p q : Path} (hpq : p.SameAs q) (source : String) :
    Alike SameAs (parse grammars p source) (parse grammars q source) := by
  unfold parse
  have hlanguage : Language.ofPath p = Language.ofPath q := by
    unfold Language.ofPath
    rw [hpq.extension?]
  rw [hlanguage]
  have hrefl : Alike Eq (Language.ofPath q) (Language.ofPath q) := .refl (fun _ => rfl) _
  refine hrefl.bind fun language _ h => ?_
  subst h
  cases grammars language source with
  | ok root => exact .ok ⟨hpq, rfl, rfl, rfl⟩
  | error reason => exact .error (.parseFailed hpq)

/-- **Two spellings of a file's path load the same file.** -/
theorem load_alike (grammars : Grammars) {fs : FileSystem} {p q : Path} (hpq : p.SameAs q)
    (hp : fs.isFile p = true) (hq : fs.isFile q = true) :
    Alike SameAs (load grammars fs p) (load grammars fs q) := by
  obtain ⟨contents, hpc, hqc⟩ := FileSystem.exists_stat_of_sameAs hpq hp hq
  unfold load FileSystem.size FileSystem.readText
  rw [hpc, hqc]
  simp only [Except.map]
  split
  · exact .error (.parseFailed hpq)
  · cases contents with
    | text text => exact parse_alike grammars hpq text
    | binary size => exact .error (.refl _)

/-- Cutting a declaration out of the same file comes to the same. -/
theorem SameAs.cut {file file' : SourceFile} (h : file.SameAs file') (identifier : String)
    (extent : Extent) : Alike Eq (file.cut identifier extent) (file'.cut identifier extent) := by
  obtain ⟨path, language, root, tokens⟩ := file
  obtain ⟨path', language', root', tokens'⟩ := file'
  obtain ⟨hpath, rfl, rfl, rfl⟩ := h
  have hdeclare : ∀ binding, Alike Eq (declare ⟨path, language, root, tokens⟩ binding)
      (declare ⟨path', language, root, tokens⟩ binding) := by
    intro binding
    unfold declare
    dsimp only
    split
    · cases binding.kind <;> exact .ok rfl
    · exact .error (.parseFailed hpath)
  have hlocate : Alike Eq (locate ⟨path, language, root, tokens⟩ identifier)
      (locate ⟨path', language, root, tokens⟩ identifier) := by
    unfold locate
    have hbindings : bindings ⟨path, language, root, tokens⟩ =
        bindings ⟨path', language, root, tokens⟩ := rfl
    rw [hbindings]
    cases (bindings ⟨path', language, root, tokens⟩).find? fun b => b.name == identifier with
    | some binding => exact hdeclare binding
    | none => exact .error (.declarationNotFound hpath)
  unfold SourceFile.cut
  refine hlocate.bind fun d d' hd => ?_
  subst hd
  have hrange : Alike Eq (d.range tokens path extent) (d.range tokens path' extent) := by
    unfold Declaration.range
    cases extent with
    | definition => exact .ok rfl
    | signature =>
        have hend : Alike Eq (d.signatureEnd tokens path) (d.signatureEnd tokens path') := by
          unfold Declaration.signatureEnd
          split
          · exact .ok rfl
          · exact .ok rfl
          · split
            · exact .ok rfl
            · exact .error (.bodyNotFound hpath)
          · exact .ok rfl
        exact hend.bind fun a b hab => hab ▸ .ok rfl
  exact hrange.bind fun r r' hr => hr ▸ .ok rfl

end SourceFile

/-! ## What an extractor knows -/

/-- Using a parser where there are no effects: it is the one in the cache, or a new one. -/
theorem Cache.use_eq {κ π ε α : Type} [DecidableEq κ] (key : κ) (build : Unit → Except ε π)
    (rewind : π → π) (action : π → Except ε α × π) (cache : Cache κ π) :
    use (m := Id) key build rewind action cache =
      match (cache.find? key).elim (build ()) .ok with
      | .error e => (.error e, cache)
      | .ok parser => ((action (rewind parser)).1, cache.put key (action (rewind parser)).2) := by
  unfold use
  cases cache.find? key with
  | some parser => rfl
  | none =>
      simp only [Option.elim_none]
      cases build () with
      | error e => rfl
      | ok parser => rfl

namespace Extractor

variable (grammars : Grammars) (fs : FileSystem)

/-- The source file at a path, as the extractor has it or would load it. -/
def sourceOf (path : Path) (x : Extractor) : Except Error SourceFile :=
  (x.sources.find? path.components).elim (SourceFile.load grammars fs path) .ok

/-- The pieces of an excerpt, as the extractor has them or would make them. -/
def piecesOf (text : String) (x : Extractor) : List Piece :=
  (x.excerpts.find? text).elim (Piece.ofText text.toList) SegmentReader.pieces

/-- The extractors have the same settings and know the same of all files and excerpts. -/
structure SameAs (x y : Extractor) : Prop where
  /-- The settings are the same. -/
  settings : x.settings = y.settings
  /-- For paths of files they have the same source files. -/
  sources : ∀ path, fs.isFile path = true →
    Alike SourceFile.SameAs (x.sourceOf grammars fs path) (y.sourceOf grammars fs path)
  /-- They part excerpts in the same way. -/
  pieces : ∀ text, x.piecesOf text = y.piecesOf text

variable {grammars : Grammars} {fs : FileSystem}

theorem SameAs.refl (x : Extractor) : x.SameAs grammars fs x :=
  ⟨rfl, fun _ _ => Alike.refl SourceFile.SameAs.refl _, fun _ => rfl⟩

theorem SameAs.symm {x y : Extractor} (h : x.SameAs grammars fs y) : y.SameAs grammars fs x :=
  ⟨h.settings.symm, fun path hpath => (h.sources path hpath).symm SourceFile.SameAs.symm,
    fun text => (h.pieces text).symm⟩

theorem SameAs.trans {x y z : Extractor} (h : x.SameAs grammars fs y)
    (h' : y.SameAs grammars fs z) : x.SameAs grammars fs z :=
  ⟨h.settings.trans h'.settings,
    fun path hpath => (h.sources path hpath).trans SourceFile.SameAs.trans (h'.sources path hpath),
    fun text => (h.pieces text).trans (h'.pieces text)⟩

/-! ## Cutting -/

theorem cut_eq (location : Location) (extent : Extent) (x : Extractor) :
    x.cut grammars fs location extent =
      match x.sourceOf grammars fs location.sourcePath with
      | .error e => (.error e, x)
      | .ok file => (file.cut location.identifier extent,
          { x with sources := x.sources.put location.sourcePath.components file }) := by
  unfold cut sourceOf
  dsimp only
  rw [Cache.use_eq]
  cases (x.sources.find? location.sourcePath.components).elim
    (SourceFile.load grammars fs location.sourcePath) .ok <;> rfl

/-- What the same extractors cut out is alike. -/
theorem SameAs.cut {x y : Extractor} (h : x.SameAs grammars fs y) {location : Location}
    (hfile : fs.isFile location.sourcePath = true) (extent : Extent) :
    Alike Eq (x.cut grammars fs location extent).1 (y.cut grammars fs location extent).1 := by
  have hsource := h.sources location.sourcePath hfile
  rw [cut_eq, cut_eq]
  generalize x.sourceOf grammars fs location.sourcePath = a at hsource
  generalize y.sourceOf grammars fs location.sourcePath = b at hsource
  cases hsource with
  | ok hsame => exact hsame.cut location.identifier extent
  | error he => exact .error he

/-- **Cutting leaves an extractor the same.** -/
theorem sameAs_cut {location : Location} (hfile : fs.isFile location.sourcePath = true)
    (extent : Extent) (x : Extractor) :
    (x.cut grammars fs location extent).2.SameAs grammars fs x := by
  rw [cut_eq]
  cases hsource : x.sourceOf grammars fs location.sourcePath with
  | error e => exact .refl x
  | ok file =>
      refine ⟨rfl, fun path hpath => ?_, fun _ => rfl⟩
      by_cases hkey : path.components = location.sourcePath.components
      · -- The path is a spelling of the one whose file is kept now.
        have hkept : sourceOf grammars fs path
            { x with sources := x.sources.put location.sourcePath.components file } = .ok file := by
          unfold sourceOf
          rw [hkey, Cache.find?_put_self]
          rfl
        rw [hkept, ← hsource]
        unfold sourceOf
        rw [hkey]
        cases x.sources.find? location.sourcePath.components with
        | some kept => exact .ok (.refl kept)
        | none => exact SourceFile.load_alike grammars hkey.symm hfile hpath
      · have hother : sourceOf grammars fs path
            { x with sources := x.sources.put location.sourcePath.components file } =
              x.sourceOf grammars fs path := by
          unfold sourceOf
          rw [Cache.find?_put_of_ne hkey]
        rw [hother]
        exact Alike.refl SourceFile.SameAs.refl _

/-! ## Parting -/

/-- Parting an excerpt hands out the segments of its pieces and keeps a reader of these pieces. -/
theorem exists_segments_eq (text : String) (x : Extractor) :
    ∃ reader : SegmentReader, reader.pieces = x.piecesOf text ∧
      x.segments text = (.ok ((x.piecesOf text).filterMap Piece.clean?),
        { x with excerpts := x.excerpts.put text reader }) := by
  unfold segments piecesOf
  rw [Cache.use_eq]
  cases x.excerpts.find? text with
  | none => exact ⟨(SegmentReader.ofText text).rewind.read.2, rfl, rfl⟩
  | some reader => exact ⟨reader.rewind.read.2, rfl, rfl⟩

/-- **Parting leaves an extractor the same.** -/
theorem sameAs_segments (text : String) (x : Extractor) :
    (x.segments text).2.SameAs grammars fs x := by
  obtain ⟨reader, hpieces, heq⟩ := x.exists_segments_eq text
  rw [heq]
  refine ⟨rfl, fun path _ => Alike.refl SourceFile.SameAs.refl _, fun other => ?_⟩
  unfold piecesOf
  dsimp only
  by_cases hother : other = text
  · subst hother
    rw [Cache.find?_put_self]
    exact hpieces
  · rw [Cache.find?_put_of_ne hother]

/-! ## Commands -/

/-- Where a command line of a scenario looks, and how much of the declaration it asks for. -/
def target (fs : FileSystem) (settings : Settings) (scenario : Scenario) (raw : String) :
    Except Error (Location × Extent) := do
  let command ← Command.parse raw
  let location ← Location.resolve fs settings scenario.root scenario.url command
  return (location, command.extent)

/-- A command looks only where there is a file. -/
theorem isFile_of_target {settings : Settings} {scenario : Scenario} {raw : String}
    {location : Location} {extent : Extent}
    (h : target fs settings scenario raw = .ok (location, extent)) :
    fs.isFile location.sourcePath = true := by
  obtain ⟨command, -, hrest⟩ := bind_eq_ok_iff.1 h
  obtain ⟨found, hfound, hpair⟩ := bind_eq_ok_iff.1 hrest
  obtain ⟨rfl, -⟩ := Prod.mk.inj (Except.ok.inj hpair)
  exact (Location.resolve_eq_ok_iff.1 hfound).2

theorem excerpt_eq (location : Location) (extent : Extent) (x : Extractor) :
    x.excerpt grammars fs location extent =
      match x.cut grammars fs location extent with
      | (.error e, x) => (.error e, x)
      | (.ok cutting, x) =>
        (.ok (location.header x.settings.home cutting.line ::
          ((x.piecesOf cutting.text).filterMap Piece.clean?).map
            (Segment.toMarkdown cutting.fence)), (x.segments cutting.text).2) := by
  unfold excerpt
  rcases x.cut grammars fs location extent with ⟨e | cutting, x⟩
  · rfl
  · obtain ⟨reader, -, heq⟩ := x.exists_segments_eq cutting.text
    dsimp only
    rw [heq]

theorem carryOut_eq (scenario : Scenario) (raw : String) (x : Extractor) :
    x.carryOut grammars fs scenario raw =
      match target fs x.settings scenario raw with
      | .error e => (.error (.commandFailed raw e), x)
      | .ok (location, extent) =>
        ((x.excerpt grammars fs location extent).1.mapError (Error.commandFailed raw),
          (x.excerpt grammars fs location extent).2) := by
  unfold carryOut target
  rfl

/-- **A command leaves an extractor the same.** -/
theorem sameAs_carryOut (scenario : Scenario) (raw : String) (x : Extractor) :
    (x.carryOut grammars fs scenario raw).2.SameAs grammars fs x := by
  rw [carryOut_eq]
  cases htarget : target fs x.settings scenario raw with
  | error e => exact .refl x
  | ok found =>
      obtain ⟨location, extent⟩ := found
      have hcut : (x.cut grammars fs location extent).2.SameAs grammars fs x :=
        sameAs_cut (isFile_of_target htarget) extent x
      dsimp only
      rw [excerpt_eq]
      generalize x.cut grammars fs location extent = result at hcut
      obtain ⟨e | cutting, y⟩ := result
      · exact hcut
      · exact (y.sameAs_segments cutting.text).trans hcut

/-- The answer to a command is the same as another: the same fragments, or the same failure of the
command up to the spelling of paths in its cause. -/
inductive SameAnswer (raw : String) :
    Except Error (List String) → Except Error (List String) → Prop
  | fragments (fragments : List String) : SameAnswer raw (.ok fragments) (.ok fragments)
  | failed {cause cause' : Error} : cause.SameAs cause' →
      SameAnswer raw (.error (.commandFailed raw cause)) (.error (.commandFailed raw cause'))

/-- **The same extractors give the same answers.** -/
theorem SameAs.carryOut {x y : Extractor} (h : x.SameAs grammars fs y) (scenario : Scenario)
    (raw : String) :
    SameAnswer raw (x.carryOut grammars fs scenario raw).1
      (y.carryOut grammars fs scenario raw).1 := by
  rw [carryOut_eq, carryOut_eq, h.settings]
  cases htarget : target fs y.settings scenario raw with
  | error e => exact .failed (.refl e)
  | ok found =>
      obtain ⟨location, extent⟩ := found
      have hfile := isFile_of_target htarget
      have hcut := h.cut hfile extent
      have hx : (x.cut grammars fs location extent).2.SameAs grammars fs x :=
        sameAs_cut hfile extent x
      have hy : (y.cut grammars fs location extent).2.SameAs grammars fs y :=
        sameAs_cut hfile extent y
      dsimp only
      rw [excerpt_eq, excerpt_eq]
      generalize x.cut grammars fs location extent = first at hcut hx
      generalize y.cut grammars fs location extent = second at hcut hy
      obtain ⟨outcome, x'⟩ := first
      obtain ⟨outcome', y'⟩ := second
      cases hcut with
      | error he => exact .failed he
      | ok hsame =>
          -- The extractors are still the same, and so they part the excerpt in one way.
          subst hsame
          have hxy := hx.trans (h.trans hy.symm)
          dsimp only
          rw [hxy.settings, hxy.pieces]
          exact .fragments _

/-- Carries out commands of any scenarios, one after the other. -/
def carryOutAll (grammars : Grammars) (fs : FileSystem) :
    List (Scenario × String) → Extractor → List (Except Error (List String)) × Extractor
  | [], x => ([], x)
  | (scenario, raw) :: rest, x =>
    let (answer, x) := x.carryOut grammars fs scenario raw
    let (answers, x) := carryOutAll grammars fs rest x
    (answer :: answers, x)

/-- Commands carried out one after the other come to what each of them comes to on any extractor
that is the same as the first. -/
theorem SameAs.carryOutAll (commands : List (Scenario × String)) {x y : Extractor}
    (h : x.SameAs grammars fs y) :
    List.Forall₂ (fun command answer =>
        SameAnswer command.2 answer (y.carryOut grammars fs command.1 command.2).1)
      commands (Extractor.carryOutAll grammars fs commands x).1 ∧
    (Extractor.carryOutAll grammars fs commands x).2.SameAs grammars fs y := by
  induction commands generalizing x with
  | nil => exact ⟨.nil, h⟩
  | cons command rest ih =>
      obtain ⟨scenario, raw⟩ := command
      obtain ⟨hanswers, hafter⟩ := ih ((sameAs_carryOut scenario raw x).trans h)
      exact ⟨.cons (h.carryOut scenario raw) hanswers, hafter⟩

/-- **Sharing an extractor cannot be noticed.**  Commands of any scenarios that are carried out one
after the other, in any order and however often, while the files stay as they are, each come to
what they come to alone on a new extractor: to the same fragments, or to the same failure of the
command, but for the spelling of paths. -/
theorem carryOutAll_alike_alone (grammars : Grammars) (fs : FileSystem) (settings : Settings)
    (commands : List (Scenario × String)) :
    List.Forall₂ (fun command answer =>
        SameAnswer command.2 answer
          (Extractor.carryOut grammars fs command.1 command.2 { settings }).1)
      commands (Extractor.carryOutAll grammars fs commands { settings }).1 :=
  ((SameAs.refl { settings }).carryOutAll commands).1

end Extractor

end LiveExcerpts
