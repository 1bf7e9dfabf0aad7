import LiveExcerpts.Location
import LiveExcerpts.Proofs.Subpaths
/-!
# Files below the source root

A command looks for its file below the source root, with two exceptions.  If there is a home
directory, a dot or a slash at the front of the command path makes the file an absolute one, which
stands for itself under every root.  And dots that come from the home directory and from the
extension can meet in a `..`.

Main definitions: `IsRooted`, `SpellsUp`.  Main statements: a file is absolute exactly if the
command path is rooted (`Location.isAbsolute_file_iff`), it goes up exactly if the command path
spells it so (`Location.up_mem_file_iff`), and everything else lies below the root
(`Location.isBelow_root_iff`).
-/

namespace LiveExcerpts

/-! ## Dots that meet -/

/-- A dot that has come with `home`, and begins a `..`, is the last part of `home`. -/
theorem exists_of_home_dot {home extension slashed before rest after : List Char}
    (hslashed : '.' ∉ slashed) (hhome : ['.', '.'] ∉ Text.pieces (· == '/') home)
    (htext : Text.substitute '~' home slashed = before ++ '.' :: rest)
    (hafter : '.' :: after = rest ++ '.' :: extension) (hstart : StartsPart before)
    (hend : EndsPart after) :
    ∃ front back lead trail, slashed = front ++ '~' :: back ∧ home = lead ++ ['.'] ∧
      Text.substitute '~' home back ++ '.' :: extension = '.' :: trail ∧
      StartsPart (Text.substitute '~' home front ++ lead) ∧ EndsPart trail := by
  obtain ⟨front, back, lead, trail, rfl, rfl, rfl, rfl⟩ :=
    Text.exists_of_substitute_eq hslashed htext
  cases trail with
  | nil => exact ⟨front, back, lead, after, rfl, rfl, hafter.symm, hstart, hend⟩
  -- Two dots of `home` itself would be a part of it.
  | cons d trail =>
      obtain ⟨rfl, rfl⟩ := List.cons.inj hafter
      have htrail : EndsPart trail := hend.of_append.of_append
      have hup := up_mem_pieces_iff.2 ⟨lead, trail, rfl, hstart.of_append, htrail⟩
      exact absurd hup hhome

/-- **How `..` comes to stand in a text** in which `home` has been written in place of every `~`,
and `.` and an extension behind it.  Either the two dots are those of the extension, or the first
one is the last part of `home`, and what is written behind it goes on with the second one. -/
theorem up_mem_pieces_substitute_iff {home extension slashed : List Char} (hslashed : '.' ∉ slashed)
    (hhome : ['.', '.'] ∉ Text.pieces (· == '/') home) (hextension : '/' ∉ extension) :
    ['.', '.'] ∈ Text.pieces (· == '/') (Text.substitute '~' home slashed ++ '.' :: extension) ↔
      extension = ['.'] ∧ StartsPart (Text.substitute '~' home slashed) ∨
      ∃ front back lead trail, slashed = front ++ '~' :: back ∧ home = lead ++ ['.'] ∧
        Text.substitute '~' home back ++ '.' :: extension = '.' :: trail ∧
        StartsPart (Text.substitute '~' home front ++ lead) ∧ EndsPart trail := by
  rw [up_mem_pieces_iff]
  constructor
  · rintro ⟨before, after, htext, hstart, hend⟩
    have hdots : '.' :: extension = '.' :: '.' :: after → extension = ['.'] := by
      intro h
      obtain rfl := (List.cons.inj h).2
      rw [hend.eq_nil (mt (List.mem_cons_of_mem '.') hextension)]
    rcases List.append_eq_append_iff.1 htext with ⟨later, rfl, hlater⟩ | ⟨rest, hhomes, hrest⟩
    -- The extension has no slash, so that no part begins in it.
    · have hslash : '/' ∉ later := by
        intro hmem
        have hdot : '/' ∈ '.' :: extension := by rw [hlater]; exact List.mem_append_left _ hmem
        exact hextension (List.mem_of_ne_of_mem (by decide) hdot)
      obtain rfl := hstart.of_append.eq_nil hslash
      exact .inl ⟨hdots hlater, by rwa [List.append_nil] at hstart⟩
    · cases rest with
      | nil => exact .inl ⟨hdots hrest.symm, by rwa [hhomes, List.append_nil]⟩
      | cons c rest =>
          obtain ⟨rfl, hafter⟩ := List.cons.inj hrest
          exact .inr (exists_of_home_dot hslashed hhome hhomes hafter hstart hend)
  · rintro (⟨rfl, hstart⟩ | ⟨front, back, lead, trail, rfl, rfl, htrail, hstart, hend⟩)
    · exact ⟨_, [], rfl, hstart, nofun⟩
    · refine ⟨_, trail, ?_, hstart, hend⟩
      rw [Text.substitute_append, Text.substitute_cons_self]
      simp only [List.append_assoc, htrail]
      rfl

/-! ## Home directories -/

/-- What is dropped at the end of a directory are slashes. -/
theorem exists_toList_eq_trimDirectory {directory : String} (h : trimDirectory directory ≠ []) :
    ∃ k, directory.toList = trimDirectory directory ++ List.replicate k '/' := by
  obtain ⟨k, htext, -⟩ := Path.exists_toList_eq_dropSlashes ⟨directory⟩
  have hkept : (FileSystem.dropSlashes ⟨directory⟩).text.toList = trimDirectory directory := by
    have hne : (trimDirectory directory).isEmpty = false := by
      rwa [← Bool.not_eq_true, List.isEmpty_iff]
    unfold FileSystem.dropSlashes
    show (if (trimDirectory directory).isEmpty then _ else _ : Path).text.toList = _
    rw [hne]
    exact String.toList_ofList
  exact ⟨k, by rw [← hkept]; exact htext⟩

/-- A relative directory begins with a character that is not a slash, and keeps it. -/
theorem exists_trimDirectory_eq_cons {home : String} (hne : home ≠ "")
    (hrelative : (Path.mk home).isAbsolute = false) :
    ∃ c cs, trimDirectory home = c :: cs ∧ c ≠ '/' := by
  obtain ⟨c, cs, hcs⟩ := List.exists_cons_of_ne_nil (mt String.toList_eq_nil_iff.1 hne)
  have hc : c ≠ '/' := by
    rintro rfl
    unfold Path.isAbsolute at hrelative
    rw [hcs] at hrelative
    cases hrelative
  have hkept : trimDirectory home ≠ [] := by
    intro hnil
    unfold trimDirectory at hnil
    rw [List.reverse_eq_nil_iff, List.dropWhile_eq_nil_iff] at hnil
    exact hc (by simpa using hnil c (by simp [hcs]))
  obtain ⟨k, htext⟩ := exists_toList_eq_trimDirectory hkept
  obtain ⟨d, ds, hds⟩ := List.exists_cons_of_ne_nil hkept
  rw [hds, hcs] at htext
  obtain ⟨rfl, -⟩ := List.cons.inj htext
  exact ⟨c, ds, hds, hc⟩

theorem up_not_mem_pieces_trimDirectory {home : String} (h : .up ∉ (Path.mk home).components) :
    ['.', '.'] ∉ Text.pieces (· == '/') (trimDirectory home) := by
  intro hmem
  by_cases hnil : trimDirectory home = []
  · rw [hnil] at hmem
    cases List.mem_singleton.1 hmem
  · obtain ⟨k, htext⟩ := exists_toList_eq_trimDirectory hnil
    refine h (Path.up_mem_components_iff_pieces.2 ?_)
    rw [htext, Path.pieces_append_slashes]
    exact List.mem_append_left _ hmem

/-! ## Command paths -/

theorem expandPath_empty (path : String) : expandPath "" path =
    ((Text.substitute '.' ['/'] path.toList).dropWhile (· == '~')).dropWhile (· == '/') := rfl

/-- Without a home directory no slash is left at the front. -/
theorem head?_expandPath_empty (path : String) : ∀ c ∈ (expandPath "" path).head?, c ≠ '/' := by
  intro c hc
  have hnot := List.head?_dropWhile_not (· == '/')
    ((Text.substitute '.' ['/'] path.toList).dropWhile (· == '~'))
  rw [← expandPath_empty, Option.mem_def.1 hc] at hnot
  simpa using hnot

theorem expandPath_of_ne {home : String} (h : home ≠ "") (path : String) :
    expandPath home path =
      Text.substitute '~' (trimDirectory home) (Text.substitute '.' ['/'] path.toList) :=
  if_neg (by simpa using h)

/-- Where `~` stands after dots have become slashes, it stood before. -/
theorem exists_eq_append_home {path : String} {front back : List Char}
    (h : Text.substitute '.' ['/'] path.toList = front ++ '~' :: back) :
    ∃ before after : String, path = before ++ "~" ++ after ∧
      Text.substitute '.' ['/'] before.toList = front ∧
      Text.substitute '.' ['/'] after.toList = back := by
  rw [Text.substitute_singleton] at h
  obtain ⟨cs, ds, hpath, hfront, hds⟩ := List.map_eq_append_iff.1 h
  obtain ⟨c, back, rfl, hc, hback⟩ := List.map_eq_cons_iff.1 hds
  have htilde : c = '~' := by
    split at hc
    · exact absurd hc (by decide)
    · exact hc
  refine ⟨String.ofList cs, String.ofList back, ?_, ?_, ?_⟩
  · apply String.toList_inj.1
    rw [hpath, htilde]
    simp
  · rw [String.toList_ofList, Text.substitute_singleton, hfront]
  · rw [String.toList_ofList, Text.substitute_singleton, hback]

/-- What the first character of a command path becomes, with a home directory. -/
theorem expandPath_cases {home : String} (hhome : home ≠ "") (path : String) :
    path = "" ∧ expandPath home path = [] ∨
      (∃ after, path = "~" ++ after ∧
        expandPath home path = trimDirectory home ++ expandPath home after) ∨
      ∃ c cs, path.toList.head? = some c ∧ c ≠ '~' ∧
        expandPath home path = (if c = '.' then '/' else c) :: cs := by
  rw [expandPath_of_ne hhome]
  cases hpath : path.toList with
  | nil => exact .inl ⟨String.toList_eq_nil_iff.1 hpath, rfl⟩
  | cons c cs =>
      rw [Text.substitute_singleton, List.map_cons, ← Text.substitute_singleton]
      by_cases htilde : c = '~'
      · subst htilde
        refine .inr (.inl ⟨String.ofList cs, String.toList_inj.1 (by rw [hpath]; simp), ?_⟩)
        rw [expandPath_of_ne hhome, String.toList_ofList]
        exact Text.substitute_cons_self '~' _ _
      · refine .inr (.inr ⟨c, _, rfl, htilde, Text.substitute_cons_of_ne ?_ _ _⟩)
        split
        · decide
        · exact htilde

/-- What a command path stands for begins with a dot only where it begins with a home directory. -/
theorem eq_empty_or_home_append {home path : String} (hhome : home ≠ "") {rest trail : List Char}
    (h : expandPath home path ++ rest = '.' :: trail) :
    path = "" ∧ rest = '.' :: trail ∨ ∃ after, path = "~" ++ after ∧
      trimDirectory home ++ expandPath home after ++ rest = '.' :: trail := by
  rcases expandPath_cases hhome path with ⟨hpath, heq⟩ | ⟨after, hpath, heq⟩ | ⟨c, cs, -, -, heq⟩
  · rw [heq] at h
    exact .inl ⟨hpath, h⟩
  · rw [heq] at h
    exact .inr ⟨after, hpath, h⟩
  · rw [heq] at h
    have hc := (List.cons.inj h).1
    split at hc
    · exact absurd hc (by decide)
    · next hne => exact absurd hc hne

/-- There is a home directory, and the command path has a dot or a slash at its front, which nothing
takes away.  Without a home directory the slashes at the front are dropped. -/
def IsRooted (settings : Settings) (path : String) : Prop :=
  settings.home ≠ "" ∧ (path.toList.head? = some '.' ∨ path.toList.head? = some '/')

instance (settings : Settings) (path : String) : Decidable (IsRooted settings path) :=
  inferInstanceAs (Decidable (_ ∧ _))

/-- The ways in which a command path comes to name a file with `..` in it, although the home
directory has none. -/
inductive SpellsUp (settings : Settings) (path : String) : Prop
  /-- The extension is a dot, and there is no name in front of it. -/
  | extension (hextension : settings.extension = ".")
      (hstart : StartsPart (expandPath settings.home path))
  /-- The command path ends with `~`, the home directory with a part `.`, and the extension is
  empty. -/
  | home {before : String} {lead : List Char} (hne : settings.home ≠ "")
      (hpath : path = before ++ "~") (hlead : trimDirectory settings.home = lead ++ ['.'])
      (hstart : StartsPart (expandPath settings.home before ++ lead))
      (hextension : settings.extension = "")
  /-- Two `~` stand in a row, and the first and the last part of the home directory are a `.`. -/
  | homes {before after : String} {lead trail : List Char} (hne : settings.home ≠ "")
      (hpath : path = before ++ "~~" ++ after) (hlead : trimDirectory settings.home = lead ++ ['.'])
      (hstart : StartsPart (expandPath settings.home before ++ lead))
      (htrail : trimDirectory settings.home = '.' :: trail)
      (hend : EndsPart
        (trail ++ (expandPath settings.home after ++ '.' :: settings.extension.toList)))

/-- None of these ways is open where the home directory does not end in a dot and the extension is
none. -/
theorem not_spellsUp {settings : Settings} (hextension : settings.extension ≠ ".")
    (hhome : (trimDirectory settings.home).getLast? ≠ some '.') (path : String) :
    ¬ SpellsUp settings path := by
  have hlast : ∀ lead, trimDirectory settings.home ≠ lead ++ ['.'] := by
    intro lead hlead
    rw [hlead, List.getLast?_concat] at hhome
    exact hhome rfl
  rintro (⟨hdot, -⟩ | ⟨-, -, hlead, -, -⟩ | ⟨-, -, hlead, -⟩)
  · exact hextension hdot
  · exact hlast _ hlead
  · exact hlast _ hlead

namespace Location

variable {settings : Settings}

theorem toList_file (root : Path) (url : String) (command : Command) :
    (ofCommand settings root url command).file.text.toList =
      expandPath settings.home command.path ++ '.' :: settings.extension.toList := by
  unfold ofCommand
  simp

/-- **A file is absolute exactly if the command path is rooted**, for neither a home directory nor
what is left without one begins with a slash. -/
theorem isAbsolute_file_iff (hrelative : (Path.mk settings.home).isAbsolute = false) (root : Path)
    (url : String) (command : Command) :
    (ofCommand settings root url command).file.isAbsolute = true ↔
      IsRooted settings command.path := by
  unfold Path.isAbsolute IsRooted
  rw [beq_iff_eq, toList_file]
  by_cases hhome : settings.home = ""
  · refine iff_of_false (fun hhead => ?_) fun h => h.1 hhome
    have hnot := head?_expandPath_empty command.path
    rw [hhome] at hhead
    cases hcs : expandPath "" command.path with
    | nil =>
        rw [hcs] at hhead
        cases hhead
    | cons c cs =>
        rw [hcs] at hhead hnot
        exact hnot c rfl (Option.some.inj hhead)
  rw [and_iff_right hhome]
  rcases expandPath_cases hhome command.path with ⟨hpath, heq⟩ | ⟨after, hpath, heq⟩ |
    ⟨c, cs, hhead, htilde, heq⟩
  · rw [heq, hpath]
    exact iff_of_false (by simp) (by simp)
  · obtain ⟨c, cs, hcs, hc⟩ := exists_trimDirectory_eq_cons hhome hrelative
    rw [heq, hcs, hpath]
    exact iff_of_false (fun hhead => hc (Option.some.inj hhead)) (by simp)
  · rw [heq, hhead]
    by_cases hdot : c = '.' <;> simp [hdot]

/-- Without a home directory only the extension can bring dots to the file. -/
theorem up_mem_pieces_of_empty {extension : List Char} (hextension : '/' ∉ extension)
    (path : String) :
    ['.', '.'] ∈ Text.pieces (· == '/') (expandPath "" path ++ '.' :: extension) ↔
      extension = ['.'] ∧ StartsPart (expandPath "" path) := by
  have hdot : '.' ∉ expandPath "" path := by
    rw [expandPath_empty]
    intro hmem
    have hslashed := (List.dropWhile_sublist _).subset ((List.dropWhile_sublist _).subset hmem)
    exact Text.not_mem_substitute (by decide) _ hslashed
  -- A text is what it becomes with `~` written in place of every `~`.
  have hsame : Text.substitute '~' ['~'] (expandPath "" path) = expandPath "" path := by
    rw [Text.substitute_singleton]
    refine List.map_id'' (fun c => ?_) _
    split
    · next h => exact h.symm
    · rfl
  have hpieces := @up_mem_pieces_substitute_iff ['~'] _ _ hdot (by decide) hextension
  rw [hsame] at hpieces
  rw [hpieces, or_iff_left]
  rintro ⟨front, back, lead, trail, -, hlead, -⟩
  have hlast := congrArg List.getLast? hlead
  rw [List.getLast?_concat] at hlast
  exact absurd hlast (by decide)

/-- With a home directory, the file goes up in the ways that are told. -/
theorem SpellsUp.of_mem_pieces {path : String} (hhome : settings.home ≠ "")
    (hup : .up ∉ (Path.mk settings.home).components)
    (hextension : '/' ∉ settings.extension.toList)
    (h : ['.', '.'] ∈ Text.pieces (· == '/')
      (expandPath settings.home path ++ '.' :: settings.extension.toList)) :
    SpellsUp settings path := by
  rw [expandPath_of_ne hhome, up_mem_pieces_substitute_iff (Text.not_mem_substitute (by decide) _)
    (up_not_mem_pieces_trimDirectory hup) hextension] at h
  rcases h with ⟨hdots, hstart⟩ | ⟨front, back, lead, trail, hslashed, hlead, htrail, hstart, hend⟩
  · exact .extension (String.toList_inj.1 hdots) (by rwa [expandPath_of_ne hhome])
  obtain ⟨before, after, hpath, rfl, rfl⟩ := exists_eq_append_home hslashed
  rw [← expandPath_of_ne hhome] at hstart htrail
  rcases eq_empty_or_home_append hhome htrail with ⟨rfl, hdot⟩ | ⟨rest, rfl, hhomes⟩
  · obtain rfl := (List.cons.inj hdot).2
    refine .home hhome (hpath.trans String.append_empty) hlead hstart ?_
    exact String.toList_eq_nil_iff.1 (hend.eq_nil hextension)
  · obtain ⟨c, cs, hcs⟩ := List.exists_cons_of_ne_nil
      (show trimDirectory settings.home ≠ [] by rw [hlead]; simp)
    rw [hcs, List.append_assoc] at hhomes
    obtain ⟨rfl, rfl⟩ := List.cons.inj hhomes
    refine .homes hhome (hpath.trans ?_) hlead hstart hcs hend
    rw [← String.append_assoc, @String.append_assoc before]
    rfl

/-- In each of these ways the file does go up. -/
theorem SpellsUp.mem_pieces {path : String} (hhome : settings.home ≠ "")
    (hup : .up ∉ (Path.mk settings.home).components)
    (hextension : '/' ∉ settings.extension.toList) (h : SpellsUp settings path) :
    ['.', '.'] ∈ Text.pieces (· == '/')
      (expandPath settings.home path ++ '.' :: settings.extension.toList) := by
  rw [expandPath_of_ne hhome, up_mem_pieces_substitute_iff (Text.not_mem_substitute (by decide) _)
    (up_not_mem_pieces_trimDirectory hup) hextension]
  cases h with
  | extension hdots hstart =>
      rw [expandPath_of_ne hhome] at hstart
      exact .inl ⟨by rw [hdots]; rfl, hstart⟩
  | @home before lead _ hpath hlead hstart hdot =>
      rw [expandPath_of_ne hhome] at hstart
      refine .inr ⟨_, [], lead, [], ?_, hlead, by rw [hdot]; rfl, hstart, nofun⟩
      rw [hpath, String.toList_append, Text.substitute_append]
      rfl
  | @homes before after lead trail _ hpath hlead hstart htrail hend =>
      rw [expandPath_of_ne hhome] at hstart hend
      refine .inr ⟨_, '~' :: Text.substitute '.' ['/'] after.toList, lead, _, ?_, hlead, ?_, hstart,
        hend⟩
      · rw [hpath, String.toList_append, String.toList_append, Text.substitute_append,
          Text.substitute_append, List.append_assoc]
        rfl
      · rw [Text.substitute_cons_self, htrail, List.append_assoc]
        rfl

/-- **A file goes up exactly if the command path spells it so.** -/
theorem up_mem_file_iff (hup : .up ∉ (Path.mk settings.home).components)
    (hextension : '/' ∉ settings.extension.toList) (root : Path) (url : String)
    (command : Command) :
    .up ∈ (ofCommand settings root url command).file.components ↔
      SpellsUp settings command.path := by
  rw [Path.up_mem_components_iff_pieces, toList_file]
  by_cases hhome : settings.home = ""
  · rw [hhome, up_mem_pieces_of_empty hextension]
    constructor
    · rintro ⟨hdots, hstart⟩
      exact .extension (String.toList_inj.1 hdots) (by rwa [hhome])
    · rintro (⟨hdots, hstart⟩ | ⟨hne, -⟩ | ⟨hne, -⟩)
      · exact ⟨by rw [hdots]; rfl, by rwa [← hhome]⟩
      · exact absurd hhome hne
      · exact absurd hhome hne
  · exact ⟨SpellsUp.of_mem_pieces hhome hup hextension, SpellsUp.mem_pieces hhome hup hextension⟩

example : (ofCommand { home := "." } ⟨"r"⟩ "u" ⟨.definition, "~~.a", "x"⟩).sourcePath =
    ⟨"r/../a.rs"⟩ := by decide +kernel

/-- **Where a command looks for its file.**  A command path that is not rooted names a file below
the source root, whichever this is, unless it spells `..` in one of the ways that are told.  A
rooted one names the same absolute file under every source root, and so leaves every relative one.
-/
theorem isBelow_root_iff (hrelative : (Path.mk settings.home).isAbsolute = false)
    (hup : .up ∉ (Path.mk settings.home).components)
    (hextension : '/' ∉ settings.extension.toList) (command : Command) :
    ∃ tested : Path → Path,
      (∀ fs root url, resolve fs settings root url command =
        if fs.isFile (tested root) then .ok (ofCommand settings root url command)
        else .error (.fileNotFound (tested root))) ∧
      (¬ IsRooted settings command.path →
        ∀ root, (tested root).IsBelow root ↔ ¬ SpellsUp settings command.path) ∧
      (IsRooted settings command.path → ∃ p, p.isAbsolute = true ∧
        ∀ root, tested root = p ∧ (root.isAbsolute = false → ¬ p.IsBelow root)) := by
  refine ⟨fun root => (ofCommand settings root "" command).sourcePath, fun _ _ _ => rfl, ?_, ?_⟩
  · intro hrooted root
    have hfile : (ofCommand settings root "" command).file.isAbsolute = false := by
      rwa [← Bool.not_eq_true, isAbsolute_file_iff hrelative]
    rw [← up_mem_file_iff hup hextension root ""]
    exact Path.isBelow_join_iff hfile
  · intro hrooted
    have hfile := (isAbsolute_file_iff hrelative ⟨""⟩ "" command).2 hrooted
    refine ⟨_, hfile, fun root => ⟨?_, Path.not_isBelow_of_isAbsolute hfile⟩⟩
    exact if_pos (by rw [Bool.or_eq_true]; exact .inl hfile)

/-- A dotted path is looked for below the source root, in the home directory. -/
theorem isBelow_root_iff_mesh : ∃ p, (∀ fs url,
    resolve fs .default ⟨"engine"⟩ url ⟨.definition, "~.render.mesh", "Mesh"⟩ = if fs.isFile p
      then .ok (ofCommand .default ⟨"engine"⟩ url ⟨.definition, "~.render.mesh", "Mesh"⟩)
      else .error (.fileNotFound p)) ∧ p.IsBelow ⟨"engine"⟩ := by
  obtain ⟨tested, hresolve, hbelow, -⟩ := @isBelow_root_iff .default (by decide) (by decide)
    (by decide) ⟨.definition, "~.render.mesh", "Mesh"⟩
  have hspells : ¬ SpellsUp .default "~.render.mesh" := not_spellsUp (by decide) (by decide) _
  exact ⟨tested ⟨"engine"⟩, fun fs url => hresolve fs _ url, (hbelow (by decide) _).2 hspells⟩

/-- A source root `r` with a file in it. -/
def inRoot : FileSystem := ⟨[(["r"], .directory), (["r", "a.rs"], .file (.text ""))], []⟩

/-- The file is not at the root of the file system. -/
theorem not_isFile_inRoot : ¬ inRoot.isFile ⟨"/a.rs"⟩ = true := by
  have hwalk : inRoot.walk true FileSystem.maxLinks [] ["", "a.rs"] = .ok (.vacant ["a.rs"]) := by
    rw [FileSystem.walk_skip rfl (.inl rfl),
      FileSystem.walk_name rfl (by decide) (by decide) (by decide)]
    rfl
  have hspot : inRoot.spot true ⟨"/a.rs"⟩ = .ok (.vacant ["a.rs"]) := hwalk
  unfold FileSystem.isFile FileSystem.stat
  rw [hspot]
  decide

/-- Not every command is looked for below the source root: with a home directory, one that begins
with a dot is looked for at the root of the file system. -/
theorem not_forall_isBelow : ¬ ∀ raw command (settings : Settings) fs root url p,
    Command.parse raw = .ok command → (Path.mk settings.home).isAbsolute = false →
    .up ∉ (Path.mk settings.home).components → '/' ∉ settings.extension.toList →
    resolve fs settings root url command = .error (.fileNotFound p) → p.IsBelow root := by
  intro h
  have hbelow := h "@decl .a::x" ⟨.signature, ".a", "x"⟩ .default inRoot ⟨"r"⟩ "u" ⟨"/a.rs"⟩
    (by decide) (by decide) (by decide) (by decide) (if_neg not_isFile_inRoot)
  exact Path.not_isBelow_of_isAbsolute (by decide) (by decide) hbelow

end Location

end LiveExcerpts
