import LiveExcerpts.Proofs.SourceRoot
/-!
# The home directory in paths

In a command path `~` stands for the home directory, and readers are shown the file without it.  The
one undoes the other.  But the home directory is hidden by its text and not by its parts, so that
of a path which only begins like it a piece of a name is cut off.

Main definitions: `IsPlainName`, `IsAtHome`.  Main statements: a path is shown as it is exactly if
it does not begin like the home directory (`visiblePath_eq_self_iff`), and a file in the home
directory is shown by its names (`Location.visiblePath_unixPath_of_home`).
-/

namespace LiveExcerpts

/-! ## Shown paths -/

/-- What is shown of a path that begins with the home directory. -/
theorem toList_visiblePath_of_append {path home : String} {rest : List Char}
    (h : path.toList = trimDirectory home ++ rest) :
    (visiblePath path home).toList = rest.dropWhile (· == '/') := by
  have hstart : (trimDirectory home).isPrefixOf path.toList = true :=
    List.isPrefixOf_iff_prefix.2 ⟨rest, h.symm⟩
  unfold visiblePath
  dsimp only
  rw [if_pos hstart, h, List.drop_left, String.toList_ofList]

/-- What is shown of any other path. -/
theorem toList_visiblePath_of_not_append {path home : String}
    (h : ¬ trimDirectory home <+: path.toList) :
    (visiblePath path home).toList = path.toList.dropWhile (· == '/') := by
  unfold visiblePath
  dsimp only
  rw [if_neg (mt List.isPrefixOf_iff_prefix.1 h), String.toList_ofList]

/-- Without a slash at its front a text loses none. -/
theorem dropWhile_slash_of_head?_ne {cs : List Char} (h : cs.head? ≠ some '/') :
    cs.dropWhile (· == '/') = cs := by
  cases cs with
  | nil => rfl
  | cons c cs =>
      apply List.dropWhile_cons_of_neg
      intro hc
      exact h (congrArg some (eq_of_beq hc))

/-- The path is the home directory, or goes on from it with a slash. -/
def IsAtHome (home path : String) : Prop :=
  path.toList = trimDirectory home ∨ trimDirectory home ++ ['/'] <+: path.toList

instance (home path : String) : Decidable (IsAtHome home path) :=
  inferInstanceAs (Decidable (_ ∨ _))

/-- What follows the home directory in a path that is not at home goes on with its name. -/
theorem head?_ne_slash_of_not_isAtHome {home path : String} {rest : List Char}
    (h : ¬ IsAtHome home path) (hpath : path.toList = trimDirectory home ++ rest) :
    rest.head? ≠ some '/' := by
  intro hhead
  obtain ⟨rest, rfl⟩ := List.head?_eq_some_iff.1 hhead
  exact h (.inr ⟨rest, by rw [hpath, List.append_assoc]; rfl⟩)

/-- **A path is shown as it is** exactly if it does not begin with the characters of the home
directory.  If it does and is not at home, it names something beside the home directory, whose own
name goes on where that of the home directory ends; and the rest of that name is all that is
shown. -/
theorem visiblePath_eq_self_iff {home path : String} (hpath : path.toList.head? ≠ some '/')
    (hhome : trimDirectory home ≠ []) :
    (visiblePath path home = path ↔ ¬ trimDirectory home <+: path.toList) ∧
      (¬ IsAtHome home path → ∀ rest : String,
        path.toList = trimDirectory home ++ rest.toList → visiblePath path home = rest) := by
  refine ⟨⟨?_, fun hstart => ?_⟩, fun hout rest heq => ?_⟩
  · -- What is shown would be shorter than the path, by the home directory at least.
    rintro hself ⟨rest, heq⟩
    have hshown := toList_visiblePath_of_append heq.symm
    rw [hself, ← heq] at hshown
    have hlength := congrArg List.length hshown
    have hle := (List.dropWhile_sublist (· == '/') (l := rest)).length_le
    have hpos := List.length_pos_iff.2 hhome
    rw [List.length_append] at hlength
    omega
  · apply String.toList_inj.1
    rw [toList_visiblePath_of_not_append hstart]
    exact dropWhile_slash_of_head?_ne hpath
  · apply String.toList_inj.1
    rw [toList_visiblePath_of_append heq]
    exact dropWhile_slash_of_head?_ne (head?_ne_slash_of_not_isAtHome hout heq)

/-- A directory whose name begins with that of the home directory loses this part of it. -/
theorem visiblePath_eq_self_iff_srcgen :
    visiblePath "srcgen/x.rs" "src/" = "gen/x.rs" ∧
    visiblePath "lib/src/x.rs" "src/" = "lib/src/x.rs" :=
  ⟨(visiblePath_eq_self_iff (by decide) (by decide)).2 (by decide) "gen/x.rs" (by decide),
    (visiblePath_eq_self_iff (by decide) (by decide)).1.2 (by decide)⟩

/-- Not every path that is not at home is shown as it is. -/
theorem not_forall_visiblePath_eq_self : ¬ ∀ home path : String, path.toList.head? ≠ some '/' →
    trimDirectory home ≠ [] → ¬ IsAtHome home path → visiblePath path home = path := by
  intro h
  have hshown := h "src" "srcgen/x.rs" (by decide) (by decide) (by decide)
  exact absurd hshown (by decide +kernel)

/-! ## Files in the home directory -/

/-- A name of a file or a directory that a command path can spell, without a character that means
something there. -/
def IsPlainName (name : String) : Prop :=
  name ≠ "" ∧ ∀ c ∈ name.toList, c ∉ ['.', '~', '/', '\\']

instance : DecidablePred IsPlainName := fun name =>
  decidable_of_iff (name ≠ "" ∧ (name.toList.all fun c => c ∉ ['.', '~', '/', '\\']) = true)
    (by simp [IsPlainName])

namespace IsPlainName

variable {names : List String}

/-- None of these characters is in any of the names. -/
theorem not_mem (hnames : ∀ name ∈ names, IsPlainName name) {c : Char}
    (hc : c ∈ ['.', '~', '/', '\\']) : ∀ text ∈ names.map String.toList, c ∉ text := by
  intro text htext hmem
  obtain ⟨name, hname, rfl⟩ := List.mem_map.1 htext
  exact (hnames name hname).2 c hmem hc

/-- Nor is it in the names with slashes between them, unless it is a slash. -/
theorem not_mem_intercalate (hnames : ∀ name ∈ names, IsPlainName name) {c : Char}
    (hc : c ∈ ['.', '~', '\\']) : c ∉ ['/'].intercalate (names.map String.toList) := by
  intro hmem
  have hslash : c ≠ '/' := by
    rintro rfl
    exact absurd hc (by decide)
  have hspecial : c ∈ ['.', '~', '/', '\\'] := by
    simp only [List.mem_cons, List.not_mem_nil, or_false] at hc ⊢
    tauto
  cases names with
  | nil => cases hmem
  | cons name names =>
      rw [List.map_cons, Text.intercalate_singleton_cons, List.mem_append,
        List.mem_flatMap] at hmem
      rcases hmem with hmem | ⟨text, htext, hmem⟩
      · exact not_mem hnames hspecial _ List.mem_cons_self hmem
      · rcases List.mem_cons.1 hmem with heq | hmem
        · exact hslash heq
        · exact not_mem hnames hspecial text (List.mem_cons_of_mem _ htext) hmem

/-- The names do not begin with a slash. -/
theorem head?_intercalate_ne (hne : names ≠ []) (hnames : ∀ name ∈ names, IsPlainName name)
    (rest : List Char) :
    (['/'].intercalate (names.map String.toList) ++ rest).head? ≠ some '/' := by
  obtain ⟨first, more, rfl⟩ := List.exists_cons_of_ne_nil hne
  obtain ⟨hfirst, -⟩ := hnames first List.mem_cons_self
  obtain ⟨c, cs, hcs⟩ := List.exists_cons_of_ne_nil (mt String.toList_eq_nil_iff.1 hfirst)
  have hslash := not_mem hnames (c := '/') (by decide) _ List.mem_cons_self
  rw [hcs] at hslash
  rw [List.map_cons, Text.intercalate_singleton_cons, hcs]
  rintro ⟨⟩
  exact hslash List.mem_cons_self

end IsPlainName

/-- What a command path stands for that begins at the home directory and goes on through names. -/
theorem expandPath_home {names : List String} (hne : names ≠ [])
    (hnames : ∀ name ∈ names, IsPlainName name) (home : String) :
    expandPath home ("~." ++ ".".intercalate names) =
      trimDirectory home ++ ((if home = "" then [] else ['/']) ++
        ['/'].intercalate (names.map String.toList)) := by
  have hslashed : Text.substitute '.' ['/'] ("~." ++ ".".intercalate names).toList =
      '~' :: '/' :: ['/'].intercalate (names.map String.toList) := by
    rw [String.toList_append, String.toList_intercalate]
    show Text.substitute '.' ['/'] ('~' :: '.' :: ['.'].intercalate (names.map String.toList)) = _
    rw [Text.substitute_cons_of_ne (by decide), Text.substitute_cons_self,
      Text.substitute_intercalate (IsPlainName.not_mem hnames (by decide))]
    rfl
  by_cases hhome : home = ""
  · have hfront := IsPlainName.head?_intercalate_ne hne hnames []
    rw [List.append_nil] at hfront
    rw [hhome, if_pos rfl, List.nil_append, expandPath_empty, hslashed,
      List.dropWhile_cons_of_pos rfl, List.dropWhile_cons_of_neg (by decide),
      List.dropWhile_cons_of_pos rfl]
    exact dropWhile_slash_of_head?_ne hfront
  · have htilde : '~' ∉ '/' :: ['/'].intercalate (names.map String.toList) := by
      rw [List.mem_cons, not_or]
      exact ⟨by decide, IsPlainName.not_mem_intercalate hnames (by decide)⟩
    rw [if_neg hhome, expandPath_of_ne hhome, hslashed, Text.substitute_cons_self,
      Text.substitute_of_not_mem htilde]
    rfl

/-- A directory without slashes at its end has no characters that it did not have. -/
theorem not_mem_trimDirectory {c : Char} {directory : String} (h : c ∉ directory.toList) :
    c ∉ trimDirectory directory := by
  unfold trimDirectory
  rw [List.mem_reverse]
  intro hmem
  exact h (List.mem_reverse.1 ((List.dropWhile_sublist _).subset hmem))

namespace Location

variable {settings : Settings}

/-- Links have a file as it is, if no backslash is in it. -/
theorem unixPath_of_not_mem {location : Location} (h : '\\' ∉ location.file.text.toList) :
    location.unixPath = location.file.text := by
  unfold unixPath Text.onChars
  rw [Text.substitute_of_not_mem h, String.ofList_toList]

/-- **A file in the home directory is shown by its names.**  A command path of `~` and names, with
dots between them, stands for the file that these names lead to from the home directory, with
slashes between them and the extension behind them.  Of this file, whether it is there or not,
readers are shown the names and the extension, and nothing of the home directory, whatever that is.
-/
theorem visiblePath_unixPath_of_home (hhome : '\\' ∉ settings.home.toList)
    (hextension : '\\' ∉ settings.extension.toList) {names : List String} (hne : names ≠ [])
    (hnames : ∀ name ∈ names, IsPlainName name) {command : Command}
    (hpath : command.path = "~." ++ ".".intercalate names) (fs : FileSystem) (root : Path)
    (url : String) :
    ∃ location, resolve fs settings root url command =
        (if fs.isFile location.sourcePath then .ok location
          else .error (.fileNotFound location.sourcePath)) ∧
      location.unixPath = String.ofList (trimDirectory settings.home) ++
        ((if settings.home = "" then "" else "/") ++
          ("/".intercalate names ++ "." ++ settings.extension)) ∧
      visiblePath location.unixPath settings.home =
        "/".intercalate names ++ "." ++ settings.extension := by
  let gap : List Char := if settings.home = "" then [] else ['/']
  let shown : List Char :=
    ['/'].intercalate (names.map String.toList) ++ '.' :: settings.extension.toList
  have hgap : (if settings.home = "" then "" else "/" : String).toList = gap := by
    rw [apply_ite String.toList]
    rfl
  have hshown : ("/".intercalate names ++ "." ++ settings.extension).toList = shown := by
    rw [String.toList_append, String.toList_append, String.toList_intercalate, List.append_assoc]
    rfl
  have hfile : (ofCommand settings root url command).file.text.toList =
      trimDirectory settings.home ++ (gap ++ shown) := by
    rw [toList_file, hpath, expandPath_home hne hnames]
    simp only [List.append_assoc, shown, gap]
  have hslashes : ∀ c ∈ gap, (c == '/') = true := by
    unfold gap
    split <;> simp
  have hslash : '\\' ∉ (ofCommand settings root url command).file.text.toList := by
    have hnames := IsPlainName.not_mem_intercalate hnames (c := '\\') (by decide)
    rw [hfile, List.mem_append, List.mem_append, List.mem_append, List.mem_cons]
    rintro (hmem | hmem | hmem | hmem | hmem)
    · exact not_mem_trimDirectory hhome hmem
    · exact absurd (hslashes _ hmem) (by decide)
    · exact hnames hmem
    · exact absurd hmem (by decide)
    · exact hextension hmem
  have hunix := unixPath_of_not_mem hslash
  have hhidden : (gap ++ shown).dropWhile (· == '/') = shown := by
    have hfront : shown.head? ≠ some '/' := IsPlainName.head?_intercalate_ne hne hnames _
    rw [List.dropWhile_append_of_pos hslashes, dropWhile_slash_of_head?_ne hfront]
  refine ⟨ofCommand settings root url command, rfl, ?_, ?_⟩
  · apply String.toList_inj.1
    rw [hunix, hfile, String.toList_append, String.toList_append, String.toList_ofList, hgap,
      hshown]
  · apply String.toList_inj.1
    rw [toList_visiblePath_of_append (by rw [hunix, hfile]), hhidden, hshown]

/-- A home directory of several parts with `~` and dots in them, and slashes at its end. -/
theorem visiblePath_unixPath_of_home_nested : ∃ location,
    resolve ⟨[], []⟩ { home := "./~src.d//" } ⟨"r"⟩ "u" ⟨.signature, "~.render.mesh", "Mesh"⟩ =
      (if (⟨[], []⟩ : FileSystem).isFile location.sourcePath then .ok location
        else .error (.fileNotFound location.sourcePath)) ∧
    location.unixPath = "./~src.d/render/mesh.rs" ∧
    visiblePath location.unixPath "./~src.d//" = "render/mesh.rs" :=
  @visiblePath_unixPath_of_home { home := "./~src.d//" } (by decide) (by decide) ["render", "mesh"]
    (by decide) (by decide +kernel) ⟨.signature, "~.render.mesh", "Mesh"⟩ (by decide) ⟨[], []⟩
    ⟨"r"⟩ "u"

end Location

end LiveExcerpts
