import LiveExcerpts.Proofs.Builds.Apart
/-!
# Pages on top of a file system

All that a build does to its files is to make the directory of the pages, once, and to put pages on
top.  Pages of scenarios with different names have different places, and none of them changes which
directories there are.

Main definitions: `Build.Fits`, `Build.Paged`.  Main statements: `Build.eq_of_placeOf_path_eq`,
`Build.Paged.evolved`, `Build.Paged.put`.
-/

namespace LiveExcerpts

/-! ## The places of pages -/

namespace Path

/-- A file name has no slashes. -/
theorem slash_not_mem_of_fileName? {p : Path} {name : String} (h : p.fileName? = some name) :
    '/' ∉ name.toList := by
  have hmem : Component.name name ∈ p.components := by
    unfold fileName? at h
    split at h
    · next text hlast =>
        obtain rfl := Option.some.inj h
        exact List.mem_of_getLast? hlast
    · cases h
  obtain ⟨first, hcomponents, hfirst⟩ := p.components_eq
  rw [hcomponents, List.mem_append] at hmem
  rcases hmem with hmem | hmem
  · rcases hfirst with rfl | ⟨rfl, -⟩ | ⟨rfl, -⟩ <;> simp at hmem
  · exact (isPart_of_mem hmem).2

end Path

namespace Build

variable {output path path' : Path} {paths : List Path} {fs₀ fs₁ fs : FileSystem}

/-- A page is right in some directory, under the name of its scenario. -/
theorem exists_placeOf_path (fs : FileSystem) (output : Path) {name : String}
    (hname : path.fileName? = some name) :
    ∃ front, fs.placeOf (Page.path output path) = front ++ [name ++ ".html"] := by
  have hslash : '/' ∉ (name ++ ".html").toList := by
    rw [String.toList_append, List.mem_append]
    rintro (h | h)
    · exact Path.slash_not_mem_of_fileName? hname h
    · exact absurd h (by decide)
  have hlong : ∀ part : String, part.toList.length < 5 → name ++ ".html" ≠ part := by
    rintro part hpart rfl
    rw [String.toList_append, List.length_append] at hpart
    have hsuffix : ".html".toList.length = 5 := rfl
    omega
  obtain ⟨front, hparts⟩ := output.exists_parts_join hslash
  refine ⟨Place.follow (fs.startOf (Page.path output path)) front, ?_⟩
  unfold FileSystem.placeOf
  have hpath : (Page.path output path).parts = front ++ [name ++ ".html"] := by
    unfold Page.path
    rw [hname]
    exact hparts
  rw [hpath, Place.follow_append]
  -- With its extension a name is too long to be one of the parts that mean something else.
  apply Place.step_of_name
  · rintro (h | h)
    · exact hlong "" (by decide) h
    · exact hlong "." (by decide) h
  · exact hlong ".." (by decide)

/-- Things with different names are different. -/
theorem eq_of_nodup_filterMap {α β : Type} {f : α → Option β} {inputs : List α}
    (h : (inputs.filterMap f).Nodup) {a b : α} {name : β} (ha : a ∈ inputs) (hb : b ∈ inputs)
    (hfa : f a = some name) (hfb : f b = some name) : a = b := by
  by_contra hab
  have hpairwise := List.pairwise_filterMap.1 h
  have hsymm : Std.Symm fun c d : α => ∀ x, f c = some x → ∀ y, f d = some y → x ≠ y :=
    ⟨fun c d hcd x hx y hy => (hcd y hy x hx).symm⟩
  exact hpairwise.forall ha hb hab name hfa name hfb rfl

/-- **Scenarios with different names have pages at different places.** -/
theorem eq_of_placeOf_path_eq (hnames : (paths.filterMap Path.fileName?).Nodup)
    (hpath : path ∈ paths) (hpath' : path' ∈ paths) {name name' : String}
    (hname : path.fileName? = some name) (hname' : path'.fileName? = some name')
    (hplace : fs.placeOf (Page.path output path) = fs.placeOf (Page.path output path')) :
    path = path' := by
  obtain ⟨front, hfront⟩ := exists_placeOf_path fs output hname
  obtain ⟨front', hfront'⟩ := exists_placeOf_path fs output hname'
  rw [hfront, hfront'] at hplace
  have hhtml := (List.append_inj' hplace rfl).2
  obtain rfl : name = name' :=
    (String.append_left_inj ".html").1 (List.cons.inj hhtml).1
  exact eq_of_nodup_filterMap hnames hpath hpath' hname hname'

/-! ## Files with pages on top -/

/-- The page of a scenario can be written where the directory of pages has been made. -/
def Fits (output : Path) (fs₁ : FileSystem) (path : Path) : Prop :=
  fs₁.Passes (Page.path output path) ∧
    fs₁.lookup? (fs₁.placeOf (Page.path output path)) ≠ some .directory

instance (output : Path) (fs₁ : FileSystem) (path : Path) : Decidable (Fits output fs₁ path) :=
  inferInstanceAs (Decidable (_ ∧ _))

/-- The files `fs` are the files `fs₁` with some pages on top. -/
structure Paged (fs₁ : FileSystem) (pages : Place → String → Prop) (fs : FileSystem) : Prop where
  /-- Relative paths start at the same place. -/
  workingDirectory : fs.workingDirectory = fs₁.workingDirectory
  /-- The pages are there. -/
  page : ∀ place html, pages place html → fs.lookup? place = some (.file (.text html))
  /-- Everything else is as it was. -/
  rest : ∀ place, (∀ html, ¬ pages place html) → fs.lookup? place = fs₁.lookup? place

/-- The pages are pages of these scenarios and can be written. -/
def ArePages (output : Path) (paths : List Path) (fs₁ : FileSystem)
    (pages : Place → String → Prop) : Prop :=
  ∀ place html, pages place html →
    ∃ path ∈ paths, place = fs₁.placeOf (Page.path output path) ∧ Fits output fs₁ path

theorem Paged.refl (fs : FileSystem) : Paged fs (fun _ _ => False) fs :=
  ⟨rfl, nofun, fun _ _ => rfl⟩

section Paged

variable {pages : Place → String → Prop} (h : Paged fs₁ pages fs)
  (hpages : ArePages output paths fs₁ pages)
include h hpages

/-- **Pages change nothing about directories.** -/
theorem Paged.lookup?_eq_directory_iff (place : Place) :
    fs.lookup? place = some .directory ↔ fs₁.lookup? place = some .directory := by
  by_cases hpage : ∃ html, pages place html
  · obtain ⟨html, hhtml⟩ := hpage
    obtain ⟨path, -, hplace, -, hfree⟩ := hpages place html hhtml
    rw [← hplace] at hfree
    rw [h.page _ _ hhtml]
    exact iff_of_false nofun hfree
  · rw [h.rest place fun html hhtml => hpage ⟨html, hhtml⟩]

theorem Paged.isPlain (hplain : fs₁.IsPlain) : fs.IsPlain := by
  have hdirectory := h.lookup?_eq_directory_iff hpages
  refine ⟨⟨fun place name hname => ?_, ?_⟩, fun place target => ?_⟩
  · rw [hdirectory]
    by_cases hpage : ∃ html, pages (place ++ [name]) html
    · obtain ⟨html, hhtml⟩ := hpage
      obtain ⟨path, -, hplace, hpasses, hfree⟩ := hpages _ html hhtml
      have hparent := (hplain.lookup?_dropLast_placeOf hpasses.2 hfree).2
      rwa [← hplace, List.dropLast_concat] at hparent
    · rw [h.rest _ fun html hhtml => hpage ⟨html, hhtml⟩] at hname
      exact hplain.parent place name hname
  · rw [hdirectory, h.workingDirectory]
    exact hplain.workingDirectory
  · by_cases hpage : ∃ html, pages place html
    · obtain ⟨html, hhtml⟩ := hpage
      rw [h.page _ _ hhtml]
      exact nofun
    · rw [h.rest place fun html hhtml => hpage ⟨html, hhtml⟩]
      exact hplain.noLink place target

/-- Whether a page can be written does not depend on the pages that are there. -/
theorem Paged.fits_iff (path : Path) : Fits output fs path ↔ Fits output fs₁ path := by
  have hdirectory := h.lookup?_eq_directory_iff hpages
  unfold Fits FileSystem.Passes
  rw [FileSystem.startOf_congr h.workingDirectory, FileSystem.placeOf_congr h.workingDirectory,
    ne_eq, hdirectory]
  have hpassable : ∀ here parts, fs.Passable here parts ↔ fs₁.Passable here parts :=
    fun here parts => ⟨fun hp => hp.mono fun place => (hdirectory place).1,
      fun hp => hp.mono fun place => (hdirectory place).2⟩
  rw [hpassable]

/-- What was ready for pages is still ready. -/
theorem Paged.ready (hplain : fs₁.IsPlain) (hready : fs₁.Ready output) : fs.Ready output := by
  have hdirectory := h.lookup?_eq_directory_iff hpages
  intro q hq
  have hq₁ := hready q hq
  rw [hplain.isDirectory_iff] at hq₁
  rw [(h.isPlain hpages hplain).isDirectory_iff, FileSystem.placeOf_congr h.workingDirectory,
    hdirectory]
  refine ⟨⟨hq₁.1.1, ?_⟩, hq₁.2⟩
  rw [FileSystem.startOf_congr h.workingDirectory]
  exact hq₁.1.2.mono fun place => (hdirectory place).2

end Paged

/-- **The files of a build under way**: the directory of pages has been made, as far as that is
possible, and some pages are on top. -/
theorem Paged.evolved {pages : Place → String → Prop} {result : Except IoCause Unit}
    (h₀ : fs₀.IsPlain) (hmake : fs₀.makeDirectories output = (result, fs₁))
    (h : Paged fs₁ pages fs) (hpages : ArePages output paths fs₁ pages) :
    Evolved output paths fs₀ fs := by
  have hmore := fs₀.moreDirectories_makeDirectories output
  rw [hmake] at hmore
  have hplain₁ := (h₀.isPlain_of_makeDirectories hmake).1
  have hdirectory := h.lookup?_eq_directory_iff hpages
  -- Where anything is new, one of the directories above the pages was missing.
  have hcreates : ∀ place, fs₁.lookup? place ≠ fs₀.lookup? place → Creates output fs₀ place := by
    intro place hne
    have hnew : (FileSystem.makeFirst output.ancestors fs₀).2.lookup? place ≠
        fs₀.lookup? place := by
      change (fs₀.makeDirectories output).2.lookup? place ≠ fs₀.lookup? place
      rw [hmake]
      exact hne
    obtain ⟨p, hp, hplace⟩ := h₀.exists_of_lookup?_makeFirst hnew
    refine ⟨p, hp, hplace, ?_⟩
    rcases hmore.lookup? place with heq | ⟨hnone, -⟩
    · exact absurd heq hne
    · exact hnone
  refine ⟨h.isPlain hpages hplain₁, h.workingDirectory.trans hmore.workingDirectory,
    fun place hcreated hwritten => ?_, fun place hplace => ?_, fun place hplace => ?_⟩
  · rw [h.rest place fun html hhtml => ?_]
    · by_contra hne
      exact hcreated (hcreates place hne)
    · obtain ⟨path, hpath, hplace, -⟩ := hpages place html hhtml
      exact hwritten ⟨path, hpath,
        hplace.trans (FileSystem.placeOf_congr hmore.workingDirectory _)⟩
  · rw [hdirectory]
    rcases hmore.lookup? place with heq | ⟨hnone, -⟩
    · rw [heq, hplace]
    · rw [hnone] at hplace
      cases hplace
  · rw [hdirectory] at hplace
    by_cases heq : fs₁.lookup? place = fs₀.lookup? place
    · exact .inl (heq ▸ hplace)
    · exact .inr (hcreates place heq)

/-- **Putting one more page on top**, where there is no other. -/
theorem Paged.put {pages : Place → String → Prop} (h : Paged fs₁ pages fs) {place : Place}
    {html : String} (hroot : place ≠ []) (hother : ∀ other, pages place other → other = html) :
    Paged fs₁ (fun at' text => pages at' text ∨ at' = place ∧ text = html)
      (fs.put place (.file (.text html))) := by
  refine ⟨h.workingDirectory, fun at' text hpage => ?_, fun at' hpage => ?_⟩
  · by_cases heq : at' = place
    · subst heq
      rw [FileSystem.lookup?_put_self hroot]
      rcases hpage with hpage | ⟨-, rfl⟩
      · rw [hother text hpage]
      · rfl
    · rw [FileSystem.lookup?_put_of_ne heq]
      rcases hpage with hpage | ⟨hplace, -⟩
      · exact h.page at' text hpage
      · exact absurd hplace heq
  · have heq : at' ≠ place := fun heq => hpage html (.inr ⟨heq, rfl⟩)
    rw [FileSystem.lookup?_put_of_ne heq]
    exact h.rest at' fun text htext => hpage text (.inl htext)

end Build

end LiveExcerpts
