import LiveExcerpts.Proofs.Files.Walk
/-!
# What writing changes

Making directories puts some where nothing stood, and changes nothing else.  Writing a text puts a
regular file where its path leads, and the path leads to that file from then on.

Main definitions: `FileSystem.fileAt?`, `FileSystem.MoreDirectories`, `FileSystem.Wrote`.  Main
statements: `FileSystem.moreDirectories_makeDirectories`, `FileSystem.walk_put_file`,
`FileSystem.exists_put_of_writeText`.
-/

namespace LiveExcerpts

namespace FileSystem

variable {fs fs' : FileSystem}

/-- The regular file at a place. -/
def fileAt? (fs : FileSystem) (place : Place) : Option Contents :=
  match fs.lookup? place with
  | some (.file contents) => some contents
  | _ => none

/-! ## Where walks end -/

/-- The place of a spot. -/
def Spot.place : Spot → Place
  | .occupied place _ => place
  | .vacant place => place

/-- What a spot says of its place. -/
def Spot.entry? : Spot → Option Entry
  | .occupied _ entry => some entry
  | .vacant _ => none

/-- **A walk tells the truth** about the place where it ends. -/
theorem lookup?_of_walk {follow : Bool} {links : Nat} {here : Place} {todo : List String}
    {spot : Spot} (h : fs.walk follow links here todo = .ok spot) :
    fs.lookup? spot.place = spot.entry? := by
  fun_induction walk fs follow links here todo with
  | case1 links here entry hhere =>
      obtain rfl := Except.ok.inj h
      exact hhere
  | case6 links here name rest hhere hskip ih => exact ih h
  | case7 links here rest hhere hskip ih => exact ih h
  | case9 links here name rest hhere hskip hup hsize hnone hlast =>
      obtain rfl := Except.ok.inj h
      exact hnone
  | case11 links here name rest hhere hskip hup hsize target htarget hfollow =>
      obtain rfl := Except.ok.inj h
      exact htarget
  | case13 here name rest hhere hskip hup hsize target htarget hfollow links ih => exact ih h
  | case14 links here name rest hhere hskip hup hsize found hlink hfound ih => exact ih h
  | _ => cases h

theorem lookup?_of_spot {follow : Bool} {p : Path} {spot : Spot}
    (h : fs.spot follow p = .ok spot) : fs.lookup? spot.place = spot.entry? :=
  lookup?_of_walk (walk_of_spot h)

/-- Whether a link at the end is followed makes no difference, unless there is one. -/
theorem walk_false_eq_or (fs : FileSystem) (links : Nat) (here : Place) (todo : List String) :
    fs.walk false links here todo = fs.walk true links here todo ∨
      ∃ place target, fs.walk false links here todo = .ok (.occupied place (.link target)) := by
  fun_induction walk fs false links here todo with
  | case1 links here entry hhere => simp [walk, hhere]
  | case2 links here hhere => simp [walk, hhere]
  | case3 links here name rest hhere => simp [walk, hhere]
  | case4 links here name rest contents hhere => simp [walk, hhere]
  | case5 links here name rest target hhere => simp [walk, hhere]
  | case6 links here name rest hhere hskip ih =>
      rw [walk_skip hhere hskip]
      exact ih
  | case7 links here rest hhere hskip ih =>
      rw [walk_up hhere]
      exact ih
  | case8 links here name rest hhere hskip hup hsize => simp [walk, hhere, hskip, hup, hsize]
  | case9 links here name rest hhere hskip hup hsize hnone hlast =>
      simp [walk_name hhere hskip hup hsize, hnone, hlast]
  | case10 links here name rest hhere hskip hup hsize hnone hlast =>
      simp [walk_name hhere hskip hup hsize, hnone, hlast]
  | case11 links here name rest hhere hskip hup hsize target htarget hfollow =>
      exact .inr ⟨_, _, rfl⟩
  | case12 here name rest hhere hskip hup hsize target htarget hfollow =>
      simp [walk_name hhere hskip hup hsize, htarget]
  | case13 here name rest hhere hskip hup hsize target htarget hfollow links ih =>
      have htrue : fs.walk true (links + 1) here (name :: rest) =
          fs.walk true links (if (Path.mk target).isAbsolute then [] else here)
            ((Path.mk target).parts ++ rest) := by
        simp [walk_name hhere hskip hup hsize, htarget]
      rw [htrue]
      exact ih
  | case14 links here name rest hhere hskip hup hsize found hlink hfound ih =>
      rw [walk_down hhere hskip hup hsize hfound hlink]
      exact ih

/-! ## More directories -/

/-- What stands stays, and what is new are directories. -/
structure MoreDirectories (fs fs' : FileSystem) : Prop where
  /-- Relative paths start at the same place. -/
  workingDirectory : fs'.workingDirectory = fs.workingDirectory
  /-- At every place stands what stood there, or a directory where nothing stood. -/
  lookup? : ∀ place, fs'.lookup? place = fs.lookup? place ∨
    fs.lookup? place = none ∧ fs'.lookup? place = some .directory

namespace MoreDirectories

theorem refl (fs : FileSystem) : fs.MoreDirectories fs := ⟨rfl, fun _ => .inl rfl⟩

theorem trans {fs'' : FileSystem} (h : fs.MoreDirectories fs') (h' : fs'.MoreDirectories fs'') :
    fs.MoreDirectories fs'' := by
  refine ⟨h'.workingDirectory.trans h.workingDirectory, fun place => ?_⟩
  rcases h'.lookup? place with heq | ⟨hnone, hdirectory⟩
  · rw [heq]
    exact h.lookup? place
  · rcases h.lookup? place with heq | ⟨-, hdirectory'⟩
    · exact .inr ⟨heq ▸ hnone, hdirectory⟩
    · rw [hnone] at hdirectory'
      cases hdirectory'

/-- Regular files and links stay as they are, and none is new. -/
theorem lookup?_eq_some_iff (h : fs.MoreDirectories fs') {place : Place} {entry : Entry}
    (hentry : entry ≠ .directory) :
    fs'.lookup? place = some entry ↔ fs.lookup? place = some entry := by
  rcases h.lookup? place with heq | ⟨hnone, hdirectory⟩
  · rw [heq]
  · rw [hnone, hdirectory]
    simpa using Ne.symm hentry

theorem fileAt? (h : fs.MoreDirectories fs') (place : Place) :
    fs'.fileAt? place = fs.fileAt? place := by
  unfold FileSystem.fileAt?
  rcases h.lookup? place with heq | ⟨hnone, hdirectory⟩
  · rw [heq]
  · rw [hnone, hdirectory]

end MoreDirectories

theorem spot_of_siteOf {p : Path} {spot : Spot} (h : fs.siteOf p = .ok spot) :
    fs.spot false (dropSlashes p) = .ok spot := by
  unfold siteOf at h
  split at h
  · cases h
  · exact h

theorem moreDirectories_makeDirectory (p : Path) (fs : FileSystem) :
    fs.MoreDirectories (fs.makeDirectory p).2 := by
  unfold makeDirectory
  split
  · next place hspot =>
      have hnone : fs.lookup? place = none := lookup?_of_spot (spot_of_siteOf hspot)
      refine ⟨rfl, fun other => ?_⟩
      by_cases hother : other = place
      · subst hother
        have hroot : other ≠ [] := by
          rintro rfl
          cases hnone
        exact .inr ⟨hnone, lookup?_put_self hroot .directory fs⟩
      · exact .inl (lookup?_put_of_ne hother .directory fs)
  · exact .refl fs
  · exact .refl fs

theorem moreDirectories_makeFirst (paths : List Path) (fs : FileSystem) :
    fs.MoreDirectories (makeFirst paths fs).2 := by
  induction paths generalizing fs with
  | nil => exact .refl fs
  | cons p above ih =>
      have hp := fs.moreDirectories_makeDirectory p
      have habove := ih fs
      unfold makeFirst
      split
      · next fs₁ hmade =>
          rw [hmade] at hp
          exact hp
      · split
        · next cause fs₁ hmade =>
            rw [hmade] at habove
            exact habove
        · next fs₁ hmade =>
            rw [hmade] at habove
            have hagain := habove.trans (fs₁.moreDirectories_makeDirectory p)
            split
            · next fs₂ hlast =>
                rw [hlast] at hagain
                exact hagain
            · next cause fs₂ hlast =>
                rw [hlast] at hagain
                exact hagain
      · next cause fs₁ _ hmade => exact .refl fs

/-- **Making directories adds directories and changes nothing else.** -/
theorem moreDirectories_makeDirectories (p : Path) (fs : FileSystem) :
    fs.MoreDirectories (fs.makeDirectories p).2 :=
  moreDirectories_makeFirst p.ancestors fs

/-! ## Writing a text -/

/-- The entry of a spot, if there is one, is a regular file: it can be written to. -/
def Spot.IsFree (spot : Spot) : Prop :=
  ∀ entry, spot.entry? = some entry → ∃ contents, entry = .file contents

/-- **A walk to a free spot leads to the file that is put there.** -/
theorem walk_put_file {follow : Bool} {links : Nat} {here : Place} {todo : List String}
    {spot : Spot} (h : fs.walk follow links here todo = .ok spot) (hfree : spot.IsFree)
    (contents : Contents) :
    (fs.put spot.place (.file contents)).walk follow links here todo =
      .ok (.occupied spot.place (.file contents)) := by
  have hentry : ∀ {entry}, fs.lookup? spot.place = some entry → ∃ c, entry = .file c :=
    fun {entry} he => hfree entry ((lookup?_of_walk h).symm.trans he)
  have hself : (fs.put spot.place (.file contents)).lookup? spot.place = some (.file contents) := by
    apply lookup?_put_self
    intro hroot
    have hdirectory : fs.lookup? spot.place = some .directory := by
      rw [hroot]
      rfl
    obtain ⟨c, hc⟩ := hentry hdirectory
    cases hc
  have hother : ∀ other, other ≠ spot.place →
      (fs.put spot.place (.file contents)).lookup? other = fs.lookup? other :=
    fun other hne => lookup?_put_of_ne hne _ fs
  generalize fs.put spot.place (.file contents) = fs' at hself hother
  have hkept : ∀ {place entry}, fs.lookup? place = some entry → (∀ c, entry ≠ .file c) →
      fs'.lookup? place = some entry := by
    intro place entry hplace hfile
    rw [hother]
    · exact hplace
    · rintro rfl
      obtain ⟨c, hc⟩ := hentry hplace
      exact hfile c hc
  have hdirectory : ∀ {place}, fs.lookup? place = some .directory →
      fs'.lookup? place = some .directory := fun hplace => hkept hplace (by simp)
  fun_induction walk fs follow links here todo with
  | case1 links here found hhere =>
      obtain rfl := Except.ok.inj h
      exact walk_nil hself
  | case6 links here name rest hhere hskip ih =>
      rw [walk_skip (hdirectory hhere) hskip]
      exact ih h
  | case7 links here rest hhere hskip ih =>
      rw [walk_up (hdirectory hhere)]
      exact ih h
  | case9 links here name rest hhere hskip hup hsize hnone hlast =>
      obtain rfl := Except.ok.inj h
      obtain rfl := List.isEmpty_iff.1 hlast
      rw [walk_down (hdirectory hhere) hskip hup hsize hself (by simp)]
      exact walk_nil hself
  | case11 links here name rest hhere hskip hup hsize target htarget hfollow =>
      obtain rfl := Except.ok.inj h
      obtain ⟨c, hc⟩ := hfree (.link target) rfl
      cases hc
  | case13 here name rest hhere hskip hup hsize target htarget hfollow links ih =>
      rw [walk_name (hdirectory hhere) hskip hup hsize, hkept htarget (by simp)]
      dsimp only
      rw [if_neg hfollow]
      exact ih h
  | case14 links here name rest hhere hskip hup hsize found hlink hfound ih =>
      -- What stands at the name is the file that was put there, or what stood there before.
      obtain ⟨found', hfound', hlink'⟩ : ∃ found', fs'.lookup? (here ++ [name]) = some found' ∧
          ∀ target, found' ≠ .link target := by
        by_cases hplace : here ++ [name] = spot.place
        · exact ⟨.file contents, hplace ▸ hself, by simp⟩
        · exact ⟨found, (hother _ hplace).trans hfound, fun target => hlink target⟩
      rw [walk_down (hdirectory hhere) hskip hup hsize hfound' hlink']
      exact ih h
  | _ => cases h

/-- A written text is put at a free spot, to which the path leads. -/
theorem exists_put_of_writeText {p : Path} {text : String}
    (h : fs.writeText p text = (.ok (), fs')) :
    ∃ spot, fs.spot true p = .ok spot ∧ spot.IsFree ∧
      fs' = fs.put spot.place (.file (.text text)) := by
  unfold writeText at h
  split at h
  · next place hspot =>
      exact ⟨_, hspot, nofun, (Prod.mk.inj h).2.symm⟩
  · next place contents hspot =>
      refine ⟨_, hspot, ?_, (Prod.mk.inj h).2.symm⟩
      intro entry hentry
      exact ⟨contents, (Option.some.inj hentry).symm⟩
  · cases h
  · cases h
  · cases h

/-- A text was written to a path: the path leads to the text, at a place, and at no other place is
a regular file another than before.  That place is the path's own, unless a link stood there. -/
structure Wrote (p : Path) (text : String) (place : Place) (fs fs' : FileSystem) : Prop where
  /-- The path leads to the text. -/
  leads : fs'.spot true p = .ok (.occupied place (.file (.text text)))
  /-- The other regular files are the same. -/
  others : ∀ other, other ≠ place → fs'.fileAt? other = fs.fileAt? other
  /-- Without following a link at its end, the path leads to the same place, or to a link that
  stood there before. -/
  own : ∃ spot, fs'.spot false p = .ok spot ∧
    (spot.place = place ∨ ∃ target, fs.lookup? spot.place = some (.link target))

/-- **A text that is written where more directories have been made** is the one regular file that
changes. -/
theorem exists_wrote_of_writeText {p : Path} {text : String} {fs₁ : FileSystem}
    (hmore : fs.MoreDirectories fs₁) (h : fs₁.writeText p text = (.ok (), fs')) :
    ∃ place, Wrote p text place fs fs' := by
  obtain ⟨spot, hspot, hfree, rfl⟩ := exists_put_of_writeText h
  have hwalk := walk_put_file (walk_of_spot hspot) hfree (.text text)
  have hspot_eq : ∀ follow, (fs₁.put spot.place (.file (.text text))).spot follow p =
      (fs₁.put spot.place (.file (.text text))).walk follow maxLinks (fs₁.startOf p) p.parts := by
    intro follow
    unfold FileSystem.spot
    rw [fault?_eq_none_of_spot hspot]
    rfl
  refine ⟨spot.place, (hspot_eq true).trans hwalk, fun other hother => ?_, ?_⟩
  · rw [← hmore.fileAt? other]
    unfold fileAt?
    rw [lookup?_put_of_ne hother]
  · rw [hspot_eq false]
    rcases walk_false_eq_or (fs₁.put spot.place (.file (.text text))) maxLinks (fs₁.startOf p)
      p.parts with hsame | ⟨own, target, hlink⟩
    · exact ⟨_, hsame.trans hwalk, .inl rfl⟩
    · -- A link at the end of the path is not the file that was put, so it stood there before.
      have hown : (fs₁.put spot.place (.file (.text text))).lookup? own = some (.link target) :=
        lookup?_of_walk hlink
      have hne : Entry.link target ≠ .directory := nofun
      refine ⟨_, hlink, .inr ⟨target, (hmore.lookup?_eq_some_iff hne).1 ?_⟩⟩
      by_cases hplace : own = spot.place
      · have hself : (fs₁.put spot.place (.file (.text text))).lookup? spot.place =
            some (.file (.text text)) := lookup?_of_walk hwalk
        rw [hplace, hself] at hown
        cases hown
      · rwa [lookup?_put_of_ne hplace] at hown

end FileSystem

end LiveExcerpts
