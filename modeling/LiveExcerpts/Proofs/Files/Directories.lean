import LiveExcerpts.Proofs.Files.Plain
import LiveExcerpts.Proofs.Paths
/-!
# Making directories twice

Where no links stand, making directories a second time changes nothing, and comes to success or
failure as it did the first time.

Main definitions: `FileSystem.Descends`, `FileSystem.Approaches`, `FileSystem.Ready`.  Main
statements: `FileSystem.IsPlain.makeDirectories_of_ready`,
`FileSystem.IsPlain.makeDirectories_again`.
-/

namespace LiveExcerpts

namespace FileSystem

variable {fs fs' : FileSystem}

/-! ## Ways that end in a directory -/

/-- Every place on the way of the parts is a directory, the last one included. -/
def Descends (fs : FileSystem) (here : Place) (parts : List String) : Prop :=
  fs.Passable here parts ∧ fs.lookup? (Place.follow here parts) = some .directory

theorem descends_cons {here : Place} {part : String} {rest : List String} :
    fs.Descends here (part :: rest) ↔ fs.lookup? here = some .directory ∧
      part.utf8ByteSize ≤ 255 ∧ fs.Descends (Place.step here part) rest := by
  unfold Descends
  rw [passable_cons, and_assoc, and_assoc]
  rfl

theorem Descends.lookup?_here {here : Place} {parts : List String}
    (h : fs.Descends here parts) : fs.lookup? here = some .directory := by
  cases parts with
  | nil => exact h.2
  | cons part rest => exact (descends_cons.1 h).1

/-- What is passed on the way to anything is a directory. -/
theorem descends_of_passable_concat {here : Place} {parts : List String} {part : String}
    (h : fs.Passable here (parts ++ [part])) : fs.Descends here parts := by
  obtain ⟨hparts, hlast⟩ := passable_append.1 h
  exact ⟨hparts, (passable_cons.1 hlast).1⟩

theorem size_le_of_skip {part : String} (h : part = "" ∨ part = ".") :
    part.utf8ByteSize ≤ 255 := by
  rcases h with rfl | rfl <;> decide

/-- Only the steps of a path have to be passed. -/
theorem Passable.filter_isStep {here : Place} {parts : List String}
    (h : fs.Passable here parts) : fs.Passable here (parts.filter Path.isStep) := by
  induction h with
  | nil => exact .nil
  | @cons here part rest hhere hsize _ ih =>
      by_cases hskip : part = "" ∨ part = "."
      · rw [List.filter_cons_of_neg (by simp [Path.isStep_eq_false_iff.2 hskip])]
        rwa [Place.step_of_skip hskip] at ih
      · rw [List.filter_cons_of_pos (Path.isStep_of_not hskip)]
        exact .cons hhere hsize ih

/-- Whether a way ends in a directory can be told from its steps. -/
theorem descends_filter_isStep {here : Place} {parts : List String} :
    fs.Descends here (parts.filter Path.isStep) ↔ fs.Descends here parts := by
  induction parts generalizing here with
  | nil => exact Iff.rfl
  | cons part rest ih =>
      rw [descends_cons]
      by_cases hskip : part = "" ∨ part = "."
      · rw [List.filter_cons_of_neg (by simp [Path.isStep_eq_false_iff.2 hskip]), ih,
          Place.step_of_skip hskip]
        exact ⟨fun h => ⟨h.lookup?_here, size_le_of_skip hskip, h⟩, fun h => h.2.2⟩
      · rw [List.filter_cons_of_pos (Path.isStep_of_not hskip), descends_cons, ih]

namespace IsPlain

theorem isDirectory_iff_descends (h : fs.IsPlain) {p : Path} :
    fs.isDirectory p = true ↔ fault? p = none ∧ fs.Descends (fs.startOf p) p.parts := by
  rw [h.isDirectory_iff]
  exact and_assoc

end IsPlain

/-! ## Where a directory would be made -/

/-- The spelling of a path is good and every directory on its way is there, if the slashes at its
end are left out. -/
def Approaches (fs : FileSystem) (p : Path) : Prop :=
  fault? p = none ∧ fs.Passable (fs.startOf p) (dropSlashes p).parts

instance (fs : FileSystem) (p : Path) : Decidable (fs.Approaches p) :=
  inferInstanceAs (Decidable (_ ∧ _))

theorem startOf_dropSlashes (fs : FileSystem) (p : Path) :
    fs.startOf (dropSlashes p) = fs.startOf p := by
  unfold startOf
  rw [p.isAbsolute_dropSlashes]

theorem follow_replicate_empty (here : Place) (k : Nat) :
    Place.follow here (List.replicate k "") = here := by
  induction k with
  | zero => rfl
  | succ k ih =>
      rw [List.replicate_succ]
      exact ih

theorem placeOf_dropSlashes (fs : FileSystem) (p : Path) :
    fs.placeOf (dropSlashes p) = fs.placeOf p := by
  obtain ⟨k, hparts⟩ := p.exists_parts_eq_dropSlashes
  unfold placeOf
  rw [hparts, Place.follow_append, follow_replicate_empty, startOf_dropSlashes]

theorem Passes.approaches {p : Path} (h : fs.Passes p) : fs.Approaches p := by
  obtain ⟨k, hparts⟩ := p.exists_parts_eq_dropSlashes
  obtain ⟨hfault, hpassable⟩ := h
  rw [hparts, passable_append] at hpassable
  exact ⟨hfault, hpassable.1⟩

/-- A directory may be asked for with slashes at its end. -/
theorem Approaches.passes {p : Path} (h : fs.Approaches p)
    (hdirectory : fs.lookup? (fs.placeOf p) = some .directory) : fs.Passes p := by
  obtain ⟨k, hparts⟩ := p.exists_parts_eq_dropSlashes
  obtain ⟨hfault, hpassable⟩ := h
  refine ⟨hfault, ?_⟩
  rw [← placeOf_dropSlashes] at hdirectory
  unfold placeOf at hdirectory
  rw [startOf_dropSlashes] at hdirectory
  rw [hparts, passable_append]
  refine ⟨hpassable, ?_⟩
  clear hparts hpassable
  induction k with
  | zero => exact .nil
  | succ k ih => exact .cons hdirectory (by decide) ih

namespace IsPlain

theorem siteOf_eq_ok_iff (h : fs.IsPlain) {p : Path} {spot : Spot} :
    fs.siteOf p = .ok spot ↔ fs.Approaches p ∧ spot = fs.spotAt (fs.placeOf p) := by
  unfold siteOf Approaches
  cases hfault : fault? p with
  | some cause => simp
  | none =>
      simp only [h.spot_eq_ok_iff, Passes, placeOf_dropSlashes, startOf_dropSlashes,
        Path.fault?_dropSlashes hfault, true_and]

theorem isDirectory_of_approaches (h : fs.IsPlain) {p : Path} (hp : fs.Approaches p)
    (hdirectory : fs.lookup? (fs.placeOf p) = some .directory) : fs.isDirectory p = true :=
  h.isDirectory_iff.2 ⟨hp.passes hdirectory, hdirectory⟩

theorem approaches_of_isDirectory (h : fs.IsPlain) {p : Path} (hp : fs.isDirectory p = true) :
    fs.Approaches p := (h.isDirectory_iff.1 hp).1.approaches

/-- What is a directory is not made. -/
theorem makeDirectory_of_isDirectory (h : fs.IsPlain) {p : Path}
    (hp : fs.isDirectory p = true) : fs.makeDirectory p = (.error .alreadyExists, fs) := by
  have hsite := h.siteOf_eq_ok_iff.2 ⟨h.approaches_of_isDirectory hp, rfl⟩
  unfold spotAt at hsite
  rw [(h.isDirectory_iff.1 hp).2] at hsite
  unfold makeDirectory
  rw [hsite]

/-- **A directory is made where there is nothing**, in a directory that exists. -/
theorem makeDirectory_of_vacant (h : fs.IsPlain) {p : Path} (hp : fs.Approaches p)
    (hvacant : fs.lookup? (fs.placeOf p) = none) :
    fs.makeDirectory p = (.ok (), fs.put (fs.placeOf p) .directory) ∧
      (fs.put (fs.placeOf p) .directory).IsPlain ∧
      (fs.put (fs.placeOf p) .directory).isDirectory p = true := by
  have hmake : fs.makeDirectory p = (.ok (), fs.put (fs.placeOf p) .directory) := by
    have hsite := h.siteOf_eq_ok_iff.2 ⟨hp, rfl⟩
    unfold spotAt at hsite
    rw [hvacant] at hsite
    unfold makeDirectory
    rw [hsite]
  obtain ⟨hroot, hparent⟩ : fs.placeOf p ≠ [] ∧
      fs.lookup? (fs.placeOf p).dropLast = some .directory := by
    have hvacant' := hvacant
    rw [← placeOf_dropSlashes] at hvacant' ⊢
    apply h.lookup?_dropLast_placeOf
    · rw [startOf_dropSlashes]
      exact hp.2
    · rw [hvacant']
      exact nofun
  have hplain : (fs.put (fs.placeOf p) .directory).IsPlain := h.put hroot hparent nofun (.inl rfl)
  have hsame := fs.workingDirectory_put (fs.placeOf p) .directory
  refine ⟨hmake, hplain, hplain.isDirectory_of_approaches ⟨hp.1, ?_⟩ ?_⟩
  · rw [startOf_congr hsame]
    refine hp.2.mono fun place hplace => ?_
    by_cases heq : place = fs.placeOf p
    · rw [heq, lookup?_put_self hroot]
    · rw [lookup?_put_of_ne heq, hplace]
  · rw [placeOf_congr hsame, lookup?_put_self hroot]

/-- Otherwise nothing is made. -/
theorem exists_makeDirectory_of_not (h : fs.IsPlain) {p : Path}
    (hnot : ¬ (fs.Approaches p ∧ fs.lookup? (fs.placeOf p) = none)) :
    ∃ cause, fs.makeDirectory p = (.error cause, fs) := by
  unfold makeDirectory
  split
  · next place hsite =>
      obtain ⟨happroach, hspot⟩ := h.siteOf_eq_ok_iff.1 hsite
      unfold spotAt at hspot
      split at hspot
      · cases hspot
      · next hvacant => exact absurd ⟨happroach, hvacant⟩ hnot
  · exact ⟨_, rfl⟩
  · exact ⟨_, rfl⟩

/-- A directory that was made is there. -/
theorem isPlain_of_makeDirectory (h : fs.IsPlain) {p : Path} {result : Except IoCause Unit}
    (hmake : fs.makeDirectory p = (result, fs')) :
    fs'.IsPlain ∧ (result = .ok () → fs'.isDirectory p = true) ∧
      (result ≠ .ok () → fs' = fs ∧ ¬ (fs.Approaches p ∧ fs.lookup? (fs.placeOf p) = none)) := by
  by_cases hnew : fs.Approaches p ∧ fs.lookup? (fs.placeOf p) = none
  · obtain ⟨hmake', hplain, hdirectory⟩ := h.makeDirectory_of_vacant hnew.1 hnew.2
    obtain ⟨rfl, rfl⟩ := Prod.mk.inj (hmake'.symm.trans hmake)
    exact ⟨hplain, fun _ => hdirectory, fun hne => absurd rfl hne⟩
  · obtain ⟨cause, hmake'⟩ := h.exists_makeDirectory_of_not hnew
    obtain ⟨rfl, rfl⟩ := Prod.mk.inj (hmake'.symm.trans hmake)
    exact ⟨h, nofun, fun _ => ⟨rfl, hnew⟩⟩

/-- A directory can be made only in the directory above it. -/
theorem isDirectory_of_above (h : fs.IsPlain) {p q : Path} (habove : p.Above q)
    (hp : fs.Approaches p) : fs.isDirectory q = true := by
  obtain ⟨k, hparts⟩ := p.exists_parts_eq_dropSlashes
  obtain ⟨last, hsteps⟩ := habove.steps
  have hp' := hp.2.filter_isStep
  have hsame : (dropSlashes p).parts.filter Path.isStep = p.steps := by
    unfold Path.steps
    rw [hparts, List.filter_append]
    simp [Path.isStep]
  rw [hsame, hsteps] at hp'
  have hstart : fs.startOf q = fs.startOf p := by
    unfold startOf
    rw [habove.isAbsolute]
  rw [h.isDirectory_iff_descends, hstart, ← descends_filter_isStep]
  exact ⟨habove.fault? hp.1, descends_of_passable_concat hp'⟩

/-! ## Making several directories -/

/-- Making directories that are there changes nothing. -/
theorem makeFirst_of_isDirectory (h : fs.IsPlain) {p : Path} (hp : fs.isDirectory p = true)
    (above : List Path) : makeFirst (p :: above) fs = (.ok (), fs) := by
  unfold makeFirst
  rw [h.makeDirectory_of_isDirectory hp]
  dsimp only
  rw [if_pos hp]

/-- Directories that were made are there. -/
theorem isPlain_of_makeFirst (h : fs.IsPlain) {paths : List Path} {result : Except IoCause Unit}
    (hmake : makeFirst paths fs = (result, fs')) :
    fs'.IsPlain ∧ (result = .ok () → ∀ p ∈ paths.head?, fs'.isDirectory p = true) := by
  induction paths generalizing fs result fs' with
  | nil =>
      obtain ⟨rfl, rfl⟩ := Prod.mk.inj hmake
      exact ⟨h, by simp⟩
  | cons p above ih =>
      rw [List.head?_cons]
      simp only [Option.mem_some_iff, forall_eq']
      unfold makeFirst at hmake
      split at hmake
      · next fs₁ hp =>
          obtain ⟨rfl, rfl⟩ := Prod.mk.inj hmake
          obtain ⟨hplain, hdirectory, -⟩ := h.isPlain_of_makeDirectory hp
          exact ⟨hplain, hdirectory⟩
      · split at hmake
        · next cause fs₁ habove =>
            obtain ⟨rfl, rfl⟩ := Prod.mk.inj hmake
            exact ⟨(ih h habove).1, by simp⟩
        · next fs₁ habove =>
            have hplain₁ := (ih h habove).1
            split at hmake
            · next fs₂ hp =>
                obtain ⟨rfl, rfl⟩ := Prod.mk.inj hmake
                obtain ⟨hplain, hdirectory, -⟩ := hplain₁.isPlain_of_makeDirectory hp
                exact ⟨hplain, hdirectory⟩
            · next cause fs₂ hp =>
                obtain ⟨rfl, rfl⟩ := Prod.mk.inj hmake
                refine ⟨(hplain₁.isPlain_of_makeDirectory hp).1, fun hok => ?_⟩
                split at hok
                · assumption
                · cases hok
      · obtain ⟨rfl, rfl⟩ := Prod.mk.inj hmake
        refine ⟨h, fun hok => ?_⟩
        split at hok
        · assumption
        · cases hok

/-- What is not there and cannot be made fails to be made, if nothing is left to do above it. -/
theorem exists_makeFirst_of_stuck (h : fs.IsPlain) {p : Path} {above : List Path}
    {result : Except IoCause Unit} (habove : makeFirst above fs = (result, fs))
    (hnew : ¬ (fs.Approaches p ∧ fs.lookup? (fs.placeOf p) = none))
    (hp : ¬ fs.isDirectory p = true) : ∃ cause, makeFirst (p :: above) fs = (.error cause, fs) := by
  obtain ⟨cause, hmake⟩ := h.exists_makeDirectory_of_not hnew
  unfold makeFirst
  rw [hmake]
  cases cause with
  | notFound =>
      dsimp only
      rw [habove]
      cases result with
      | error cause => exact ⟨cause, rfl⟩
      | ok _ =>
          dsimp only
          rw [hmake]
          dsimp only
          rw [if_neg hp]
          exact ⟨_, rfl⟩
  | _ =>
      dsimp only
      rw [if_neg hp]
      exact ⟨_, rfl⟩

/-- The three ways in which making directories fails: at the first path, above it, or at the first
path after all above it have been made. -/
theorem error_of_makeFirst (h : fs.IsPlain) {p : Path} {above : List Path} {cause : IoCause}
    (hmake : makeFirst (p :: above) fs = (.error cause, fs')) :
    (fs' = fs ∧ ¬ fs.isDirectory p = true) ∨ makeFirst above fs = (.error cause, fs') ∨
      (makeFirst above fs = (.ok (), fs') ∧
        ¬ (fs'.Approaches p ∧ fs'.lookup? (fs'.placeOf p) = none) ∧
        ¬ fs'.isDirectory p = true) := by
  unfold makeFirst at hmake
  split at hmake
  · cases hmake
  · split at hmake
    · next cause' fs₁ habove =>
        obtain ⟨hcause, rfl⟩ := Prod.mk.inj hmake
        exact .inr (.inl (hcause ▸ habove))
    · next fs₁ habove =>
        have hplain := (h.isPlain_of_makeFirst habove).1
        split at hmake
        · cases hmake
        · next cause' fs₂ hp =>
            obtain ⟨-, -, hsame⟩ := hplain.isPlain_of_makeDirectory hp
            obtain ⟨rfl, hnew⟩ := hsame (by simp)
            obtain ⟨hcause, rfl⟩ := Prod.mk.inj hmake
            refine .inr (.inr ⟨habove, hnew, fun hdirectory => ?_⟩)
            rw [if_pos hdirectory] at hcause
            cases hcause
  · obtain ⟨hcause, rfl⟩ := Prod.mk.inj hmake
    refine .inl ⟨rfl, fun hdirectory => ?_⟩
    rw [if_pos hdirectory] at hcause
    cases hcause

/-- Making directories a second time after success changes nothing. -/
theorem makeFirst_again_of_ok (h : fs.IsPlain) {paths : List Path}
    (hmake : makeFirst paths fs = (.ok (), fs')) : makeFirst paths fs' = (.ok (), fs') := by
  obtain ⟨hplain, hdirectory⟩ := h.isPlain_of_makeFirst hmake
  cases paths with
  | nil => rfl
  | cons p above => exact hplain.makeFirst_of_isDirectory (hdirectory rfl p rfl) above

/-- **Directories that could not all be made cannot be made by trying again**, and trying again
changes nothing. -/
theorem makeFirst_again_of_error (h : fs.IsPlain) {p : Path} {above : List Path} {cause : IoCause}
    (hchain : (p :: above).IsChain Path.Above)
    (hmake : makeFirst (p :: above) fs = (.error cause, fs')) :
    ¬ fs'.isDirectory p = true ∧ ∃ again, makeFirst (p :: above) fs' = (.error again, fs') := by
  have hplain := (h.isPlain_of_makeFirst hmake).1
  -- On the directories above, from the outermost one inwards: what is missing there stays missing.
  induction above generalizing p with
  | nil =>
      rcases h.error_of_makeFirst hmake with ⟨rfl, hp⟩ | habove | ⟨-, hnew, hp⟩
      · exact ⟨hp, cause, hmake⟩
      · cases habove
      · exact ⟨hp, hplain.exists_makeFirst_of_stuck rfl hnew hp⟩
  | cons q above ih =>
      obtain ⟨habove_p, hchain⟩ := List.isChain_cons_cons.1 hchain
      rcases h.error_of_makeFirst hmake with ⟨rfl, hp⟩ | habove | ⟨habove, hnew, hp⟩
      · exact ⟨hp, cause, hmake⟩
      · -- The directory above is still missing, and so the path can neither be there nor be made.
        obtain ⟨hq, again, hagain⟩ := ih hchain habove
        have happroach : ¬ fs'.Approaches p :=
          fun happroach => hq (hplain.isDirectory_of_above habove_p happroach)
        have hp : ¬ fs'.isDirectory p = true :=
          fun hp => happroach (hplain.approaches_of_isDirectory hp)
        exact ⟨hp, hplain.exists_makeFirst_of_stuck hagain (fun hnew => happroach hnew.1) hp⟩
      · exact ⟨hp, hplain.exists_makeFirst_of_stuck (h.makeFirst_again_of_ok habove) hnew hp⟩

end IsPlain

/-! ## Making a directory with all above it -/

/-- A directory is ready if it is there, or if its path is empty and asks for nothing. -/
def Ready (fs : FileSystem) (p : Path) : Prop := ∀ q ∈ p.ancestors.head?, fs.isDirectory q = true

namespace IsPlain

theorem placeOf_of_lookup?_makeDirectory (h : fs.IsPlain) {p : Path} {place : Place}
    (hnew : (fs.makeDirectory p).2.lookup? place ≠ fs.lookup? place) : place = fs.placeOf p := by
  by_contra hplace
  by_cases hvacant : fs.Approaches p ∧ fs.lookup? (fs.placeOf p) = none
  · obtain ⟨hmake, -, -⟩ := h.makeDirectory_of_vacant hvacant.1 hvacant.2
    rw [hmake] at hnew
    exact hnew (lookup?_put_of_ne hplace _ fs)
  · obtain ⟨cause, hmake⟩ := h.exists_makeDirectory_of_not hvacant
    rw [hmake] at hnew
    exact hnew rfl

/-- Where a directory is new, one of the paths leads. -/
theorem exists_of_lookup?_makeFirst (h : fs.IsPlain) {paths : List Path} {place : Place}
    (hnew : (makeFirst paths fs).2.lookup? place ≠ fs.lookup? place) :
    ∃ p ∈ paths, place = fs.placeOf p := by
  induction paths generalizing fs with
  | nil => exact absurd rfl hnew
  | cons p above ih =>
      have hfirst : (fs.makeDirectory p).2.lookup? place ≠ fs.lookup? place →
          place = fs.placeOf p := h.placeOf_of_lookup?_makeDirectory
      have hrest := ih h
      unfold makeFirst at hnew
      split at hnew
      · next fs₁ hp =>
          rw [hp] at hfirst
          exact ⟨p, List.mem_cons_self, hfirst hnew⟩
      · split at hnew
        · next cause fs₁ habove =>
            rw [habove] at hrest
            obtain ⟨q, hq, hplace⟩ := hrest hnew
            exact ⟨q, List.mem_cons_of_mem _ hq, hplace⟩
        · next fs₁ habove =>
            have hplain₁ := (h.isPlain_of_makeFirst habove).1
            have hmore := fs.moreDirectories_makeFirst above
            rw [habove] at hrest hmore
            by_cases hsame : fs₁.lookup? place = fs.lookup? place
            · have hlast : (fs₁.makeDirectory p).2.lookup? place ≠ fs₁.lookup? place →
                  place = fs₁.placeOf p := hplain₁.placeOf_of_lookup?_makeDirectory
              rw [hsame, placeOf_congr hmore.workingDirectory] at hlast
              refine ⟨p, List.mem_cons_self, hlast ?_⟩
              split at hnew
              · next hp =>
                  rw [hp]
                  exact hnew
              · next hp =>
                  rw [hp]
                  exact hnew
            · obtain ⟨q, hq, hplace⟩ := hrest hsame
              exact ⟨q, List.mem_cons_of_mem _ hq, hplace⟩
      · exact absurd rfl hnew

variable {p : Path}

theorem makeDirectories_of_ready (h : fs.IsPlain) (hready : fs.Ready p) :
    fs.makeDirectories p = (.ok (), fs) := by
  unfold makeDirectories
  unfold Ready at hready
  cases hpaths : p.ancestors with
  | nil => rfl
  | cons q above =>
      rw [hpaths] at hready
      exact h.makeFirst_of_isDirectory (hready q rfl) above

theorem makeDirectories_of_vacant (h : fs.IsPlain) (hfirst : p.ancestors.head? = some p)
    (hp : fs.Approaches p) {place : Place} (hplace : fs.placeOf p = place)
    (hvacant : fs.lookup? place = none) :
    fs.makeDirectories p = (.ok (), fs.put place .directory) := by
  subst hplace
  obtain ⟨above, hpaths⟩ := List.head?_eq_some_iff.1 hfirst
  unfold makeDirectories
  rw [hpaths]
  unfold makeFirst
  rw [(h.makeDirectory_of_vacant hp hvacant).1]

/-- What making directories leaves behind is a tree again, with the directory ready if all went
well. -/
theorem isPlain_of_makeDirectories (h : fs.IsPlain) {result : Except IoCause Unit}
    (hmake : fs.makeDirectories p = (result, fs')) :
    fs'.IsPlain ∧ (result = .ok () → fs'.Ready p) :=
  h.isPlain_of_makeFirst hmake

theorem makeDirectories_again (h : fs.IsPlain) {cause : IoCause}
    (hmake : fs.makeDirectories p = (.error cause, fs')) :
    ∃ again, fs'.makeDirectories p = (.error again, fs') := by
  unfold makeDirectories at hmake ⊢
  have hchain := p.isChain_ancestors
  cases hpaths : p.ancestors with
  | nil =>
      rw [hpaths] at hmake
      cases hmake
  | cons q above =>
      rw [hpaths] at hmake hchain
      exact (h.makeFirst_again_of_error hchain hmake).2

end IsPlain

end FileSystem

end LiveExcerpts
