import LiveExcerpts.Proofs.Files.Rooted
/-!
# File systems without links

Where no links stand, the place that a path leads to can be read off its parts.  The path leads
there if every directory on its way is there; what else stands in the file system does not matter.

Main definitions: `Place.follow`, `FileSystem.IsPlain`, `FileSystem.Passes`.  Main statement:
`FileSystem.IsPlain.spot_eq_ok_iff`.
-/

namespace LiveExcerpts

/-! ## Reading off places -/

namespace Place

/-- Where one part of a path leads from a place, if no link stands there. -/
def step (here : Place) (part : String) : Place :=
  if part = "" ∨ part = "." then here
  else if part = ".." then here.dropLast
  else here ++ [part]

/-- Where the parts of a path lead from a place, if there are no links. -/
def follow (here : Place) (parts : List String) : Place := parts.foldl step here

theorem step_of_skip {here : Place} {part : String} (h : part = "" ∨ part = ".") :
    step here part = here := by
  unfold step
  rw [if_pos h]

theorem step_up (here : Place) : step here ".." = here.dropLast := by
  unfold step
  rw [if_neg (by decide), if_pos rfl]

theorem step_of_name {here : Place} {part : String} (hskip : ¬ (part = "" ∨ part = "."))
    (hup : ¬ part = "..") : step here part = here ++ [part] := by
  unfold step
  rw [if_neg hskip, if_neg hup]

theorem follow_append (here : Place) (before after : List String) :
    follow here (before ++ after) = follow (follow here before) after :=
  List.foldl_append

end Place

namespace FileSystem

variable {fs fs' : FileSystem}

/-- The place that a path leads to, if there are no links. -/
def placeOf (fs : FileSystem) (p : Path) : Place := Place.follow (fs.startOf p) p.parts

theorem startOf_congr (h : fs'.workingDirectory = fs.workingDirectory) (p : Path) :
    fs'.startOf p = fs.startOf p := by
  unfold startOf
  rw [h]

theorem placeOf_congr (h : fs'.workingDirectory = fs.workingDirectory) (p : Path) :
    fs'.placeOf p = fs.placeOf p := by
  unfold placeOf
  rw [startOf_congr h]

@[simp] theorem workingDirectory_put (place : Place) (entry : Entry) (fs : FileSystem) :
    (fs.put place entry).workingDirectory = fs.workingDirectory := rfl

/-! ## Passing through directories -/

/-- Every place that the parts lead on from is a directory, and no part is too long for a name. -/
inductive Passable (fs : FileSystem) : Place → List String → Prop
  | nil {here : Place} : Passable fs here []
  | cons {here : Place} {part : String} {rest : List String} :
      fs.lookup? here = some .directory → part.utf8ByteSize ≤ 255 →
      Passable fs (Place.step here part) rest → Passable fs here (part :: rest)

theorem passable_cons {here : Place} {part : String} {rest : List String} :
    fs.Passable here (part :: rest) ↔ fs.lookup? here = some .directory ∧
      part.utf8ByteSize ≤ 255 ∧ fs.Passable (Place.step here part) rest := by
  constructor
  · rintro (_ | ⟨hhere, hsize, hrest⟩)
    exact ⟨hhere, hsize, hrest⟩
  · rintro ⟨hhere, hsize, hrest⟩
    exact .cons hhere hsize hrest

instance decidablePassable (fs : FileSystem) :
    ∀ (here : Place) (parts : List String), Decidable (fs.Passable here parts)
  | _, [] => .isTrue .nil
  | here, part :: rest =>
    have := decidablePassable fs (Place.step here part) rest
    decidable_of_iff' _ passable_cons

theorem passable_append {here : Place} {before after : List String} :
    fs.Passable here (before ++ after) ↔
      fs.Passable here before ∧ fs.Passable (Place.follow here before) after := by
  induction before generalizing here with
  | nil => exact ⟨fun h => ⟨.nil, h⟩, fun h => h.2⟩
  | cons part rest ih =>
      rw [List.cons_append, passable_cons, passable_cons, ih, and_assoc, and_assoc]
      rfl

/-- Only the directories count. -/
theorem Passable.mono {here : Place} {parts : List String} (h : fs.Passable here parts)
    (hdirectories : ∀ place, fs.lookup? place = some .directory →
      fs'.lookup? place = some .directory) : fs'.Passable here parts := by
  induction h with
  | nil => exact .nil
  | cons hhere hsize _ ih => exact .cons (hdirectories _ hhere) hsize ih

/-- The spelling of a path is good and every directory on its way is there. -/
def Passes (fs : FileSystem) (p : Path) : Prop :=
  fault? p = none ∧ fs.Passable (fs.startOf p) p.parts

instance (fs : FileSystem) (p : Path) : Decidable (fs.Passes p) :=
  inferInstanceAs (Decidable (_ ∧ _))

/-! ## Plain file systems -/

/-- A tree of directories and regular files, without links. -/
structure IsPlain (fs : FileSystem) : Prop extends fs.Rooted where
  /-- There are no links. -/
  noLink : ∀ place target, fs.lookup? place ≠ some (.link target)

/-- Whether a file system is plain can be told from its entries. -/
theorem isPlain_of_entries (hstart : fs.lookup? fs.workingDirectory = some .directory)
    (hentries : ∀ place entry, (place, entry) ∈ fs.entries →
      fs.lookup? place.dropLast = some .directory ∧ ∀ target, entry ≠ .link target) :
    fs.IsPlain := by
  have hmem : ∀ place entry, place ≠ [] → fs.lookup? place = some entry →
      (place, entry) ∈ fs.entries := by
    intro place entry hroot hplace
    unfold lookup? at hplace
    rw [if_neg hroot] at hplace
    obtain ⟨before, after, hsplit, -⟩ := List.lookup_eq_some_iff.1 hplace
    rw [hsplit]
    simp
  refine ⟨⟨fun place name hname => ?_, hstart⟩, fun place target hlink => ?_⟩
  · obtain ⟨entry, hentry⟩ := Option.ne_none_iff_exists'.1 hname
    have hparent := (hentries _ _ (hmem _ entry (by simp) hentry)).1
    rwa [List.dropLast_concat] at hparent
  · by_cases hroot : place = []
    · subst hroot
      cases hlink
    · exact (hentries _ _ (hmem _ _ hroot hlink)).2 target rfl

/-- What a place is to a path that leads there. -/
def spotAt (fs : FileSystem) (place : Place) : Spot :=
  match fs.lookup? place with
  | some entry => .occupied place entry
  | none => .vacant place

namespace IsPlain

/-- **Without links a walk ends where its parts lead**, if every directory on its way is there, and
fails otherwise. -/
theorem walk_eq_ok_iff (h : fs.IsPlain) {follow : Bool} {links : Nat} {here : Place}
    {parts : List String} {spot : Spot} (hhere : fs.lookup? here = some .directory) :
    fs.walk follow links here parts = .ok spot ↔
      fs.Passable here parts ∧ spot = fs.spotAt (Place.follow here parts) := by
  induction parts generalizing here with
  | nil =>
      rw [walk_nil hhere, Except.ok.injEq, eq_comm]
      unfold spotAt Place.follow
      rw [List.foldl_nil, hhere, and_iff_right Passable.nil]
  | cons part rest ih =>
      have hfollow : Place.follow here (part :: rest) = Place.follow (Place.step here part) rest :=
        rfl
      rw [hfollow, passable_cons, and_iff_right hhere, and_assoc]
      by_cases hskip : part = "" ∨ part = "."
      · have hsize : part.utf8ByteSize ≤ 255 := by
          rcases hskip with rfl | rfl <;> decide
        rw [walk_skip hhere hskip, Place.step_of_skip hskip, ih hhere, and_iff_right hsize]
      by_cases hup : part = ".."
      · subst hup
        have hsize : "..".utf8ByteSize ≤ 255 := by decide
        rw [walk_up hhere, Place.step_up, ih (h.lookup?_dropLast hhere), and_iff_right hsize]
      rw [Place.step_of_name hskip hup]
      by_cases hsize : 255 < part.utf8ByteSize
      · have hlong : fs.walk follow links here (part :: rest) = .error .nameTooLong := by
          rw [walk]
          simp [hhere, hskip, hup, hsize]
        simp [hlong, Nat.not_le_of_lt hsize]
      rw [walk_name hhere hskip hup hsize, and_iff_right (Nat.le_of_not_lt hsize)]
      cases hname : fs.lookup? (here ++ [part]) with
      | none =>
          cases rest with
          | nil => simp [Passable.nil, spotAt, Place.follow, hname, eq_comm]
          | cons next rest => simp [passable_cons, hname]
      | some entry =>
          cases entry with
          | link target => exact absurd hname (h.noLink _ target)
          | directory => exact ih hname
          | file contents =>
              cases rest with
              | nil => simp [walk_nil hname, Passable.nil, spotAt, Place.follow, hname, eq_comm]
              | cons next rest => simp [walk, passable_cons, hname]

/-- **Without links a path leads to the place that its parts spell**, if every directory on its way
is there, and nowhere otherwise. -/
theorem spot_eq_ok_iff (h : fs.IsPlain) {follow : Bool} {p : Path} {spot : Spot} :
    fs.spot follow p = .ok spot ↔ fs.Passes p ∧ spot = fs.spotAt (fs.placeOf p) := by
  unfold FileSystem.spot Passes
  cases fault? p with
  | some cause => simp
  | none => simpa [placeOf] using h.walk_eq_ok_iff (h.lookup?_startOf p)

theorem stat_eq_ok_iff (h : fs.IsPlain) {p : Path} {entry : Entry} :
    fs.stat p = .ok entry ↔ fs.Passes p ∧ fs.lookup? (fs.placeOf p) = some entry := by
  rw [FileSystem.stat_eq_ok_iff]
  simp only [h.spot_eq_ok_iff]
  unfold spotAt
  cases fs.lookup? (fs.placeOf p) with
  | none => simp
  | some found => simp [eq_comm]

theorem isDirectory_iff (h : fs.IsPlain) {p : Path} :
    fs.isDirectory p = true ↔ fs.Passes p ∧ fs.lookup? (fs.placeOf p) = some .directory := by
  rw [← h.stat_eq_ok_iff]
  unfold isDirectory
  split
  · next hstat => simp [hstat]
  · next hne => simpa using hne

theorem leadsSomewhere_iff (h : fs.IsPlain) {p : Path} :
    fs.leadsSomewhere p = true ↔ fs.Passes p ∧ fs.lookup? (fs.placeOf p) ≠ none := by
  rw [FileSystem.leadsSomewhere_iff, Option.ne_none_iff_exists']
  simp only [h.stat_eq_ok_iff, exists_and_left]

/-- What a path leads to stands in a directory, unless it is a directory itself. -/
theorem lookup?_dropLast_follow (h : fs.IsPlain) {here : Place} {parts : List String}
    (hhere : fs.lookup? here = some .directory) (hparts : fs.Passable here parts)
    (hend : fs.lookup? (Place.follow here parts) ≠ some .directory) :
    Place.follow here parts ≠ [] ∧
      fs.lookup? (Place.follow here parts).dropLast = some .directory := by
  induction parts generalizing here with
  | nil => exact absurd hhere hend
  | cons part rest ih =>
      obtain ⟨-, -, hrest⟩ := passable_cons.1 hparts
      have hfollow : Place.follow here (part :: rest) = Place.follow (Place.step here part) rest :=
        rfl
      rw [hfollow] at hend ⊢
      by_cases hstep : fs.lookup? (Place.step here part) = some .directory
      · exact ih hstep hrest hend
      · -- The step leads to what is no directory, so it is the last one, and by a name.
        have hlast : rest = [] := by
          cases rest with
          | nil => rfl
          | cons next rest => exact absurd (passable_cons.1 hrest).1 hstep
        subst hlast
        by_cases hskip : part = "" ∨ part = "."
        · rw [Place.step_of_skip hskip] at hstep
          exact absurd hhere hstep
        by_cases hup : part = ".."
        · rw [hup, Place.step_up] at hstep
          exact absurd (h.lookup?_dropLast hhere) hstep
        rw [Place.step_of_name hskip hup]
        unfold Place.follow
        rw [List.foldl_nil, List.dropLast_concat]
        exact ⟨by simp, hhere⟩

theorem lookup?_dropLast_placeOf (h : fs.IsPlain) {p : Path}
    (hparts : fs.Passable (fs.startOf p) p.parts)
    (hend : fs.lookup? (fs.placeOf p) ≠ some .directory) :
    fs.placeOf p ≠ [] ∧ fs.lookup? (fs.placeOf p).dropLast = some .directory :=
  h.lookup?_dropLast_follow (h.lookup?_startOf p) hparts hend

/-- A file or a directory may be put into a directory, but no file in the place of a directory. -/
theorem put (h : fs.IsPlain) {place : Place} {entry : Entry} (hroot : place ≠ [])
    (hparent : fs.lookup? place.dropLast = some .directory) (hlink : ∀ target, entry ≠ .link target)
    (hkept : entry = .directory ∨ fs.lookup? place ≠ some .directory) :
    (fs.put place entry).IsPlain := by
  have hdirectory : ∀ other, fs.lookup? other = some .directory →
      (fs.put place entry).lookup? other = some .directory := by
    intro other hother
    by_cases heq : other = place
    · subst heq
      rw [lookup?_put_self hroot]
      rcases hkept with hentry | hne
      · rw [hentry]
      · exact absurd hother hne
    · rw [lookup?_put_of_ne heq, hother]
  refine ⟨⟨fun above name hname => ?_, hdirectory _ h.workingDirectory⟩, fun other target => ?_⟩
  · apply hdirectory
    by_cases heq : above ++ [name] = place
    · subst heq
      rwa [List.dropLast_concat] at hparent
    · rw [lookup?_put_of_ne heq] at hname
      exact h.parent above name hname
  · by_cases heq : other = place
    · subst heq
      rw [lookup?_put_self hroot]
      simpa using hlink target
    · rw [lookup?_put_of_ne heq]
      exact h.noLink other target

/-! ### Writing -/

/-- **A text can be written where no directory stands**, if every directory on the way is there. -/
theorem writeText_of_free (h : fs.IsPlain) {p : Path} (hp : fs.Passes p)
    (hfree : fs.lookup? (fs.placeOf p) ≠ some .directory) (text : String) :
    fs.writeText p text = (.ok (), fs.put (fs.placeOf p) (.file (.text text))) := by
  have hspot : fs.spot true p = .ok (fs.spotAt (fs.placeOf p)) := h.spot_eq_ok_iff.2 ⟨hp, rfl⟩
  unfold spotAt at hspot
  unfold writeText
  rw [hspot]
  cases hplace : fs.lookup? (fs.placeOf p) with
  | none => rfl
  | some entry =>
      cases entry with
      | file contents => rfl
      | directory => exact absurd hplace hfree
      | link target => exact absurd hplace (h.noLink _ target)

/-- Elsewhere nothing is written. -/
theorem exists_writeText_of_not (h : fs.IsPlain) {p : Path}
    (hnot : ¬ (fs.Passes p ∧ fs.lookup? (fs.placeOf p) ≠ some .directory)) (text : String) :
    ∃ cause, fs.writeText p text = (.error cause, fs) := by
  cases hwrite : fs.writeText p text with
  | mk result fs' =>
      cases result with
      | ok _ =>
          obtain ⟨spot, hspot, hfree, -⟩ := exists_put_of_writeText hwrite
          obtain ⟨hp, rfl⟩ := h.spot_eq_ok_iff.1 hspot
          refine absurd ⟨hp, fun hdirectory => ?_⟩ hnot
          unfold spotAt at hfree
          rw [hdirectory] at hfree
          obtain ⟨contents, hcontents⟩ := hfree .directory rfl
          cases hcontents
      | error cause =>
          refine ⟨cause, ?_⟩
          unfold writeText at hwrite
          split at hwrite <;> cases hwrite <;> rfl

end IsPlain

end FileSystem

end LiveExcerpts
