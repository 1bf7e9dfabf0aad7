import LiveExcerpts.Proofs.Files.Writing
/-!
# Trees of directories

Whatever stands somewhere stands in a directory.  In such a file system only a path that ends in a
name leads to a regular file.

Main definition: `FileSystem.Rooted`.  Main statement: `FileSystem.exists_fileName?_of_isFile`.
-/

namespace LiveExcerpts

namespace FileSystem

/-- Everything stands in a directory, and relative paths start at one. -/
structure Rooted (fs : FileSystem) : Prop where
  /-- What stands at a place stands in a directory. -/
  parent : ∀ place name, fs.lookup? (place ++ [name]) ≠ none → fs.lookup? place = some .directory
  /-- Relative paths start at a directory. -/
  workingDirectory : fs.lookup? fs.workingDirectory = some .directory

variable {fs : FileSystem}

theorem Rooted.lookup?_dropLast (h : fs.Rooted) {place : Place}
    (hplace : fs.lookup? place = some .directory) :
    fs.lookup? place.dropLast = some .directory := by
  rcases List.eq_nil_or_concat place with rfl | ⟨above, name, rfl⟩
  · rfl
  · rw [List.concat_eq_append] at hplace ⊢
    rw [List.dropLast_concat]
    exact h.parent above name (by simp [hplace])

theorem Rooted.lookup?_startOf (h : fs.Rooted) (p : Path) :
    fs.lookup? (fs.startOf p) = some .directory := by
  unfold startOf
  split
  · rfl
  · exact h.workingDirectory

/-- A walk from a directory to a regular file ends in a name. -/
theorem Rooted.exists_name_of_walk (h : fs.Rooted) {links : Nat} {here place : Place}
    {todo : List String} {contents : Contents} (hhere : fs.lookup? here = some .directory)
    (hwalk : fs.walk true links here todo = .ok (.occupied place (.file contents))) :
    ∃ name, todo.getLast? = some name ∧ ¬ (name = "" ∨ name = ".") ∧ ¬ name = ".." := by
  fun_induction walk fs true links here todo with
  | case1 links here found hfound =>
      obtain ⟨-, rfl⟩ := Spot.occupied.inj (Except.ok.inj hwalk)
      rw [hfound] at hhere
      cases hhere
  | case6 links here name rest _ hskip ih =>
      obtain ⟨last, hlast, hname⟩ := ih hhere hwalk
      exact ⟨last, by rw [List.getLast?_cons, hlast]; rfl, hname⟩
  | case7 links here rest _ hskip ih =>
      obtain ⟨last, hlast, hname⟩ := ih (h.lookup?_dropLast hhere) hwalk
      exact ⟨last, by rw [List.getLast?_cons, hlast]; rfl, hname⟩
  | case13 here name rest _ hskip hup hsize target htarget hfollow links ih =>
      have hstart : fs.lookup? (if (Path.mk target).isAbsolute then [] else here) =
          some .directory := by
        split
        · rfl
        · exact hhere
      obtain ⟨last, hlast, hname⟩ := ih hstart hwalk
      cases rest with
      | nil => exact ⟨name, rfl, hskip, hup⟩
      | cons next rest =>
          rw [List.getLast?_append, List.getLast?_cons, Option.some_or] at hlast
          exact ⟨last, by rw [List.getLast?_cons_cons, List.getLast?_cons, hlast], hname⟩
  | case14 links here name rest _ hskip hup hsize found hlink hfound ih =>
      cases rest with
      | nil => exact ⟨name, rfl, hskip, hup⟩
      | cons next rest =>
          have hdirectory : found = .directory := by
            cases found with
            | directory => rfl
            | link target => exact absurd rfl (hlink target)
            | file c => simp [walk, hfound] at hwalk
          obtain ⟨last, hlast, hname⟩ := ih (hdirectory ▸ hfound) hwalk
          exact ⟨last, by rw [List.getLast?_cons, hlast]; rfl, hname⟩
  | case11 links here name rest _ hskip hup hsize target htarget hfollow => simp at hfollow
  | _ => cases hwalk

/-- **A path that leads to a regular file has a file name.** -/
theorem Rooted.exists_fileName?_of_isFile (h : fs.Rooted) {p : Path} (hfile : fs.isFile p = true) :
    ∃ name, p.fileName? = some name := by
  obtain ⟨contents, hstat⟩ := isFile_iff.1 hfile
  obtain ⟨place, hspot⟩ := stat_eq_ok_iff.1 hstat
  obtain ⟨name, hlast, hskip, hup⟩ :=
    h.exists_name_of_walk (h.lookup?_startOf p) (walk_of_spot hspot)
  refine ⟨name, ?_⟩
  have hcomponent : Path.component? name = some (.name name) := by
    unfold Path.component?
    rw [if_neg hskip, if_neg hup]
  obtain ⟨front, hparts⟩ := List.getLast?_eq_some_iff.1 hlast
  unfold Path.fileName? Path.components
  rw [hparts, List.filterMap_append]
  simp [hcomponent]

end FileSystem

end LiveExcerpts
