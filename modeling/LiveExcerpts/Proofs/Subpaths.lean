import LiveExcerpts.Proofs.Paths
import LiveExcerpts.Proofs.Texts.Substitution
/-!
# Paths below others

A path lies below another one if it goes on from there and never up again.  Written after the other,
a relative path does so unless one of its parts is `..`, which can be told from its characters.

Main definitions: `Path.IsBelow`, `StartsPart`, `EndsPart`.  Main statements:
`Path.components_join`, `Path.isBelow_join_iff`, `up_mem_pieces_iff`.
-/

namespace LiveExcerpts

namespace Path

/-- The path goes on from `root`, and neither starts anew nor goes up. -/
def IsBelow (p root : Path) : Prop :=
  ∃ rest, p.components = root.components ++ rest ∧ .root ∉ rest ∧ .up ∉ rest

theorem up_mem_components_iff {p : Path} :
    .up ∈ p.components ↔ .up ∈ p.parts.filterMap component? := by
  obtain ⟨first, heq, hfirst⟩ := p.components_eq
  have hnot : .up ∉ first := by
    rcases hfirst with rfl | ⟨rfl, -⟩ | ⟨rfl, -⟩ <;> decide
  rw [heq, List.mem_append, or_iff_right hnot]

/-- A path goes up exactly where one of its parts says so. -/
theorem up_mem_components_iff_pieces {p : Path} :
    .up ∈ p.components ↔ ['.', '.'] ∈ Text.pieces (· == '/') p.text.toList := by
  rw [up_mem_components_iff, List.mem_filterMap, parts]
  constructor
  · rintro ⟨part, hpart, hup⟩
    obtain ⟨piece, hpiece, rfl⟩ := List.mem_map.1 hpart
    have hspell := congrArg String.toList (spell_of_component? hup)
    rw [String.toList_ofList] at hspell
    rwa [← hspell] at hpiece
  · intro h
    exact ⟨"..", List.mem_map.2 ⟨_, h, rfl⟩, rfl⟩

/-- How a relative path is written after another one. -/
theorem exists_toList_join {p q : Path} (hp : p.text ≠ "") (hq : q.isAbsolute = false) :
    ∃ front k, p.text.toList = front ++ List.replicate k '/' ∧
      (p.join q).text.toList = front ++ '/' :: q.text.toList ∧ (front = [] → k ≠ 0) := by
  unfold join
  rw [hq, Bool.false_or, if_neg (by simpa using hp)]
  split
  · next hlast =>
      obtain ⟨front, hfront⟩ := List.getLast?_eq_some_iff.1 hlast
      exact ⟨front, 1, hfront, by simp [hfront], fun _ => Nat.one_ne_zero⟩
  · refine ⟨p.text.toList, 0, by simp, by simp, fun hnil => absurd ?_ hp⟩
    exact String.toList_inj.1 (by simpa using hnil)

/-- **A relative path written after another one goes on from there**, part by part. -/
theorem components_join {p q : Path} (hp : p.text ≠ "") (hq : q.isAbsolute = false) :
    (p.join q).components = p.components ++ q.parts.filterMap component? := by
  obtain ⟨front, k, htext, hjoin, hk⟩ := exists_toList_join hp hq
  have hparts : p.parts =
      (Text.pieces (· == '/') front).map String.ofList ++ List.replicate k "" := by
    unfold parts
    rw [htext, pieces_append_slashes, List.map_append, List.map_replicate]
  have hjoined : (p.join q).parts =
      (Text.pieces (· == '/') front).map String.ofList ++ q.parts := by
    unfold parts
    rw [hjoin, Text.pieces_append_of_sep (by simp), List.map_append]
  have hempty : (List.replicate k "").filterMap component? = [] :=
    List.filterMap_replicate_of_none rfl
  have habsolute : (p.join q).isAbsolute = p.isAbsolute := by
    unfold isAbsolute
    rw [htext, hjoin]
    cases front with
    | nil =>
        obtain ⟨k, rfl⟩ := Nat.exists_eq_succ_of_ne_zero (hk rfl)
        rfl
    | cons c front => rfl
  obtain ⟨piece, more, hpieces⟩ := List.exists_cons_of_ne_nil (Text.pieces_ne_nil (· == '/') front)
  unfold components
  rw [habsolute, hparts, hjoined, List.filterMap_append, List.filterMap_append, hempty,
    List.append_nil, ← List.append_assoc, hpieces]
  rfl

/-- **A relative path written after another one lies below it exactly if it does not go up.** -/
theorem isBelow_join_iff {p q : Path} (hq : q.isAbsolute = false) :
    (p.join q).IsBelow p ↔ .up ∉ q.components := by
  have hroot : .root ∉ q.components := fun h => by
    rw [root_mem_components_iff, hq] at h
    cases h
  by_cases hp : p.text = ""
  · have hjoin : p.join q = q := by
      unfold join
      rw [hp]
      exact if_pos (Bool.or_true _)
    have hnone : p.components = [] := by
      obtain rfl : p = ⟨""⟩ := congrArg Path.mk hp
      rfl
    rw [hjoin]
    constructor
    · rintro ⟨rest, heq, -, hup⟩
      rwa [heq, hnone]
    · intro hup
      exact ⟨q.components, by rw [hnone, List.nil_append], hroot, hup⟩
  · have heq := components_join hp hq
    rw [up_mem_components_iff]
    constructor
    · rintro ⟨rest, hrest, -, hup⟩
      rw [heq] at hrest
      rwa [List.append_cancel_left hrest]
    · intro hup
      exact ⟨_, heq, root_not_mem_filterMap q.parts, hup⟩

/-- An absolute path lies below no relative one. -/
theorem not_isBelow_of_isAbsolute {root p : Path} (hp : p.isAbsolute = true)
    (hroot : root.isAbsolute = false) : ¬ p.IsBelow root := by
  rintro ⟨rest, heq, hrest, -⟩
  have hmem := root_mem_components_iff.2 hp
  rw [heq, List.mem_append, or_iff_left hrest, root_mem_components_iff, hroot] at hmem
  cases hmem

end Path

/-! ## Parts in a text -/

/-- The text ends where a part of a path can begin. -/
def StartsPart (before : List Char) : Prop := ∀ c ∈ before.getLast?, c = '/'

/-- The text begins where a part of a path can end. -/
def EndsPart (after : List Char) : Prop := ∀ c ∈ after.head?, c = '/'

theorem StartsPart.of_append {front text : List Char} (h : StartsPart (front ++ text)) :
    StartsPart text := by
  intro c hc
  refine h c ?_
  rw [List.getLast?_append, Option.mem_def.1 hc]
  rfl

theorem EndsPart.of_append {text rest : List Char} (h : EndsPart (text ++ rest)) :
    EndsPart text := by
  intro c hc
  refine h c ?_
  rw [List.head?_append, Option.mem_def.1 hc]
  rfl

theorem StartsPart.eq_nil {text : List Char} (h : StartsPart text) (hslash : '/' ∉ text) :
    text = [] := by
  rcases List.eq_nil_or_concat' text with rfl | ⟨front, c, rfl⟩
  · rfl
  · have hc : c = '/' := h c (by simp)
    exact absurd (by simp [hc]) hslash

theorem EndsPart.eq_nil {text : List Char} (h : EndsPart text) (hslash : '/' ∉ text) :
    text = [] := by
  cases text with
  | nil => rfl
  | cons c text => exact absurd (by simp [h c rfl]) hslash

/-- A path with a `..` in it, as a text. -/
theorem up_mem_pieces_iff {cs : List Char} : ['.', '.'] ∈ Text.pieces (· == '/') cs ↔
    ∃ before after, cs = before ++ '.' :: '.' :: after ∧ StartsPart before ∧ EndsPart after := by
  rw [Text.mem_pieces_iff, and_iff_right (by decide)]
  simp only [List.append_assoc, List.cons_append, List.nil_append]
  rfl

end LiveExcerpts
