import LiveExcerpts.Proofs.Bindings
import LiveExcerpts.Proofs.Commands
/-!
# Asking for what a file offers

A file offers the names that it declares.  They are the texts that stand in the place of names, and
these need not be words: there are blanks in patterns and in names between quotes, and a name that
is missing is empty.  Commands are made of words.

Main definitions: `Command.request`, `SourceFile.Offers`.  Main statements: what becomes of a
request for any name (`Command.parse_request_cases`), and a name that a file offers can be asked for
exactly if it is a word (`SourceFile.request_iff_isWord`).
-/

namespace LiveExcerpts

namespace Text

/-- Every text goes on up to its first blank. -/
theorem exists_eq_append_of_first_blank (text : String) :
    ∃ word rest : String, text = word ++ rest ∧ (∀ c ∈ word.toList, isBlank c = false) ∧
      ∀ c ∈ rest.toList.head?, isBlank c = true := by
  refine ⟨.ofList (text.toList.takeWhile fun c => !isBlank c),
    .ofList (text.toList.dropWhile fun c => !isBlank c), ?_, ?_, ?_⟩
  · rw [← String.ofList_append, List.takeWhile_append_dropWhile, String.ofList_toList]
  · intro c hc
    rw [String.toList_ofList] at hc
    have hkept := List.all_eq_true.1 List.all_takeWhile c hc
    simpa using hkept
  · intro c hc
    have hnot := List.head?_dropWhile_not (fun c => !isBlank c) text.toList
    rw [String.toList_ofList, Option.mem_def] at hc
    rw [hc] at hnot
    simpa using hnot

/-- A text without blanks is all of what stands before the first blank behind it. -/
theorem takeWhile_append_of_first_blank {word rest : List Char}
    (hword : ∀ c ∈ word, isBlank c = false) (hrest : ∀ c ∈ rest.head?, isBlank c = true) :
    (word ++ rest).takeWhile (fun c => !isBlank c) = word := by
  rw [List.takeWhile_append_of_pos fun c hc => by rw [hword c hc]; rfl]
  cases rest with
  | nil => exact List.append_nil word
  | cons c rest =>
      rw [List.takeWhile_cons_of_neg (by rw [hrest c rfl]; decide), List.append_nil]

/-- There is one place only where a text goes on with its first blank. -/
theorem eq_of_append_of_first_blank {word word' rest rest' : String}
    (h : word ++ rest = word' ++ rest') (hword : ∀ c ∈ word.toList, isBlank c = false)
    (hrest : ∀ c ∈ rest.toList.head?, isBlank c = true)
    (hword' : ∀ c ∈ word'.toList, isBlank c = false)
    (hrest' : ∀ c ∈ rest'.toList.head?, isBlank c = true) : word = word' ∧ rest = rest' := by
  have hsame : word = word' := by
    have hlists := congrArg String.toList h
    rw [String.toList_append, String.toList_append] at hlists
    have htaken := takeWhile_append_of_first_blank hword hrest
    rw [hlists, takeWhile_append_of_first_blank hword' hrest'] at htaken
    exact String.toList_inj.1 htaken.symm
  subst hsame
  exact ⟨rfl, (String.append_right_inj word).1 h⟩

end Text

namespace Command

/-- The line that asks for the signature of a declaration. -/
def request (path name : String) : String := "@decl " ++ path ++ "::" ++ name

variable {path : String}

/-- The words of a request: the verb, the target up to the first blank in the name, and the words
behind that. -/
theorem isLine_request (hpath : Text.IsWord path.toList) {word rest : String}
    (hword : ∀ c ∈ word.toList, Text.isBlank c = false)
    (hrest : ∀ c ∈ rest.toList.head?, Text.isBlank c = true) :
    IsLine (request path (word ++ rest)) (Extent.signature.verb :: (path ++ "::" ++ word) ::
      (Text.words rest.toList).map String.ofList) := by
  have hcolons : Text.IsWord "::".toList := by decide +kernel
  have htarget : Text.IsWord (path ++ "::" ++ word).toList := by
    rw [String.toList_append, String.toList_append]
    refine ⟨by simp, ?_⟩
    simp only [List.forall_mem_append]
    exact ⟨⟨hpath.2, hcolons.2⟩, hword⟩
  have hmore : Text.IsSpaced (((Text.words rest.toList).map String.ofList).map String.toList)
      rest.toList := by
    rw [Text.isSpaced_iff_words_eq]
    simp [Function.comp_def]
  have hspace : Text.allBlank [' '] = true := rfl
  have hspaced := Text.IsSpaced.cons Text.allBlank_nil (isWord_verb .signature) (by simp; rfl)
    (Text.IsSpaced.cons hspace htarget hrest hmore)
  refine ⟨[], _, ?_, rfl, hspaced⟩
  unfold request
  simp [Extent.verb]

/-- A target that ends with `::` has no identifier. -/
theorem not_isTarget_of_end (hpath : Text.IsWord path.toList)
    (hcolons : ¬ [':', ':'] <:+: path.toList) (hend : path.toList.getLast? ≠ some ':')
    (p identifier : String) : ¬ IsTarget (path ++ "::" ++ "") p identifier := by
  intro h
  have hne : path ≠ "" := by simpa using hpath.1
  -- With a further character behind it, the first `::` would still be the one after the path.
  have hlonger : path ++ "::" ++ "x" = p ++ "::" ++ (identifier ++ "x") := by
    rw [← String.append_assoc, ← h.eq_append]
    simp
  have hleast := (isTarget_append hne (by decide) hcolons hend).least p _ hlonger
  have hlength := congrArg String.length h.eq_append
  simp only [String.length_append, String.length_empty] at hlength
  have hidentifier : identifier.length = 0 := by omega
  exact h.identifier_ne_empty (String.length_eq_zero_iff.1 hidentifier)

/-- **What becomes of a request.**  The blanks at the end of a name are no part of it.  What is left
is asked for if it is a word, and otherwise the request is malformed. -/
theorem parse_request_cases (hpath : Text.IsWord path.toList)
    (hcolons : ¬ [':', ':'] <:+: path.toList) (hend : path.toList.getLast? ≠ some ':')
    (name : String) :
    (∃ word gap : String, name = word ++ gap ∧ Text.IsWord word.toList ∧
      Text.allBlank gap.toList = true ∧ parse (request path name) = .ok ⟨.signature, path, word⟩) ∨
    (∀ word gap : String, name = word ++ gap → Text.IsWord word.toList →
      Text.allBlank gap.toList = false) ∧
      ∃ reason, parse (request path name) =
        .error (.malformedCommand (request path name) reason) := by
  obtain ⟨word, rest, rfl, hword, hrest⟩ := Text.exists_eq_append_of_first_blank name
  have hline := isLine_request hpath hword hrest
  have honly : ∀ word' gap : String, word ++ rest = word' ++ gap → Text.IsWord word'.toList →
      Text.allBlank gap.toList = true → word = word' ∧ rest = gap := by
    intro word' gap heq hword' hgap
    refine Text.eq_of_append_of_first_blank heq hword hrest hword'.2 fun c hc => ?_
    exact List.all_eq_true.1 hgap c (List.mem_of_mem_head? hc)
  cases hmore : Text.words rest.toList with
  | cons third more =>
      refine .inr ⟨fun word' gap heq hword' => ?_, ?_⟩
      · rw [← Bool.not_eq_true]
        intro hgap
        rw [(honly word' gap heq hword' hgap).2, (Text.IsSpaced.nil hgap).words_eq] at hmore
        cases hmore
      · refine exists_parse_eq_malformed_iff.2 (.inl fun words hwords => .inr ?_)
        rw [hwords.unique hline, hmore]
        simp
  | nil =>
      rw [hmore] at hline
      by_cases hempty : word = ""
      · subst hempty
        refine .inr ⟨fun word' gap heq hword' => ?_, ?_⟩
        · rw [← Bool.not_eq_true]
          intro hgap
          obtain ⟨rfl, -⟩ := honly word' gap heq hword' hgap
          exact hword'.1 rfl
        · refine exists_parse_eq_malformed_iff.2 (.inr ⟨.signature, _, hline, Nat.le_refl 1, ?_⟩)
          simpa using not_isTarget_of_end hpath hcolons hend
      · have hgap : Text.allBlank rest.toList = true := by
          cases Text.isSpaced_iff_words_eq.2 hmore with
          | nil hgap => exact hgap
        have hne : path ≠ "" := by simpa using hpath.1
        refine .inl ⟨word, rest, rfl, ⟨by simpa using hempty, hword⟩, hgap, ?_⟩
        exact @parse_of_isTarget _ _ ⟨.signature, path, word⟩ hline
          (isTarget_append hne hempty hcolons hend)

/-- A name is asked for exactly if it is a word. -/
theorem parse_request_eq_ok_iff (hpath : Text.IsWord path.toList)
    (hcolons : ¬ [':', ':'] <:+: path.toList) (hend : path.toList.getLast? ≠ some ':')
    (name : String) :
    (∃ command, parse (request path name) = .ok command ∧ command.identifier = name) ↔
      Text.IsWord name.toList := by
  rcases parse_request_cases hpath hcolons hend name with
    ⟨word, gap, heq, hword, hgap, hparse⟩ | ⟨hnone, reason, hparse⟩
  · rw [hparse]
    constructor
    · rintro ⟨command, hcommand, hname⟩
      obtain rfl := Except.ok.inj hcommand
      rw [← hname]
      exact hword
    · intro hname
      -- In a word there is no blank, so nothing was cut off.
      have hnil : gap.toList = [] := List.eq_nil_iff_forall_not_mem.2 fun c hc => by
        have hblank := List.all_eq_true.1 hgap c hc
        have hmem : c ∈ name.toList := by
          rw [heq, String.toList_append]
          exact List.mem_append_right _ hc
        rw [hname.2 c hmem] at hblank
        cases hblank
      obtain rfl : gap = "" := by simpa using hnil
      exact ⟨_, rfl, by simp [heq]⟩
  · rw [hparse]
    refine iff_of_false (by simp) fun hname => ?_
    have hblank := hnone name "" (by simp) hname
    cases hblank

end Command

namespace SourceFile

variable {file : SourceFile} {name path : String}

/-- The file offers the name: it is on the list of its declarations, or on that of the names that
are given when another name is not found. -/
def Offers (file : SourceFile) (name : String) : Prop :=
  name ∈ file.availableNames ∨
    ∃ listed, file.declarations = .ok listed ∧ ∃ d ∈ listed, d.name = name

/-- What a file offers, it declares. -/
theorem Offers.mem_bindings (h : file.Offers name) : name ∈ file.bindings.map Binding.name := by
  rcases h with havailable | ⟨listed, hlisted, d, hd, rfl⟩
  · exact mem_availableNames.1 havailable
  · rw [← map_name_of_declare (declarations_eq_ok_iff.1 hlisted)]
    exact List.mem_map_of_mem hd

/-- A name that a file declares is found, be it that its declaration cannot be cut out. -/
theorem locate_ne_declarationNotFound (h : name ∈ file.bindings.map Binding.name)
    (available : List String) (path : Path) (identifier : String) :
    file.locate name ≠ .error (.declarationNotFound available path identifier) := by
  cases hfound : file.bindings.find? fun binding => binding.name == name with
  | none => exact absurd h (find?_bindings_eq_none_iff.1 hfound)
  | some binding =>
      rw [locate_of_find? hfound]
      unfold declare
      intro hfailed
      dsimp only at hfailed
      split at hfailed
      · split at hfailed <;> cases hfailed
      · cases hfailed

/-- **A name that a file offers can be asked for exactly if it is a word.**  Locating it never fails
for want of a declaration, so all depends on the request.  If the name is a word with blanks behind
it, the request asks for the word without them; if it is not even that, the request is malformed. -/
theorem request_iff_isWord (hname : file.Offers name) (hpath : Text.IsWord path.toList)
    (hcolons : ¬ [':', ':'] <:+: path.toList) (hend : path.toList.getLast? ≠ some ':') :
    ((∃ command, Command.parse (Command.request path name) = .ok command ∧
        command.identifier = name) ↔ Text.IsWord name.toList) ∧
    ((∃ word gap : String, name = word ++ gap ∧ Text.IsWord word.toList ∧
        Text.allBlank gap.toList = true ∧
        Command.parse (Command.request path name) = .ok ⟨.signature, path, word⟩) ∨
      (∀ word gap : String, name = word ++ gap → Text.IsWord word.toList →
        Text.allBlank gap.toList = false) ∧
      ∃ reason, Command.parse (Command.request path name) =
        .error (.malformedCommand (Command.request path name) reason)) ∧
    ∀ available p identifier,
      file.locate name ≠ .error (.declarationNotFound available p identifier) :=
  ⟨Command.parse_request_eq_ok_iff hpath hcolons hend name,
    Command.parse_request_cases hpath hcolons hend name,
    locate_ne_declarationNotFound hname.mem_bindings⟩

end SourceFile

/-- A class with a method whose name stands between quotes. -/
def spacedText : String := "class C \x7b \"a b\"() \x7b\x7d \x7d\n"

/-- The tree of `spacedText`. -/
def spaced : Node :=
  ⟨"program", true, none, 0, 23, [
    ⟨"class_declaration", true, none, 0, 22, [
      ⟨"class", false, none, 0, 5, []⟩,
      ⟨"type_identifier", true, some "name", 6, 7, []⟩,
      ⟨"class_body", true, some "body", 8, 22, [
        ⟨Node.openBrace, false, none, 8, 9, []⟩,
        ⟨"method_definition", true, none, 10, 20, [
          ⟨"string", true, some "name", 10, 15, [
            ⟨"\"", false, none, 10, 11, []⟩,
            ⟨"string_fragment", true, none, 11, 14, []⟩,
            ⟨"\"", false, none, 14, 15, []⟩]⟩,
          ⟨"formal_parameters", true, some "parameters", 15, 17, [
            ⟨"(", false, none, 15, 16, []⟩,
            ⟨")", false, none, 16, 17, []⟩]⟩,
          ⟨"statement_block", true, some "body", 18, 20, [
            ⟨Node.openBrace, false, none, 18, 19, []⟩,
            ⟨"\x7d", false, none, 19, 20, []⟩]⟩]⟩,
        ⟨"\x7d", false, none, 21, 22, []⟩]⟩]⟩]⟩

/-- The file of `spacedText`. -/
def spacedFile : SourceFile := .ofTree ⟨"app.ts"⟩ .typeScript spacedText spaced

theorem availableNames_spacedFile : spacedFile.availableNames = ["C", "\"a b\""] := by
  decide +kernel

/-- The class can be asked for, its method cannot. -/
theorem request_iff_isWord_spaced :
    (∃ command, Command.parse (Command.request "app" "C") = .ok command ∧
      command.identifier = "C") ∧
    ¬ ∃ command, Command.parse (Command.request "app" "\"a b\"") = .ok command ∧
      command.identifier = "\"a b\"" := by
  have hoffers : ∀ name ∈ ["C", "\"a b\""], spacedFile.Offers name := fun name hname =>
    .inl (availableNames_spacedFile ▸ hname)
  have hrequest := fun name hname => @SourceFile.request_iff_isWord spacedFile name "app"
    (hoffers name hname) (by decide +kernel) (by decide) (by decide)
  exact ⟨(hrequest "C" (by simp)).1.2 (by decide +kernel),
    mt (hrequest "\"a b\"" (by simp)).1.1 (by decide +kernel)⟩

/-- Not every name that a file offers can be asked for. -/
theorem not_forall_request :
    ¬ ∀ (file : SourceFile) (name path : String), file.Offers name → Text.IsWord path.toList →
      ¬ [':', ':'] <:+: path.toList → path.toList.getLast? ≠ some ':' →
      (∃ command, Command.parse (Command.request path name) = .ok command ∧
        command.identifier = name) ∧
      ∀ available p identifier,
        file.locate name ≠ .error (.declarationNotFound available p identifier) := by
  intro h
  have hmem : "\"a b\"" ∈ spacedFile.availableNames := by
    rw [availableNames_spacedFile]
    decide
  obtain ⟨⟨command, hparse, -⟩, -⟩ := h spacedFile "\"a b\"" "app" (.inl hmem) (by decide +kernel)
    (by decide) (by decide)
  have hnone : (Command.parse (Command.request "app" "\"a b\"")).toOption = none := by
    decide +kernel
  rw [hparse] at hnone
  cases hnone

end LiveExcerpts
