import LiveExcerpts.Proofs.Bindings
import LiveExcerpts.Proofs.Sharing
import LiveExcerpts.Proofs.Tokens.Lookup
/-!
# Lines

A builder counts lines as it goes, over leaves that are clipped or left out and over the gaps
between them.  What it counts are the line feeds before a token, so the line that a token has is the
line that its first byte is on; and so are the lines in listings and in the links above excerpts.

Main definitions: `Text.lineOf?`, `TokenStream.Builder.CountsLines`.  Main statements: a builder
counts lines whatever the order of the leaves (`TokenStream.Builder.Reached.countsLines`), every
token is on its line (`TokenStream.lineOf?_of_getElem?`), and `SourceFile.lines_of_declarations` on
what readers are told.
-/

namespace LiveExcerpts

/-! ## Lines of a text -/

namespace Text

/-- The line that a byte of a text is on, counted from one: it is one more than there are line feeds
before the byte.  Only edges of characters are on a line. -/
def lineOf? (s : String) (byte : Nat) : Option Nat :=
  (slice? s 0 byte).map fun before => 1 + countNewlines before

theorem countNewlines_append (s t : String) :
    countNewlines (s ++ t) = countNewlines s + countNewlines t := by
  unfold countNewlines
  rw [String.toList_append, List.count_append]

/-- The first byte is on the first line. -/
theorem lineOf?_zero (s : String) : lineOf? s 0 = some 1 := by
  have hempty : slice? s 0 0 = some "" :=
    slice?_eq_some_iff.2 ⟨⟨Nat.le_refl 0, isEdge_zero s, isEdge_zero s⟩, by simp⟩
  unfold lineOf?
  rw [hempty]
  rfl

/-- What is on a line is an edge of a character. -/
theorem isEdge_of_lineOf? {s : String} {byte n : Nat} (h : lineOf? s byte = some n) :
    IsEdge s byte := by
  obtain ⟨before, hbefore, -⟩ := Option.map_eq_some_iff.1 h
  exact (slice?_eq_some_iff.1 hbefore).1.2.2

/-- Behind a slice, the line is further by the line feeds in it. -/
theorem lineOf?_of_slice? {s t : String} {a b n : Nat} (h : lineOf? s a = some n)
    (ht : slice? s a b = some t) : lineOf? s b = some (n + countNewlines t) := by
  obtain ⟨before, hbefore, rfl⟩ := Option.map_eq_some_iff.1 h
  unfold lineOf?
  rw [slice?_append hbefore ht, Option.map_some, countNewlines_append, Nat.add_assoc]

end Text

/-! ## Lines of tokens -/

namespace TokenStream

variable {source : String}

/-- A builder that counts lines: its cursor and all of its tokens are on the lines that it says. -/
structure Builder.CountsLines (source : String) (b : Builder) : Prop where
  /-- The line of the cursor. -/
  cursor : Text.lineOf? source b.cursor = some b.line
  /-- The lines of the tokens. -/
  tokens : ∀ token ∈ b.tokens.toList, Text.lineOf? source token.start = some token.line

/-- A token that ends on an edge of a character is counted with all of its line feeds. -/
theorem Builder.CountsLines.push {b : Builder} (h : b.CountsLines source) {stop : Nat}
    (hlt : b.cursor < stop) (hstop : Text.IsEdge source stop) (kind : String) (channel : Channel) :
    (b.push source kind stop channel).CountsLines source where
  cursor := by
    have hcursor := Text.isEdge_of_lineOf? h.cursor
    obtain ⟨text, htext⟩ := Text.exists_slice?_of_isEdge (Nat.le_of_lt hlt) hcursor hstop
    show Text.lineOf? source stop =
      some (b.line + (Text.slice? source b.cursor stop).elim 0 Text.countNewlines)
    rw [htext, Option.elim_some]
    exact Text.lineOf?_of_slice? h.cursor htext
  tokens := forall_tokens_push h.tokens h.cursor

/-- **A builder counts lines**, in whichever order the leaves come and however they overlap. -/
theorem Builder.Reached.countsLines {leaves : List Node} {b : Builder}
    (h : b.Reached source leaves) (hleaves : ∀ leaf ∈ leaves, leaf.OnEdges source) :
    b.CountsLines source := by
  induction h with
  | start => exact ⟨Text.lineOf?_zero source, by simp [Builder.start]⟩
  | leaf _ hleaf hlt ih => exact ih.push hlt (hleaves _ hleaf).2 _ _
  | whitespace _ hstop hlt _ ih => exact ih.push hlt (isEdge_of_gap hleaves hstop) _ _
  | text _ hstop hlt ih => exact ih.push hlt (isEdge_of_gap hleaves hstop) _ _

/-- Leaves that lie on edges of characters lie in the source. -/
theorem stop_le_of_onEdges {root : Node} (hleaves : ∀ leaf ∈ root.leaves, leaf.OnEdges source) :
    ∀ leaf ∈ root.leaves, leaf.stop ≤ source.utf8ByteSize := by
  intro leaf hleaf
  exact (hleaves leaf hleaf).2.le_utf8ByteSize

/-- **Every token is on its line.** -/
theorem lineOf?_of_getElem? {root : Node} (hleaves : ∀ leaf ∈ root.leaves, leaf.OnEdges source)
    {i : Nat} {token : Token} (htoken : (ofTree source root).tokens[i]? = some token) :
    Text.lineOf? source token.start = some token.line := by
  obtain ⟨b, hb, -, htokens⟩ := exists_reached_ofLeaves
    (fun _ hleaf => Node.start_lt_stop_of_mem_leaves hleaf) (stop_le_of_onEdges hleaves)
  have hmem : token ∈ b.tokens.toList := by
    rw [← htokens]
    exact Array.mem_toList_iff.2 (Array.mem_of_getElem? htoken)
  exact (hb.countsLines hleaves).tokens token hmem

end TokenStream

/-! ## Lines that readers are told -/

/-- The heading above an excerpt ends with the line that it links to. -/
theorem Location.exists_header_eq (location : Location) (home : String) (line : Nat) :
    ∃ before, location.header home line = before ++ "#L" ++ toString line ++ ")" :=
  ⟨_, rfl⟩

/-- What is cut out of a file is the run of the declaration that is located, with its line. -/
theorem SourceFile.cut_eq_ok_iff {file : SourceFile} {identifier : String} {extent : Extent}
    {cutting : Cutting} :
    file.cut identifier extent = .ok cutting ↔
      ∃ d r, file.locate identifier = .ok d ∧ d.range file.tokens file.path extent = .ok r ∧
        cutting = ⟨file.tokens.textOf r.first r.last, file.language.fence, d.line⟩ := by
  constructor
  · intro h
    obtain ⟨d, hd, hrest⟩ := bind_eq_ok_iff.1 h
    obtain ⟨r, hr, hcutting⟩ := bind_eq_ok_iff.1 hrest
    exact ⟨d, r, hd, hr, (Except.ok.inj hcutting).symm⟩
  · rintro ⟨d, r, hd, hr, rfl⟩
    exact bind_eq_ok_iff.2 ⟨d, hd, bind_eq_ok_iff.2 ⟨r, hr, rfl⟩⟩

namespace Extractor

variable {grammars : Grammars} {fs : FileSystem} {location : Location} {extent : Extent}
  {x : Extractor} {file : SourceFile}

/-- What can be cut out of its file is shown below a heading. -/
theorem exists_excerpt_eq {cutting : Cutting}
    (hfile : x.sourceOf grammars fs location.sourcePath = .ok file)
    (hcut : file.cut location.identifier extent = .ok cutting) :
    ∃ rest, (x.excerpt grammars fs location extent).1 =
      .ok (location.header x.settings.home cutting.line :: rest) := by
  rw [excerpt_eq, cut_eq, hfile]
  dsimp only
  rw [hcut]
  exact ⟨_, rfl⟩

/-- Nothing else is shown. -/
theorem exists_cut_of_excerpt {fragments : List String}
    (hfile : x.sourceOf grammars fs location.sourcePath = .ok file)
    (h : (x.excerpt grammars fs location extent).1 = .ok fragments) :
    ∃ cutting rest, file.cut location.identifier extent = .ok cutting ∧
      fragments = location.header x.settings.home cutting.line :: rest := by
  cases hcut : file.cut location.identifier extent with
  | error e =>
      rw [excerpt_eq, cut_eq, hfile] at h
      dsimp only at h
      rw [hcut] at h
      exact nomatch h
  | ok cutting =>
      obtain ⟨rest, hrest⟩ := exists_excerpt_eq hfile hcut
      exact ⟨cutting, rest, rfl, Except.ok.inj (h.symm.trans hrest)⟩

end Extractor

namespace SourceFile

variable {path : Path} {language : Language} {source : String} {root : Node}

/-- A declaration that starts with a token is on the line of its first byte. -/
theorem line_of_declare {binding : Binding} {d : Declaration}
    (hleaves : ∀ leaf ∈ root.leaves, leaf.OnEdges source)
    (hstart : ∃ (i : Nat) (token : Token),
      (TokenStream.ofTree source root).tokens[i]? = some token ∧
      token.start = binding.start language)
    (hd : (ofTree path language source root).declare binding = .ok d) :
    Text.lineOf? source (binding.start language) = some d.line := by
  obtain ⟨i, token, htoken, hbegin⟩ := hstart
  have htiled : (TokenStream.ofTree source root).Tiled := TokenStream.tiled_ofLeaves
    (fun _ hleaf => Node.start_lt_stop_of_mem_leaves hleaf)
    (TokenStream.stop_le_of_onEdges hleaves)
  have hi := htiled.tokenAt?_start htoken
  rw [hbegin] at hi
  obtain ⟨hfirst, -, -, -, hline, -, -⟩ := declare_eq_ok_iff.1 hd
  obtain rfl : i = d.start := Option.some.inj (hi.symm.trans hfirst)
  have hat : (ofTree path language source root).tokens.tokens[d.start]? = some token := htoken
  rw [hat, Option.elim_some] at hline
  rw [← hbegin, hline]
  exact TokenStream.lineOf?_of_getElem? hleaves htoken

/-- A name that starts with a token is located exactly if a token ends at or before the end of what
it is bound to. -/
theorem exists_locate_iff {binding : Binding} {identifier : String}
    (htiled : (TokenStream.ofTree source root).Tiled)
    (hstart : ∃ (i : Nat) (token : Token),
      (TokenStream.ofTree source root).tokens[i]? = some token ∧
      token.start = binding.start language)
    (hfound : (ofTree path language source root).bindings.find?
      (fun b => b.name == identifier) = some binding) :
    (∃ d, (ofTree path language source root).locate identifier = .ok d) ↔
      ∃ (i : Nat) (token : Token), (TokenStream.ofTree source root).tokens[i]? = some token ∧
        token.stop ≤ (binding.outer language).node.stop := by
  rw [locate_of_find? hfound]
  constructor
  · rintro ⟨d, hd⟩
    obtain ⟨-, hlast, -⟩ := declare_eq_ok_iff.1 hd
    obtain ⟨⟨token, htoken, hle⟩, -⟩ := htiled.lastEndingAt?_eq_some_iff.1 hlast
    exact ⟨d.stop, token, htoken, hle⟩
  · rintro ⟨j, last, hlast, hle⟩
    obtain ⟨i, token, htoken, hbegin⟩ := hstart
    have hi := htiled.tokenAt?_start htoken
    rw [hbegin] at hi
    obtain ⟨k, -, hk⟩ := htiled.exists_le_lastEndingAt? hlast hle
    obtain ⟨d, hd, -⟩ :=
      @exists_declare_eq_ok (ofTree path language source root) binding i k hi hk
    exact ⟨d, hd⟩

/-- Readers are told that a binding is on a line, wherever they are told of its line at all. -/
structure ToldOn (file : SourceFile) (binding : Binding) (line : Nat) : Prop where
  /-- The list of all declarations has an entry with the line where the binding is. -/
  listed : ∀ (listed : List Declaration) (k : Nat), file.declarations = .ok listed →
    file.bindings[k]? = some binding → ∃ d, listed[k]? = some d ∧ d.line = line
  /-- Where the binding is located by its name, it has the line. -/
  located : ∀ (identifier : String) (d : Declaration),
    file.bindings.find? (fun b => b.name == identifier) = some binding →
    file.locate identifier = .ok d → d.line = line
  /-- Where it can be cut out of the file, the excerpt begins with a link to the line, -/
  linked : ∀ grammars fs location extent (x : Extractor) d r,
    file.bindings.find? (fun b => b.name == location.identifier) = some binding →
    x.sourceOf grammars fs location.sourcePath = .ok file →
    file.locate location.identifier = .ok d → d.range file.tokens file.path extent = .ok r →
    ∃ before rest, (x.excerpt grammars fs location extent).1 =
      .ok ((before ++ "#L" ++ toString line ++ ")") :: rest)
  /-- and every excerpt does. -/
  links : ∀ grammars fs location extent (x : Extractor) fragments,
    file.bindings.find? (fun b => b.name == location.identifier) = some binding →
    x.sourceOf grammars fs location.sourcePath = .ok file →
    (x.excerpt grammars fs location extent).1 = .ok fragments →
    ∃ before rest, fragments = (before ++ "#L" ++ toString line ++ ")") :: rest

/-- It is enough that the binding is declared on the line. -/
theorem toldOn_of_declare {file : SourceFile} {binding : Binding} {line : Nat}
    (hdeclared : ∀ d, file.declare binding = .ok d → d.line = line) : file.ToldOn binding line := by
  have hlocated : ∀ identifier d,
      file.bindings.find? (fun b => b.name == identifier) = some binding →
      file.locate identifier = .ok d → d.line = line := by
    intro identifier d hfound hd
    rw [locate_of_find? hfound] at hd
    exact hdeclared d hd
  refine ⟨?listed, hlocated, ?linked, ?links⟩
  case listed =>
    intro listed k hlisted hbinding
    have haligned := declarations_eq_ok_iff.1 hlisted
    obtain ⟨hk, rfl⟩ := List.getElem?_eq_some_iff.1 hbinding
    have hk' : k < listed.length := haligned.length_eq ▸ hk
    exact ⟨listed[k], List.getElem?_eq_getElem hk', hdeclared _ (haligned.get hk hk')⟩
  case linked =>
    intro grammars fs location extent x d r hfound hfile hd hr
    obtain ⟨rest, hrest⟩ :=
      Extractor.exists_excerpt_eq hfile (cut_eq_ok_iff.2 ⟨d, r, hd, hr, rfl⟩)
    obtain ⟨before, hheader⟩ := location.exists_header_eq x.settings.home d.line
    refine ⟨before, rest, ?_⟩
    rw [hrest, hheader, hlocated _ d hfound hd]
  case links =>
    intro grammars fs location extent x fragments hfound hfile hfragments
    obtain ⟨cutting, rest, hcut, rfl⟩ := Extractor.exists_cut_of_excerpt hfile hfragments
    obtain ⟨d, r, hd, -, rfl⟩ := cut_eq_ok_iff.1 hcut
    obtain ⟨before, hheader⟩ := location.exists_header_eq x.settings.home d.line
    refine ⟨before, rest, ?_⟩
    rw [hheader, hlocated _ d hfound hd]

/-- **Lines are right.**  For a tree whose leaves lie on edges of characters, in whichever order and
however they overlap, every token has the line that its first byte is on.  So where the decorated
start of a declaration is the start of a token, the line of that byte is the line that the
declaration has on the list of all declarations and where it is located by its name, and the one
that the link above its excerpts leads to, whatever was done with the extractor before.  It is
located unless all tokens reach beyond its end. -/
theorem lines_of_declarations (path : Path) (language : Language) (source : String) (root : Node)
    (hleaves : ∀ leaf ∈ root.leaves, leaf.OnEdges source) :
    (∀ (i : Nat) (token : Token), (TokenStream.ofTree source root).tokens[i]? = some token →
      Text.lineOf? source token.start = some token.line) ∧
    ∀ binding ∈ (ofTree path language source root).bindings,
      (∃ (i : Nat) (token : Token), (TokenStream.ofTree source root).tokens[i]? = some token ∧
        token.start = binding.start language) →
      (∃ line, Text.lineOf? source (binding.start language) = some line ∧
        (ofTree path language source root).ToldOn binding line) ∧
      ∀ identifier, (ofTree path language source root).bindings.find?
          (fun b => b.name == identifier) = some binding →
        ((∃ d, (ofTree path language source root).locate identifier = .ok d) ↔
          ∃ (i : Nat) (token : Token), (TokenStream.ofTree source root).tokens[i]? = some token ∧
            token.stop ≤ (binding.outer language).node.stop) := by
  have htiled : (TokenStream.ofTree source root).Tiled := TokenStream.tiled_ofLeaves
    (fun _ hleaf => Node.start_lt_stop_of_mem_leaves hleaf)
    (TokenStream.stop_le_of_onEdges hleaves)
  refine ⟨fun i token htoken => TokenStream.lineOf?_of_getElem? hleaves htoken, ?_⟩
  intro binding _ hstart
  refine ⟨?_, fun identifier hfound => exists_locate_iff htiled hstart hfound⟩
  obtain ⟨i, token, htoken, hbegin⟩ := hstart
  have hline := TokenStream.lineOf?_of_getElem? hleaves htoken
  rw [hbegin] at hline
  refine ⟨token.line, hline, toldOn_of_declare fun d hd => ?_⟩
  have hsame := line_of_declare hleaves ⟨i, token, htoken, hbegin⟩ hd
  exact Option.some.inj (hsame.symm.trans hline)

/-- A comment, a constant whose value goes over two lines, and a function below them. -/
def scrambledText : String := "//é\nconst A = \"x\ny\";\n\nfn f() \x7b\x7d"

/-- A tree of `scrambledText` that has the comment behind the constant, and an error that reaches
over the space between constant and function. -/
def scrambled : Node :=
  ⟨"source_file", true, none, 0, 32, [
    ⟨"const_item", true, none, 5, 21, [
      ⟨"const", false, none, 5, 10, []⟩,
      ⟨"identifier", true, some "name", 11, 12, []⟩,
      ⟨"=", false, none, 13, 14, []⟩,
      ⟨"string_literal", true, some "value", 15, 20, [
        ⟨"\"", false, none, 15, 16, []⟩,
        ⟨"string_content", true, none, 16, 19, []⟩,
        ⟨"\"", false, none, 19, 20, []⟩]⟩,
      ⟨";", false, none, 20, 21, []⟩]⟩,
    ⟨"line_comment", true, none, 0, 4, [⟨"//", false, none, 0, 2, []⟩]⟩,
    ⟨"ERROR", true, none, 19, 23, []⟩,
    ⟨"function_item", true, none, 23, 32, [
      ⟨"fn", false, none, 23, 25, []⟩,
      ⟨"identifier", true, some "name", 26, 27, []⟩,
      ⟨"parameters", true, some "parameters", 27, 29, [
        ⟨"(", false, none, 27, 28, []⟩,
        ⟨")", false, none, 28, 29, []⟩]⟩,
      ⟨"block", true, some "body", 30, 32, [
        ⟨"\x7b", false, none, 30, 31, []⟩,
        ⟨"\x7d", false, none, 31, 32, []⟩]⟩]⟩]⟩

/-- An extractor that has read `scrambledText`. -/
def scrambledReader : Extractor where
  settings := {}
  sources := ⟨[((Path.join ⟨""⟩ ⟨"a.rs"⟩).components,
    ofTree ⟨"a.rs"⟩ .rust scrambledText scrambled)]⟩

/-- The function in `scrambledText` is the second name in it, and starts with a token, on the fifth
line. -/
theorem exists_binding_scrambled :
    ∃ (binding : Binding) (token : Token),
      (ofTree ⟨"a.rs"⟩ .rust scrambledText scrambled).bindings.find?
        (fun b => b.name == "f") = some binding ∧
      (ofTree ⟨"a.rs"⟩ .rust scrambledText scrambled).bindings[1]? = some binding ∧
      (TokenStream.ofTree scrambledText scrambled).tokens[12]? = some token ∧
      token.start = binding.start .rust ∧
      token.stop ≤ (binding.outer .rust).node.stop ∧
      Text.lineOf? scrambledText (binding.start .rust) = some 5 := by
  obtain ⟨binding, hfound⟩ : ∃ binding,
      (ofTree ⟨"a.rs"⟩ .rust scrambledText scrambled).bindings.find?
        (fun b => b.name == "f") = some binding := Option.isSome_iff_exists.1 (by decide +kernel)
  obtain ⟨token, htoken⟩ : ∃ token,
      (TokenStream.ofTree scrambledText scrambled).tokens[12]? = some token :=
    Option.isSome_iff_exists.1 (by decide +kernel)
  have hsecond : (ofTree ⟨"a.rs"⟩ .rust scrambledText scrambled).bindings.find?
      (fun b => b.name == "f") =
        (ofTree ⟨"a.rs"⟩ .rust scrambledText scrambled).bindings[1]? := rfl
  have hbounds : ∀ b ∈ (ofTree ⟨"a.rs"⟩ .rust scrambledText scrambled).bindings.find?
      (fun b => b.name == "f"),
      b.start .rust = 23 ∧ 25 ≤ (b.outer .rust).node.stop := by decide +kernel
  have hplace : ∀ t ∈ (TokenStream.ofTree scrambledText scrambled).tokens[12]?,
      t.start = 23 ∧ t.stop = 25 := by decide +kernel
  obtain ⟨hstart, hstop⟩ := hbounds binding hfound
  obtain ⟨hbegin, hend⟩ := hplace token htoken
  refine ⟨binding, token, hfound, hsecond.symm.trans hfound, htoken, by rw [hbegin, hstart],
    by rwa [hend], ?_⟩
  rw [hstart]
  decide +kernel

theorem lines_of_declarations_scrambled :
    (∀ leaf ∈ scrambled.leaves, leaf.OnEdges scrambledText) ∧
    ∃ (binding : Binding) (token : Token) (d : Declaration) (listed : List Declaration)
        (before : String) (rest : List String),
      (ofTree ⟨"a.rs"⟩ .rust scrambledText scrambled).bindings.find?
        (fun b => b.name == "f") = some binding ∧
      (ofTree ⟨"a.rs"⟩ .rust scrambledText scrambled).bindings[1]? = some binding ∧
      (TokenStream.ofTree scrambledText scrambled).tokens[12]? = some token ∧
      token.start = binding.start .rust ∧ token.line = 5 ∧
      (ofTree ⟨"a.rs"⟩ .rust scrambledText scrambled).declarations = .ok listed ∧
      (listed[1]?).map Declaration.line = some 5 ∧
      (ofTree ⟨"a.rs"⟩ .rust scrambledText scrambled).locate "f" = .ok d ∧ d.line = 5 ∧
      (scrambledReader.excerpt (fun _ _ => .ok scrambled) ⟨[], []⟩ ⟨⟨""⟩, ⟨"a.rs"⟩, "f", "u"⟩
        .definition).1 = .ok ((before ++ "#L" ++ toString 5 ++ ")") :: rest) := by
  have hleaves : ∀ leaf ∈ scrambled.leaves, leaf.OnEdges scrambledText := by decide +kernel
  obtain ⟨binding, token, hfound, hsecond, htoken, hstart, hstop, hfifth⟩ :=
    exists_binding_scrambled
  obtain ⟨htokens, hbindings⟩ :=
    lines_of_declarations ⟨"a.rs"⟩ .rust scrambledText scrambled hleaves
  obtain ⟨⟨line, hline, htold⟩, hlocated⟩ := hbindings binding (List.mem_of_find?_eq_some hfound)
    ⟨12, token, htoken, hstart⟩
  obtain rfl : 5 = line := Option.some.inj (hfifth.symm.trans hline)
  obtain ⟨d, hd⟩ := (hlocated "f" hfound).2 ⟨12, token, htoken, hstop⟩
  obtain ⟨listed, hlisted⟩ := Option.isSome_iff_exists.1 (show
    (ofTree ⟨"a.rs"⟩ .rust scrambledText scrambled).declarations.toOption.isSome from by
      decide +kernel)
  obtain ⟨entry, hentry, hentryLine⟩ :=
    htold.listed listed 1 (eq_ok_of_toOption hlisted) hsecond
  obtain ⟨r, hr⟩ : ∃ r, d.range (TokenStream.ofTree scrambledText scrambled) ⟨"a.rs"⟩
      .definition = .ok r := ⟨_, rfl⟩
  obtain ⟨before, rest, hexcerpt⟩ := htold.linked (fun _ _ => .ok scrambled) ⟨[], []⟩
    ⟨⟨""⟩, ⟨"a.rs"⟩, "f", "u"⟩ .definition scrambledReader d r hfound rfl hd hr
  refine ⟨hleaves, binding, token, d, listed, before, rest, hfound, hsecond, htoken, hstart, ?_,
    eq_ok_of_toOption hlisted, by rw [hentry, Option.map_some, hentryLine], hd,
    htold.located "f" d hfound hd, hexcerpt⟩
  have hfifth' := htokens 12 token htoken
  rw [hstart, hfifth] at hfifth'
  exact (Option.some.inj hfifth').symm

end SourceFile

end LiveExcerpts
