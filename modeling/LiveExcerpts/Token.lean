import LiveExcerpts.Bisect
import LiveExcerpts.Node
/-!
# Token streams

The tokens of a source file: the leaves of its tree, and one token of our own for every stretch of
bytes that no leaf covers.  Comments and blank stretches are on the hidden channel.  Tokens stand
edge to edge, so any run of them is one slice of the source.

Main definitions: `TokenStream.ofTree`, `TokenStream.textOf`, `TokenStream.isTrivia`, and the two
look-ups by byte, `TokenStream.tokenAt?` and `TokenStream.lastEndingAt?`.
-/

namespace LiveExcerpts

/-- Whether a token counts when the edges of an excerpt are looked for. -/
inductive Channel where
  /-- Keywords, names, punctuation, literals. -/
  | significant
  /-- Comments and white space. -/
  | hidden
deriving DecidableEq, Repr, Inhabited

/-- One token of a source file. -/
structure Token where
  /-- The kind of the leaf, or `whitespace` or `text` where no leaf is. -/
  kind : String
  /-- The byte it starts at. -/
  start : Nat
  /-- The byte after its last. -/
  stop : Nat
  /-- The line of its first byte, counted from one. -/
  line : Nat
  /-- The channel it is on. -/
  channel : Channel
deriving DecidableEq, Repr, Inhabited

/-- The tokens of one source file, in order. -/
structure TokenStream where
  /-- The source text. -/
  source : String
  /-- The tokens, edge to edge. -/
  tokens : Array Token
deriving Repr, Inhabited

namespace TokenStream

/-! ## Building -/

/-- A stream under construction. -/
structure Builder where
  /-- The byte up to which there are tokens. -/
  cursor : Nat
  /-- The line of that byte. -/
  line : Nat
  /-- The tokens so far. -/
  tokens : Array Token
deriving Repr

/-- No tokens yet. -/
def Builder.start : Builder := ⟨0, 1, #[]⟩

/-- Adds the token from the cursor to `stop`, and counts its lines. -/
def Builder.push (source kind : String) (stop : Nat) (channel : Channel) (b : Builder) : Builder :=
  { cursor := stop
    line := b.line + ((Text.slice? source b.cursor stop).elim 0 Text.countNewlines)
    tokens := b.tokens.push ⟨kind, b.cursor, stop, b.line, channel⟩ }

/-- Adds a token for the bytes from the cursor to `stop`, if there are any. -/
def Builder.pushGap (source : String) (stop : Nat) (b : Builder) : Builder :=
  if stop ≤ b.cursor then b
  else if (Text.slice? source b.cursor stop).any fun text => Text.allBlank text.toList then
    b.push source "whitespace" stop .hidden
  else b.push source "text" stop .significant

/-- Adds a leaf and the gap before it.  Of a leaf that overlaps the tokens so far, only what lies
beyond them is added. -/
def Builder.pushLeaf (source : String) (b : Builder) (leaf : Node) : Builder :=
  if leaf.stop ≤ b.cursor then b
  else
    (b.pushGap source leaf.start).push source leaf.kind leaf.stop
      (if leaf.isComment then .hidden else .significant)

/-- The stream of a source text with these leaves. -/
def ofLeaves (source : String) (leaves : List Node) : TokenStream :=
  ⟨source, ((leaves.foldl (Builder.pushLeaf source) .start).pushGap source
    source.utf8ByteSize).tokens⟩

/-- The stream of a source text, read through its tree. -/
def ofTree (source : String) (root : Node) : TokenStream := ofLeaves source root.leaves

/-! ## Look-ups -/

/-- The number of tokens. -/
def size (stream : TokenStream) : Nat := stream.tokens.size

/-- The text of one token; empty where it splits a character. -/
def tokenText (stream : TokenStream) (token : Token) : String :=
  (Text.slice? stream.source token.start token.stop).getD ""

/-- The text of the tokens from `first` to `last`; empty if one of the two does not exist. -/
def textOf (stream : TokenStream) (first last : Nat) : String :=
  match stream.tokens[first]?, stream.tokens[last]? with
  | some a, some b => (Text.slice? stream.source a.start b.stop).getD ""
  | _, _ => ""

/-- There is nothing significant at this index: no token, a hidden one, or a blank one. -/
def isTrivia (stream : TokenStream) (index : Nat) : Bool :=
  match stream.tokens[index]? with
  | none => true
  | some token =>
    token.channel = .hidden || Text.allBlank (stream.tokenText token).toList

/-- The first token that starts at or after `byte`. -/
def tokenAt? (stream : TokenStream) (byte : Nat) : Option Nat :=
  let index := bisect (fun i => stream.tokens[i]?.any fun t => t.start < byte) 0 stream.size
  if index < stream.size then some index else none

/-- The last token that ends at or before `byte`. -/
def lastEndingAt? (stream : TokenStream) (byte : Nat) : Option Nat :=
  match bisect (fun i => stream.tokens[i]?.any fun t => t.stop ≤ byte) 0 stream.size with
  | 0 => none
  | n + 1 => some n

/-! ## The builder keeps tokens edge to edge -/

@[simp] theorem Builder.cursor_push (source kind : String) (stop : Nat) (channel : Channel)
    (b : Builder) : (b.push source kind stop channel).cursor = stop := rfl

@[simp] theorem Builder.tokens_push (source kind : String) (stop : Nat) (channel : Channel)
    (b : Builder) : (b.push source kind stop channel).tokens.toList =
      b.tokens.toList ++ [⟨kind, b.cursor, stop, b.line, channel⟩] := by
  simp [push]

/-- After a gap the cursor is where the gap ends, unless it was there already. -/
theorem Builder.cursor_pushGap (source : String) (stop : Nat) (b : Builder) :
    (b.pushGap source stop).cursor = max b.cursor stop := by
  rw [pushGap]
  split
  · omega
  · split <;> rw [cursor_push] <;> omega

/-- After a leaf the cursor is where the leaf ends, unless it was beyond that already. -/
theorem Builder.cursor_pushLeaf (source : String) (b : Builder) (leaf : Node) :
    (b.pushLeaf source leaf).cursor = max b.cursor leaf.stop := by
  rw [pushLeaf]
  split
  · omega
  · rw [cursor_push]; omega

end TokenStream

end LiveExcerpts
