import LiveExcerpts.Listing
import LiveExcerpts.Markdown
import LiveExcerpts.Watch
/-!
# The command line

What the words of a command line ask for, and what the program does about it: everything but
reading and writing real files.  A line has the name of a command, then options that begin with
two dashes and operands, in any order; `--` makes operands of all that follows.

Main definitions: `Request.parse`, `CommandLine.run`.  Main statements: words behind `--` are
operands whatever they look like (`Shape.step_of_literal`), and a line without a command is refused
(`Request.parse_nil`).
-/

namespace LiveExcerpts

/-! ## Words -/

/-- Why a command line is not carried out. -/
inductive Refusal where
  /-- It asks for help. -/
  | help
  /-- It is not as it should be. -/
  | usage
deriving DecidableEq, Repr

/-- What may stand for an operand, or behind an option. -/
inductive Operand where
  /-- Nothing: the option is a switch. -/
  | nothing
  /-- A path, which is not empty. -/
  | path
  /-- Any text. -/
  | text
deriving DecidableEq, Repr

/-- A text may stand for an operand. -/
def Operand.admits : Operand → String → Bool
  | nothing, _ => false
  | path, word => word != ""
  | text, _ => true

/-- The form of a command's words. -/
structure Shape where
  /-- The options by their names, each with what stands behind it. -/
  options : List (String × Operand)
  /-- The operands, all of which have to be given. -/
  operands : List Operand
deriving DecidableEq, Repr

/-- How far the words of a command have been read. -/
structure Reading where
  /-- The options that were given, each once, with the words behind them. -/
  options : List (String × String) := []
  /-- The operands that were given. -/
  operands : List String := []
  /-- The option whose word is to come. -/
  pending? : Option (String × Operand) := none
  /-- All words from here on are operands. -/
  literal : Bool := false
deriving DecidableEq, Repr

namespace Shape

/-- Takes an option, which may be given once. -/
def takeOption (name : String) (operand : Operand) (word : String) (r : Reading) :
    Except Refusal Reading :=
  if (r.options.lookup name).isSome || !operand.admits word then .error .usage
  else .ok { r with options := r.options ++ [(name, word)], pending? := none }

/-- Takes a switch, which may be given once. -/
def takeSwitch (name : String) (r : Reading) : Except Refusal Reading :=
  if (r.options.lookup name).isSome then .error .usage
  else .ok { r with options := r.options ++ [(name, "")] }

/-- Takes an operand, if there is one left to give. -/
def takeOperand (shape : Shape) (word : String) (r : Reading) : Except Refusal Reading :=
  match shape.operands[r.operands.length]? with
  | none => .error .usage
  | some operand =>
    if operand.admits word then .ok { r with operands := r.operands ++ [word] }
    else .error .usage

/-- The name of the option that a word gives, and the text behind its first `=`. -/
def optionWord? (word : String) : Option (String × Option String) :=
  match word.toList with
  | '-' :: '-' :: cs =>
    match Text.splitFirst? ['='] cs with
    | some (name, value) => some (String.ofList name, some (String.ofList value))
    | none => some (String.ofList cs, none)
  | _ => none

/-- A word looks like an option: it begins with a dash and has more to it. -/
def looksLikeOption (word : String) : Bool :=
  match word.toList with
  | '-' :: _ :: _ => true
  | _ => false

/-- Takes a word that gives an option. -/
def takeOptionWord (shape : Shape) (name : String) (value? : Option String) (r : Reading) :
    Except Refusal Reading :=
  match shape.options.lookup name, value? with
  | some .nothing, none => takeSwitch name r
  | some operand, some value => takeOption name operand value r
  | some operand, none => .ok { r with pending? := some (name, operand) }
  | none, none => .error (if name = "help" then .help else .usage)
  | none, some _ => .error .usage

/-- Takes a word. -/
def step (shape : Shape) (r : Reading) (word : String) : Except Refusal Reading :=
  if r.literal then takeOperand shape word r
  else
    match r.pending? with
    | some (name, operand) =>
      if looksLikeOption word then .error .usage else takeOption name operand word r
    | none =>
      if word = "--" then .ok { r with literal := true }
      else
        match optionWord? word with
        | some (name, value?) => takeOptionWord shape name value? r
        | none =>
          if word.toList.take 2 = ['-', 'h'] then .error .help
          else if looksLikeOption word then .error .usage
          else takeOperand shape word r

/-- Reads the words of a command: all its operands, and no option without its word. -/
def read (shape : Shape) (words : List String) : Except Refusal Reading := do
  let r ← words.foldlM (step shape) {}
  if r.pending?.isNone && r.operands.length = shape.operands.length then return r
  else throw .usage

/-- Behind `--` a word is an operand whatever it looks like. -/
theorem step_of_literal {shape : Shape} {r : Reading} (h : r.literal = true) (word : String) :
    step shape r word = takeOperand shape word r := by
  rw [step, if_pos h]

end Shape

/-! ## Requests -/

/-- What a command line asks for. -/
inductive Request where
  /-- Make all pages. -/
  | build (scenarios? output? : Option Path)
  /-- Print the fragments of one excerpt. -/
  | extract (root : Path) (target : String) (extent : Extent) (url : String)
  /-- List the declarations of a file. -/
  | list (file : Path) (json : Bool)
  /-- Make all pages, again and again. -/
  | watch (scenarios? output? : Option Path)
deriving DecidableEq, Repr

namespace Request

/-- The words of the commands that make all pages. -/
def buildShape : Shape := ⟨[("scenarios", .path), ("output", .path)], []⟩

/-- The words of the command that prints an excerpt. -/
def extractShape : Shape := ⟨[("def", .nothing), ("url", .text)], [.path, .text]⟩

/-- The words of the command that lists declarations. -/
def listShape : Shape := ⟨[("json", .nothing)], [.path]⟩

/-- The path behind an option. -/
def path? (name : String) (r : Reading) : Option Path := (r.options.lookup name).map Path.mk

/-- A switch was given. -/
def isOn (name : String) (r : Reading) : Bool := (r.options.lookup name).isSome

/-- The request of a command with these words. -/
def ofCommand (command : String) (words : List String) : Except Refusal Request :=
  match command with
  | "build" => (buildShape.read words).map fun r => .build (path? "scenarios" r) (path? "output" r)
  | "watch" => (buildShape.read words).map fun r => .watch (path? "scenarios" r) (path? "output" r)
  | "extract" => do
    let r ← extractShape.read words
    match r.operands with
    | [root, target] =>
      let extent := if isOn "def" r then Extent.definition else Extent.signature
      return .extract ⟨root⟩ target extent ((r.options.lookup "url").getD ".")
    | _ => throw .usage
  | "list" => do
    let r ← listShape.read words
    match r.operands with
    | [file] => return .list ⟨file⟩ (isOn "json" r)
    | _ => throw .usage
  | _ => .error .usage

/-- The commands. -/
def commands : List String := ["build", "extract", "list", "watch"]

/-- The request of a whole command line.  Help can be asked for with an option, or with the word
`help` and the command it is about. -/
def parse : List String → Except Refusal Request
  | [] => .error .usage
  | ["help"] => .error .help
  | ["help", about] => .error (if about = "help" ∨ about ∈ commands then .help else .usage)
  | command :: words =>
    if command = "--help" ∨ command.toList.take 2 = ['-', 'h'] then .error .help
    else ofCommand command words

/-- A line without a command is refused. -/
theorem parse_nil : parse [] = .error .usage := rfl

example : (parse ["list", "--json", "--", "-a.rs"]).toOption = some (.list ⟨"-a.rs"⟩ true) := by
  decide +kernel
example : (parse ["build", "--output=o", "--scenarios", "s"]).toOption =
    some (.build (some ⟨"s"⟩) (some ⟨"o"⟩)) := by
  decide +kernel
example : (parse ["list", "a.rs", "b.rs"]).toOption = none := by decide +kernel

end Request

namespace CommandLine

/-! ## Outcomes -/

/-- A line of standard output. -/
inductive Line where
  /-- A text. -/
  | text (text : String)
  /-- How long a build took, which only a clock can tell. -/
  | duration
deriving DecidableEq, Repr

/-- A line in full, given the seconds that the clock has counted. -/
def Line.inFull (seconds : String) : Line → String
  | .text t => t
  | .duration => s!"Finished in {seconds} seconds"

/-- How a run ends. -/
inductive Ending where
  /-- With an exit code. -/
  | exit (code : UInt8)
  /-- Not by itself: it goes on watching. -/
  | watching (watch : Watch)
deriving DecidableEq, Repr

/-- What a run does. -/
structure Outcome where
  /-- How it ends. -/
  ending : Ending
  /-- The lines of its standard output. -/
  output : List Line
  /-- The lines of its standard error. -/
  errors : List String
  /-- The files after it. -/
  fs : FileSystem

/-- How the program is used. -/
def usage : List String :=
  ["Usage: docstitch <COMMAND>",
   "",
   "Commands:",
   "  build    Make a page of every scenario  [--scenarios DIR] [--output DIR]",
   "  extract  Print one excerpt as Markdown  [--def] [--url URL] ROOT TARGET",
   "  list     List a file's declarations  [--json] FILE",
   "  watch    Build again after every change  [--scenarios DIR] [--output DIR]"]

/-- A run that does what was asked for. -/
def succeed (output : List Line) (errors : List String) (fs : FileSystem) : Outcome :=
  ⟨.exit 0, output, errors, fs⟩

/-- A run that fails, after some lines of standard error. -/
def fail (before : List String) (e : Error) (fs : FileSystem) : Outcome :=
  ⟨.exit 1, [], before ++ e.terminalLines, fs⟩

/-! ## Commands -/

/-- The directory that the program is run in. -/
def here : Path := ⟨"."⟩

/-- Makes all pages. -/
def build (tools : Tools) (scenarios? output? : Option Path) (fs : FileSystem) : Outcome :=
  match Settings.load fs here with
  | .error e => fail [] e fs
  | .ok settings =>
    let settings := settings.override scenarios? output?
    match Build.run tools settings fs with
    | (.error e, fs) => fail [] e fs
    | (.ok written, fs) =>
      succeed [.duration] [s!"Wrote {written.length} pages to {settings.output}"] fs

/-- Prints the fragments of one excerpt. -/
def extract (tools : Tools) (root : Path) (target : String) (extent : Extent) (url : String)
    (fs : FileSystem) : Outcome :=
  let result := do
    let settings ← Settings.load fs here
    let scenario : Scenario := ⟨root, Text.onChars trimSlashes url, []⟩
    let command := s!"@{extent.verb} {target}"
    (Extractor.carryOut tools.grammars fs scenario command { settings }).1
  match result with
  | .error e => fail [] e fs
  | .ok fragments => succeed [.text ("\n\n".intercalate fragments)] [] fs

/-- Lists the declarations of a file. -/
def list (tools : Tools) (file : Path) (json : Bool) (fs : FileSystem) : Outcome :=
  match (SourceFile.load tools.grammars fs file).bind SourceFile.declarations with
  | .error e => fail [] e fs
  | .ok declarations =>
    let lines := if json then [Listing.json declarations]
      else declarations.map (Listing.line file)
    succeed (lines.map .text) [] fs

/-- Starts to watch. -/
def watch (tools : Tools) (scenarios? output? : Option Path) (fs : FileSystem) : Outcome :=
  match Settings.load fs here with
  | .error e => fail [] e fs
  | .ok settings =>
    let start := Watch.start tools (settings.override scenarios? output?) fs
    match start.watch with
    | .error e => fail start.lines e start.fs
    | .ok watch => ⟨.watching watch, [], start.lines, start.fs⟩

/-- The source roots that the scenarios in a directory name, whether they exist or not. -/
def namedRoots (directory : Path) (fs : FileSystem) : List Path :=
  match Scenario.discover fs directory with
  | .error _ => []
  | .ok paths =>
    paths.filterMap fun path => do
      let content ← (fs.readText path).toOption
      let scenario ← (Scenario.parse path content).toOption
      return scenario.root

/-- The paths that a request reads from or writes to, as far as the files known so far tell. -/
def paths (request : Request) (fs : FileSystem) : List Path :=
  match request with
  | .build scenarios? output? | .watch scenarios? output? =>
    match Settings.load fs here with
    | .error _ => []
    | .ok settings =>
      let settings := settings.override scenarios? output?
      settings.output :: settings.scenarios :: namedRoots settings.scenarios fs
  | .extract root _ _ _ => [root]
  | .list file _ => [file]

/-- Does what is asked for. -/
def carryOut (tools : Tools) (request : Request) (fs : FileSystem) : Outcome :=
  match request with
  | .build scenarios? output? => build tools scenarios? output? fs
  | .extract root target extent url => extract tools root target extent url fs
  | .list file json => list tools file json fs
  | .watch scenarios? output? => watch tools scenarios? output? fs

/-- Does what a command line asks for. -/
def run (tools : Tools) (words : List String) (fs : FileSystem) : Outcome :=
  match Request.parse words with
  | .ok request => carryOut tools request fs
  | .error .help => succeed (usage.map .text) [] fs
  | .error .usage => ⟨.exit 2, [], usage, fs⟩

end CommandLine

/-- The renderer of pages. -/
def Markdown.renderer : Renderer := fun text => .ok (html text)

end LiveExcerpts
