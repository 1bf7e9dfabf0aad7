import LiveExcerpts.Path
/-!
# Errors

Every way in which the program can fail, with what a reader needs to put it right.  `Error.message`
is the one-line wording; the page-long one is in `LiveExcerpts.Diagnostic`.
-/

namespace LiveExcerpts

/-- Why the file system refused. -/
inductive IoCause where
  /-- A name on the path does not exist. -/
  | notFound
  /-- Something that is no directory stands where one is needed. -/
  | notADirectory
  /-- A directory stands where a file is needed. -/
  | isADirectory
  /-- Something stands where a directory was to be made. -/
  | alreadyExists
  /-- A name or a path is too long. -/
  | nameTooLong
  /-- The path leads through too many symbolic links. -/
  | tooManyLinks
  /-- A name holds a NUL character. -/
  | nulInName
  /-- The contents of a text file are not UTF-8. -/
  | invalidUtf8
  /-- The empty path was to be made absolute. -/
  | emptyPath
  /-- Anything else, in the system's words. -/
  | other (text : String)
deriving DecidableEq, Repr

/-- The system's wording of a cause. -/
def IoCause.message : IoCause → String
  | notFound => "No such file or directory (os error 2)"
  | notADirectory => "Not a directory (os error 20)"
  | isADirectory => "Is a directory (os error 21)"
  | alreadyExists => "File exists (os error 17)"
  | nameTooLong => "File name too long (os error 36)"
  | tooManyLinks => "Too many levels of symbolic links (os error 40)"
  | nulInName => "file name contained an unexpected NUL byte"
  | invalidUtf8 => "stream did not contain valid UTF-8"
  | emptyPath => "cannot make an empty path absolute"
  | other text => text

/-- A failure of the program. -/
inductive Error where
  /-- A property that holds an object has no opening brace between its first and last token. -/
  | bodyNotFound (file : Path) (identifier : String)
  /-- A command of a scenario failed, for the reason `cause`. -/
  | commandFailed (command : String) (cause : Error)
  /-- No declaration of the file has this name; `available` are the names it does declare. -/
  | declarationNotFound (available : List String) (file : Path) (identifier : String)
  /-- A source file does not exist. -/
  | fileNotFound (path : Path)
  /-- The file system refused. -/
  | io (cause : IoCause)
  /-- A command line is not of the form `@<verb> <path>::<identifier>`. -/
  | malformedCommand (command reason : String)
  /-- A scenario lacks its root or its link line. -/
  | malformedScenario (path : Path) (reason : String)
  /-- A source file could not be parsed. -/
  | parseFailed (file : Path) (reason : String)
  /-- A fragment of Markdown could not be rendered. -/
  | renderFailed (reason : String)
  /-- A scenario, or the directory of scenarios, does not exist. -/
  | scenarioNotFound (path : Path)
  /-- The source root that a scenario names does not exist. -/
  | sourceRootNotFound (path : Path)
  /-- The settings file is not what it should be. -/
  | malformedSettings (reason : String)
  /-- A verb other than `decl` and `def`. -/
  | unknownCommand (verb : String)
  /-- A command reached the renderer. -/
  | unresolvedCommand (command : String)
  /-- No language has files with this extension. -/
  | unsupportedLanguage (extension : String)
  /-- The directories could not be watched. -/
  | watch (text : String)
deriving DecidableEq, Repr

/-- A failure in one line; that of a command quotes the command and gives the cause. -/
def Error.message : Error → String
  | bodyNotFound file identifier => s!"object body not found for `{identifier}` in {file}"
  | commandFailed command cause => s!"failed to handle command `{command}`: " ++ cause.message
  | declarationNotFound _ file identifier => s!"declaration not found: `{identifier}` in {file}"
  | fileNotFound path => s!"file not found: {path}"
  | io cause => "io: " ++ cause.message
  | malformedCommand command reason => s!"malformed command `{command}`: {reason}"
  | malformedScenario path reason => s!"malformed scenario {path}: {reason}"
  | parseFailed file reason => s!"parse failed: {file}: {reason}"
  | renderFailed reason => s!"render failed: {reason}"
  | scenarioNotFound path => s!"scenario not found: {path}"
  | sourceRootNotFound path => s!"source root not found: {path}"
  | malformedSettings reason => s!"toml deserialize: {reason}"
  | unknownCommand verb => s!"unknown command `{verb}` (expected `decl` or `def`)"
  | unresolvedCommand command => s!"unresolved command reached the renderer: `{command}`"
  | unsupportedLanguage extension => s!"no grammar for extension: .{extension}"
  | watch text => s!"watch: {text}"

end LiveExcerpts
