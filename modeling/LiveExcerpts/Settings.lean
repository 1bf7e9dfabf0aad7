import LiveExcerpts.Path
/-!
# Settings

What a project can choose: the extension of source files, what `~` stands for, and the directories
of scenarios and pages.
-/

namespace LiveExcerpts

/-- The choices of a project. -/
structure Settings where
  /-- The extension that is added to command paths, without a dot. -/
  extension : String := "rs"
  /-- The directory that `~` stands for, relative to the source root. -/
  home : String := "src"
  /-- The directory that pages are written to. -/
  output : Path := ⟨"output"⟩
  /-- The directory that scenarios are read from. -/
  scenarios : Path := ⟨"scenarios"⟩
deriving DecidableEq, Repr

namespace Settings

/-- The choices of a project that makes none. -/
def default : Settings := {}

/-- The file that holds a project's choices. -/
def fileName : Path := ⟨".docstitch.toml"⟩

/-- The settings with the directories that the command line gives in place of their own. -/
def override (scenarios? output? : Option Path) (settings : Settings) : Settings :=
  { settings with
    scenarios := scenarios?.getD settings.scenarios
    output := output?.getD settings.output }

end Settings

end LiveExcerpts
