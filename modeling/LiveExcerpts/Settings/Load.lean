import LiveExcerpts.FileSystem
import LiveExcerpts.Settings.Toml
/-!
# The settings file

A project's choices are read from the file `Settings.fileName` in its directory.  A project without
that file makes none.
-/

namespace LiveExcerpts

/-- The settings of the project in a directory. -/
def Settings.load (fs : FileSystem) (directory : Path) : Except Error Settings :=
  match fs.readText (directory.join fileName) with
  | .ok text => parse text
  | .error .notFound => .ok default
  | .error cause => .error (.io cause)

/-- Without a settings file all settings are the default ones. -/
theorem Settings.load_of_notFound {fs : FileSystem} {directory : Path}
    (h : fs.readText (directory.join fileName) = .error .notFound) :
    load fs directory = .ok default := by
  rw [load, h]

end LiveExcerpts
