import BatchedCommit.Settings.Reader

/-!
# BatchedCommit.Settings.Load

Settings from a file: its bytes are read as text, the text as settings, and settings with a
zero are refused.
-/

namespace BatchedCommit

/-- What stands behind a path: the bytes of a file, or the reason why there are none. -/
abbrev FileContent := Except String ByteArray

namespace FileContent

/-- There is no such file. -/
def missing : FileContent := .error "No such file or directory (os error 2)"

/-- The path leads to a directory. -/
def directory : FileContent := .error "Is a directory (os error 21)"

/-- The text of a file, or the reason why there is none. -/
def text (content : FileContent) : Except String String :=
  content.bind fun bytes =>
    match String.fromUTF8? bytes with
    | some text => .ok text
    | none => .error "stream did not contain valid UTF-8"

end FileContent

namespace Settings

/-- The settings in a text. -/
def parse (text : String) : Except Failure Settings :=
  match read text.toList with
  | .error misreading => .error (.invalidSettings ("Invalid config JSON: " ++ misreading.message))
  | .ok settings => settings.validate.map fun _ => settings

/-- The settings in the file at a path. -/
def load (path : String) (content : FileContent) : Except Failure Settings :=
  match content.text with
  | .error reason =>
    .error (.invalidSettings ("Failed to read config '" ++ path ++ "': " ++ reason))
  | .ok text => parse text

end Settings

end BatchedCommit
