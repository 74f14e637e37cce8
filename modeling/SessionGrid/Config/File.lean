import SessionGrid.Config.Toml
import SessionGrid.Files.Directory

/-!
# Configurations in files
-/

namespace SessionGrid.Config

/-- Why a configuration cannot be had from a file. -/
inductive LoadError where
  | unreadable (error : FileError)
  /-- The bytes are not UTF-8. -/
  | notText
  | text (error : TextError)

namespace LoadError

/-- The failure of the file system behind the error, if there is one. -/
def cause? : LoadError → Option String
  | unreadable e => some e.message
  | notText => some "stream did not contain valid UTF-8"
  | text _ => none

def message (e : LoadError) : String :=
  match e with
  | text e => e.message
  | e => "failed to read config: " ++ e.cause?.getD ""

end LoadError

/-- The valid configuration that the content of a file describes. -/
def ofBytes (content : ByteArray) : Except LoadError Config :=
  match String.fromUTF8? content with
  | none => .error .notText
  | some s => (ofTomlText s).mapError .text

/-- The valid configuration in a file that has been read. -/
def ofFile : Except FileError ByteArray → Except LoadError Config
  | .ok content => ofBytes content
  | .error e => .error (.unreadable e)

end SessionGrid.Config
