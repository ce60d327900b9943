import ServiceDirectory.Files
import ServiceDirectory.Settings.Sections
import ServiceDirectory.Text.Letters

/-! Setting up the log. -/
namespace ServiceDirectory.Logging
open Settings (LoggingSection)

inductive Level where
  | trace
  | debug
  | info
  | warn
  | error
  deriving DecidableEq, Repr

def Level.name : Level → String
  | .trace => "TRACE"
  | .debug => "DEBUG"
  | .info => "INFO"
  | .warn => "WARN"
  | .error => "ERROR"

def levelWords : Table Level :=
  [("trace", .trace), ("debug", .debug), ("info", .info), ("warn", .warn), ("warning", .warn),
    ("error", .error)]

def parseLevel (text : String) : Except String Level :=
  match levelWords.get? (Text.lower text) with
  | some level => .ok level
  | none => .error ("Invalid log level: " ++ text)

def setUp (files : Files) (s : LoggingSection) : Except String Level := do
  let level ← parseLevel s.level
  match s.filePath.bind files.appendTrouble? with
  | some trouble => .error trouble
  | none => .ok level

end ServiceDirectory.Logging
