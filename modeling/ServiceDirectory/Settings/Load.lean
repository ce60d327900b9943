import ServiceDirectory.Files
import ServiceDirectory.Settings.Convert
import ServiceDirectory.Settings.Environment
import ServiceDirectory.Settings.Formats
import ServiceDirectory.Settings.Read

/-! Settings from all layers: defaults, then a file, then the environment. -/
namespace ServiceDirectory.Settings

def fileEntries (files : Files) (path : String) : Except LoadError (List (String × Source)) :=
  if !files.present path then .ok []
  else match files.read? path with
    | some text => readFile path text
    | none => .error (.foreign ("configuration file " ++ Text.quoted path ++ " not found"))

def layers (files : Files) (path : Option String) (environment : List (String × String)) :
    Except LoadError Source := do
  let fromFile ← match path with
    | some path => fileEntries files path
    | none => .ok []
  return (Source.emptyTable.layer fromFile).layer (environmentEntries environment)

def load (files : Files) (path : Option String) (environment : List (String × String)) :
    Except LoadError Settings := do
  readSettings fromSource (← layers files path environment)

end ServiceDirectory.Settings
