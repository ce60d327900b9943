import ServiceDirectory.CommandLine

/-! The program: gathers what a run can see, and prints what comes of it. -/
namespace ServiceDirectory.Main
open CommandLine (Outcome World)

def variableNames : List String :=
  let sections := [
    ("DISCOVERY", ["HEARTBEAT_TIMEOUT_SECS", "SWEEP_INTERVAL_SECS", "EVENT_QUEUE_CAPACITY",
      "PROBE_REFRESHES_HEARTBEAT"]),
    ("HEALTH", ["PROBE", "HTTP_PATH", "PROBE_INTERVAL_MS", "PROBE_TIMEOUT_MS",
      "SUCCESS_THRESHOLD", "FAILURE_THRESHOLD"]),
    ("CACHE", ["TTL_MS", "MAX_CAPACITY"]),
    ("RESOLVER", ["DEFAULT_STRATEGY", "TIMEOUT_MS", "RETRIES", "RETRY_DELAY_MS",
      "RETRY_MAX_DELAY_MS", "BACKOFF"]),
    ("STORE", ["BACKEND", "REDIS_URL", "KEY_PREFIX"]),
    ("LOGGING", ["LEVEL", "FORMAT", "FILE_PATH"])]
  CommandLine.configVariable :: sections.flatMap fun (name, fields) =>
    fields.map fun field => "MERIDIAN_" ++ name ++ "__" ++ field

def readVariables : IO (List (String × String)) := do
  let found ← variableNames.mapM fun name => do return (name, ← IO.getEnv name)
  return found.filterMap fun (name, value) => value.map (name, ·)

def readText (path : String) : IO (List (String × String)) := do
  try
    return [(path, ← IO.FS.readFile path)]
  catch _ => return []

def choices : IO (List Nat) := (List.range 16).mapM fun _ => IO.rand 0 1000000

def readFiles (args : List String) (environment : List (String × String)) : IO Files := do
  let named := environment.filterMap fun (name, value) =>
    if name == CommandLine.configVariable then some value else none
  let given := match CommandLine.parse args with
    | .ok i => i.config.toList
    | .error _ => []
  let texts ← (given ++ named ++ [CommandLine.defaultConfig]).mapM readText
  return ⟨Table.ofEntries texts.flatten, [["tmp"], ["var"]]⟩

partial def serve (d : Daemon) : IO Unit := do
  IO.sleep 1000
  serve (d.advance 1000)

end ServiceDirectory.Main

def main (args : List String) : IO UInt32 := do
  let environment ← ServiceDirectory.Main.readVariables
  let files ← ServiceDirectory.Main.readFiles args environment
  let host := (← IO.getEnv "HOSTNAME").getD "unknown"
  let choices ← ServiceDirectory.Main.choices
  match ServiceDirectory.CommandLine.run ⟨files, environment, host, choices⟩ args with
  | .finished f => do
    IO.print f.out
    IO.eprint f.err
    return f.code.toUInt32
  | .serving err d => do
    IO.eprint err
    ServiceDirectory.Main.serve d
    return 0
