import ServiceDirectory.Daemon
import ServiceDirectory.Logging
import ServiceDirectory.Settings.Load
import ServiceDirectory.Settings.Validate

/-! The command line: what the arguments ask for, and what comes of it. -/
namespace ServiceDirectory.CommandLine
open Resolve (ResolveOptions)
open Settings (Settings)

structure ResolveRequest where
  service : String
  strategy : Option String
  tags : List String
  version : Option String
  deriving DecidableEq, Repr

inductive Task where
  | run
  | resolve (request : ResolveRequest)
  deriving DecidableEq, Repr

structure Invocation where
  config : Option String
  task : Task
  deriving DecidableEq, Repr

inductive Refusal where
  | help
  | wrong
  deriving DecidableEq, Repr

inductive Argument where
  | stop
  | long (name : String) (value : Option String)
  | short (letter : Char) (value : Option String)
  | word (text : String)
  deriving DecidableEq, Repr

def Argument.of (s : String) : Argument :=
  match s.toList with
  | ['-', '-'] => .stop
  | '-' :: '-' :: rest =>
    let name := String.ofList (rest.takeWhile (· != '='))
    match rest.dropWhile (· != '=') with
    | _ :: value => .long name (some (String.ofList value))
    | [] => .long name none
  | ['-'] => .word s
  | '-' :: letter :: rest =>
    match rest with
    | [] => .short letter none
    | '=' :: value => .short letter (some (String.ofList value))
    | value => .short letter (some (String.ofList value))
  | _ => .word s

def valueOf (attached : Option String) (rest : List String) :
    Except Refusal (String × List String) :=
  match attached, rest with
  | some value, _ => .ok (value, rest)
  | none, next :: rest =>
    match Argument.of next with
    | .word text => .ok (text, rest)
    | _ => .error .wrong
  | none, [] => .error .wrong

def once (current : Option String) (value : String) : Except Refusal (Option String) :=
  match current with
  | none => .ok (some value)
  | some _ => .error .wrong

structure ResolveDraft where
  service : Option String
  strategy : Option String
  tags : List String
  version : Option String

def ResolveDraft.word (d : ResolveDraft) (text : String) : Except Refusal ResolveDraft := do
  return { d with service := ← once d.service text }

def parseResolve : Nat → Bool → ResolveDraft → List String → Except Refusal ResolveRequest
  | _, _, d, [] =>
    match d.service with
    | some service => .ok ⟨service, d.strategy, d.tags, d.version⟩
    | none => .error .wrong
  | 0, _, _, _ => .error .wrong
  | fuel + 1, true, d, a :: rest => do parseResolve fuel true (← d.word a) rest
  | fuel + 1, false, d, a :: rest =>
    match Argument.of a with
    | .stop => parseResolve fuel true d rest
    | .word text => do parseResolve fuel false (← d.word text) rest
    | .long "help" none => .error .help
    | .short 'h' _ => .error .help
    | .long "strategy" attached => do
      let (value, rest) ← valueOf attached rest
      parseResolve fuel false { d with strategy := ← once d.strategy value } rest
    | .long "tag" attached => do
      let (value, rest) ← valueOf attached rest
      parseResolve fuel false { d with tags := d.tags ++ [value] } rest
    | .long "version" attached => do
      let (value, rest) ← valueOf attached rest
      parseResolve fuel false { d with version := ← once d.version value } rest
    | _ => .error .wrong

def parseRun : List String → Except Refusal Task
  | [] => .ok .run
  | a :: rest =>
    match Argument.of a with
    | .stop => if rest.isEmpty then .ok .run else .error .wrong
    | .long "help" none => .error .help
    | .short 'h' _ => .error .help
    | _ => .error .wrong

def parseFrom : Nat → Option String → List String → Except Refusal Invocation
  | _, config, [] => .ok ⟨config, .run⟩
  | 0, _, _ => .error .wrong
  | fuel + 1, config, a :: rest =>
    match Argument.of a with
    | .stop => if rest.isEmpty then .ok ⟨config, .run⟩ else .error .wrong
    | .long "config" attached => do
      let (value, rest) ← valueOf attached rest
      parseFrom fuel (← once config value) rest
    | .short 'c' attached => do
      let (value, rest) ← valueOf attached rest
      parseFrom fuel (← once config value) rest
    | .long "help" none => .error .help
    | .short 'h' _ => .error .help
    | .word "run" => do return ⟨config, ← parseRun rest⟩
    | .word "resolve" => do
      let request ← parseResolve (rest.length + 1) false ⟨none, none, [], none⟩ rest
      return ⟨config, .resolve request⟩
    | .word "help" => .error .help
    | _ => .error .wrong

def parse (args : List String) : Except Refusal Invocation :=
  parseFrom (args.length + 1) none args

structure World where
  files : Files
  environment : List (String × String)
  host : String
  choices : List Nat

structure Finished where
  code : Nat
  out : String
  err : String
  deriving DecidableEq, Repr

inductive Outcome where
  | finished (f : Finished)
  | serving (err : String) (d : Daemon)

def configVariable : String := "MERIDIAN_CONFIG_PATH"

def defaultConfig : String := "meridian.yaml"

def configPath (w : World) (i : Invocation) : Option String :=
  match i.config, (w.environment.find? (·.1 == configVariable)).map (·.2) with
  | some path, _ => some path
  | none, some path => some path
  | none, none => if w.files.present defaultConfig then some defaultConfig else none

def errorLines : List String → String
  | [] => ""
  | [e] => "Error: " ++ e ++ "\n"
  | e :: causes =>
    "Error: " ++ e ++ "\n\nCaused by:\n" ++
      String.join (causes.map fun c => "    " ++ c ++ "\n")

def failed (before : String) (errors : List String) : Outcome :=
  .finished ⟨1, "", before ++ errorLines errors⟩

def violationLines (violations : List String) : String :=
  String.join (violations.map fun v => "Config validation error: " ++ v ++ "\n")

def violationCount (n : Nat) : String :=
  "Configuration validation failed with " ++ toString n ++ " error(s)"

def optionsOf (r : ResolveRequest) : ResolveOptions where
  strategy := r.strategy
  filters :=
    (if r.tags.isEmpty then [] else [Filter.tags r.tags]) ++
      (match r.version with
        | some version => [Filter.version version]
        | none => [])
  timeout := none
  useCache := false
  retries := none

def resolveOnce (err : String) (d : Daemon) (r : ResolveRequest) : Outcome :=
  match d.load with
  | (_, .error e) => failed err e.chain
  | (d, .ok _) =>
    match (d.resolve r.service (optionsOf r)).2 with
    | .error e => failed err [e.message]
    | .ok i =>
      .finished ⟨0, i.id ++ " " ++ i.endpoint ++ " " ++ i.status.name ++ "\n", err⟩

def serve (w : World) (err : String) (d : Daemon) : Outcome :=
  match d.start w.host w.choices with
  | (_, .error e) => failed err e.chain
  | (d, .ok _) => .serving err d

def perform (w : World) (err : String) (s : Settings) (task : Task) : Outcome :=
  match Logging.setUp w.files s.logging with
  | .error trouble => failed err [trouble]
  | .ok _ =>
    match Daemon.new s with
    | .error e => failed err e.chain
    | .ok d =>
      match task with
      | .run => serve w err d
      | .resolve r => resolveOnce err d r

def run (w : World) (args : List String) : Outcome :=
  match parse args with
  | .error .help => .finished ⟨0, "", ""⟩
  | .error .wrong => .finished ⟨2, "", ""⟩
  | .ok i =>
    let path := configPath w i
    let err := match path with
      | some path => "Loading config from " ++ path ++ "\n"
      | none => ""
    match Settings.load w.files path w.environment with
    | .error e => failed err [e.text]
    | .ok s =>
      if s.valid then perform w err s i.task
      else failed (err ++ violationLines s.violations) [violationCount s.violations.length]

end ServiceDirectory.CommandLine
