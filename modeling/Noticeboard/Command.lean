import Noticeboard.Center.Loop

namespace Noticeboard

inductive Command where
  | replay (events : String) (config : Option String)
  deriving DecidableEq, Repr

inductive UsageError where
  | noCommand
  | unknownCommand (name : String)
  | unexpected (argument : String)
  | missingValue (option : String)
  | repeated (option : String)
  | missingEvents
  deriving DecidableEq, Repr

namespace UsageError

def message : UsageError → String
  | noCommand => "a command is required: replay [--config PATH] EVENTS"
  | unknownCommand name => "unrecognized subcommand '" ++ name ++ "'"
  | unexpected argument => "unexpected argument '" ++ argument ++ "' found"
  | missingValue option => "a value is required for '" ++ option ++ " <PATH>' but none was supplied"
  | repeated option => "the argument '" ++ option ++ " <PATH>' cannot be used multiple times"
  | missingEvents => "the following required arguments were not provided: <EVENTS>"

end UsageError

namespace Command

/-- The value that an argument joins to an option, as in `--config=PATH` or `-cPATH`. -/
def joinedConfig? (argument : String) : Option String :=
  match argument.toList with
  | '-' :: '-' :: 'c' :: 'o' :: 'n' :: 'f' :: 'i' :: 'g' :: '=' :: value => some (.ofList value)
  | '-' :: 'c' :: '=' :: value => some (.ofList value)
  | '-' :: 'c' :: a :: value => some (.ofList (a :: value))
  | _ => none

def isOption (argument : String) : Bool :=
  match argument.toList with
  | '-' :: _ :: _ => true
  | _ => false

def withEvents (events? config : Option String) (argument : String) :
    Except UsageError (Option String × Option String) :=
  match events? with
  | none => .ok (some argument, config)
  | some _ => .error (.unexpected argument)

def withConfig (events? config : Option String) (path : String) :
    Except UsageError (Option String × Option String) :=
  match config with
  | none => .ok (events?, some path)
  | some _ => .error (.repeated "--config")

/-- The files that the arguments of `replay` name. After `--` nothing is an option. -/
def replayFiles (events? config : Option String) :
    List String → Except UsageError (Option String × Option String)
  | [] => .ok (events?, config)
  | "--" :: rest => rest.foldlM (fun (e, c) a => withEvents e c a) (events?, config)
  | argument :: rest =>
    if argument = "--config" ∨ argument = "-c" then
      match rest with
      | [] => .error (.missingValue "--config")
      | path :: rest => do
        let (events?, config) ← withConfig events? config path
        replayFiles events? config rest
    else
      match joinedConfig? argument with
      | some path => do
        let (events?, config) ← withConfig events? config path
        replayFiles events? config rest
      | none =>
        if isOption argument then .error (.unexpected argument)
        else do
          let (events?, config) ← withEvents events? config argument
          replayFiles events? config rest

def ofArguments : List String → Except UsageError Command
  | [] => .error .noCommand
  | "replay" :: rest => do
    match ← replayFiles none none rest with
    | (some events, config) => return .replay events config
    | (none, _) => throw .missingEvents
  | name :: _ => .error (if isOption name then .unexpected name else .unknownCommand name)

end Command

/-- What the center answers to events without any time passing. -/
def replay (config : Config) (events : List Event) : Output :=
  let center := Center.new (.new config .default)
  let l := { EventLoop.new center with events := events }
  (l.run (List.replicate events.length .takeEvent)).2

inductive ReplayFailure where
  | config (e : LoadFailure)
  | eventsUnreadable (path reason : String)
  | eventsUnparsable (path : String) (cause : DocumentError)

namespace ReplayFailure

def message : ReplayFailure → String
  | config e => e.message
  | eventsUnreadable path _ => "Failed to read events from " ++ path
  | eventsUnparsable path _ => "Failed to parse events in " ++ path

def cause? : ReplayFailure → Option String
  | config e => e.cause?
  | eventsUnreadable _ reason => some reason
  | eventsUnparsable _ cause => some cause.message

def report (e : ReplayFailure) : String :=
  match e.cause? with
  | none => e.message
  | some cause => e.message ++ "\n\nCaused by:\n    " ++ cause

end ReplayFailure

variable {m : Type → Type} [Monad m]

def findConfig (read : String → m FileContent) (home : Option String) :
    Option String → m (Except LoadFailure Config)
  | some path => return Config.load path (← read path)
  | none =>
    match home with
    | none => return .error .homeNotFound
    | some home => return Config.loadHome (Config.homePath home) (← read (Config.homePath home))

def loadEvents (path : String) (file : FileContent) : Except ReplayFailure (List Event) :=
  match file.text with
  | .error reason => .error (.eventsUnreadable path reason)
  | .ok s => (Reader.ofText (Json.asList Event.ofJson) s).mapError (.eventsUnparsable path)

def Command.run (read : String → m FileContent) (home : Option String) :
    Command → m (Except ReplayFailure Output)
  | .replay events config => do
    match ← findConfig read home config with
    | .error e => return .error (.config e)
    | .ok config => return (loadEvents events (← read events)).map (Noticeboard.replay config)

end Noticeboard
