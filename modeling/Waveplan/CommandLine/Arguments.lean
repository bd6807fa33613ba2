/-!
This module contains the arguments of the command line.
-/

namespace Waveplan.CommandLine

inductive Task where
  /-- Show what every device must be programmed with. -/
  | compile (asJson : Bool)
  /-- Show the values of a sequencer at every tick. -/
  | flatten (device : String)
  deriving DecidableEq, Repr

inductive Request where
  | run (task : Task) (path : String)
  /-- Show how the command line is used, or that of one of its commands. -/
  | help (command : Option String)
  | version
  deriving DecidableEq, Repr

inductive UsageError where
  | missingCommand
  | unknownCommand (argument : String)
  | unexpectedArgument (argument : String)
  | repeatedFlag (flag : String)
  | missingValue (name : String)
  deriving DecidableEq, Repr

def UsageError.message : UsageError → String
  | .missingCommand => "a command is required: compile, flatten or help"
  | .unknownCommand argument => s!"unrecognized command '{argument}'"
  | .unexpectedArgument argument => s!"unexpected argument '{argument}'"
  | .repeatedFlag flag => s!"the argument '{flag}' cannot be used multiple times"
  | .missingValue name => s!"a value is required for '{name}'"

inductive Argument where
  /-- Show more of what is being done. -/
  | verbose
  | help
  | version
  | json
  /-- All arguments behind are values. -/
  | values
  | value (text : String)
  | unknown (text : String)
  deriving DecidableEq, Repr

/--
The flags in the letters behind a single dash, up to the first one that is not just counted.
-/
def Argument.ofLetters (text : String) : List Char → Argument
  | [] => .verbose
  | 'v' :: rest => ofLetters text rest
  | 'h' :: _ => .help
  | 'V' :: _ => .version
  | _ :: _ => .unknown text

def Argument.ofText (text : String) : Argument :=
  match text.toList with
  | ['-'] => .value text
  | ['-', '-'] => .values
  | '-' :: '-' :: _ =>
    if text = "--verbose" then .verbose
    else if text = "--help" then .help
    else if text = "--version" then .version
    else if text = "--json" then .json
    else .unknown text
  | '-' :: letters => .ofLetters text letters
  | _ => .value text

structure Reading where
  command : String
  /-- The names of the values that are still missing. -/
  missing : List String
  /-- The values so far, from the last one to the first. -/
  reversed : List String := []
  asJson : Bool := false
  deriving DecidableEq, Repr

namespace Reading

/--
The next value. The path of a file is not empty.
-/
def addValue (r : Reading) (text : String) : Except UsageError Reading :=
  match r.missing with
  | [] => .error (.unexpectedArgument text)
  | name :: missing =>
    if r.reversed.isEmpty && text.isEmpty then .error (.missingValue name)
    else .ok { r with missing, reversed := text :: r.reversed }

def finish (r : Reading) : Except UsageError Request :=
  match r.missing, r.reversed with
  | name :: _, _ => .error (.missingValue name)
  | [], [path] => .ok (.run (.compile r.asJson) path)
  | [], [device, path] => .ok (.run (.flatten device) path)
  | [], _ => .error .missingCommand

def readFrom (onlyValues : Bool) (r : Reading) : List String → Except UsageError Request
  | [] => r.finish
  | text :: rest =>
    match if onlyValues then .value text else Argument.ofText text with
    | .value text => do
      let r ← r.addValue text
      readFrom onlyValues r rest
    | .verbose => readFrom onlyValues r rest
    | .values => readFrom true r rest
    | .help => .ok (.help (some r.command))
    | .json =>
      if r.command ≠ "compile" then .error (.unexpectedArgument text)
      else if r.asJson then .error (.repeatedFlag text)
      else readFrom onlyValues { r with asJson := true } rest
    | .version | .unknown _ => .error (.unexpectedArgument text)

end Reading

/--
The commands with the names of their values.
-/
def commands : List (String × List String) :=
  [("compile", ["<SHOT>"]), ("flatten", ["<SHOT>", "<DEVICE>"])]

def readHelp : List String → Except UsageError Request
  | [] => .ok (.help none)
  | [name] =>
    if (commands.lookup name).isSome then .ok (.help (some name))
    else .error (.unknownCommand name)
  | _ :: name :: _ => .error (.unknownCommand name)

def Request.ofArguments : List String → Except UsageError Request
  | [] => .error .missingCommand
  | text :: rest =>
    match Argument.ofText text with
    | .verbose => ofArguments rest
    | .help => .ok (.help none)
    | .version => .ok .version
    | .value name =>
      if name = "help" then readHelp rest
      else
        match commands.lookup name with
        | some missing => Reading.readFrom false { command := name, missing } rest
        | none => .error (.unknownCommand name)
    | .json | .values | .unknown _ => .error (.unexpectedArgument text)

end Waveplan.CommandLine
