import Waveplan.CommandLine.Arguments
import Waveplan.CommandLine.Report
import Waveplan.Formula.Kernel
import Waveplan.Number.Double

/-!
This module contains what the command line answers. Reading the file of the shot is left to the
caller.
-/

namespace Waveplan.CommandLine

inductive FileError where
  | notFound
  | isDirectory
  | other (reason : String)
  deriving DecidableEq, Repr

def FileError.message : FileError → String
  | .notFound => "No such file or directory (os error 2)"
  | .isDirectory => "Is a directory (os error 21)"
  | .other reason => reason

structure Outcome where
  exitCode : UInt32
  output : List String := []
  errors : List String := []
  deriving DecidableEq, Repr

namespace Outcome

def ofOutput (lines : List String) : Outcome := { exitCode := 0, output := lines }

/--
An error with the errors behind it, from the outside in.
-/
def ofError (message : String) (causes : List String) : Outcome :=
  { exitCode := 1
    errors := ("error: " ++ message) :: causes.map ("  caused by: " ++ ·) }

/--
The end of the program in an overflow.
-/
def ofOverflow : Outcome := { exitCode := 101, errors := [Word.overflowMessage] }

end Outcome

def Task.report (p : ShotParameters Float) : Task → Outcome
  | .compile true => .ofOutput [Json.pretty Double.jsonText 0 p.summary]
  | .compile false => .ofOutput p.summaryLines
  | .flatten device =>
    match p.sequencers.get? device with
    | some sequencer => .ofOutput sequencer.table
    | none => .ofError s!"no sequencer named '{device}' in the shot" []

def Task.execute (task : Task) (file : Except FileError String) : Outcome :=
  match file with
  | .error error => .ofError ("could not read shot file: " ++ error.message) [error.message]
  | .ok text =>
    match (Shot.ofYaml? text : Option (Shot Float)) with
    | none => .ofError "invalid shot file" []
    | some shot =>
      match shot.compile with
      | .error error =>
        if error.isOverflow then .ofOverflow else .ofError error.message error.causes
      | .ok parameters => task.report parameters

def versionText : String := "sequencer 0.1.0"

def helpLines : Option String → List String
  | none =>
    ["Compile shot files into sequencer instructions", "",
      "Usage: sequencer [OPTIONS] <COMMAND>", "",
      "Commands:",
      "  compile  Compile a shot and summarize the parameters of every device",
      "  flatten  Print the values of one sequencer at every tick, as CSV",
      "  help     Print this message or the help of the given subcommand(s)", "",
      "Options:",
      "  -v, --verbose...  More logging (-v for debug, -vv for trace)",
      "  -h, --help        Print help",
      "  -V, --version     Print version"]
  | some "compile" =>
    ["Compile a shot and summarize the parameters of every device", "",
      "Usage: sequencer compile [OPTIONS] <SHOT>", "",
      "Arguments:",
      "  <SHOT>  ", "",
      "Options:",
      "      --json        Print the summary as JSON",
      "  -v, --verbose...  More logging (-v for debug, -vv for trace)",
      "  -h, --help        Print help"]
  | some _ =>
    ["Print the values of one sequencer at every tick, as CSV", "",
      "Usage: sequencer flatten [OPTIONS] <SHOT> <DEVICE>", "",
      "Arguments:",
      "  <SHOT>    ",
      "  <DEVICE>  ", "",
      "Options:",
      "  -v, --verbose...  More logging (-v for debug, -vv for trace)",
      "  -h, --help        Print help"]

/--
Whether arguments ask for a file, and for which one.
-/
def path? (arguments : List String) : Option String :=
  match Request.ofArguments arguments with
  | .ok (.run _ path) => some path
  | _ => none

/--
What the command line answers to arguments, with the file that they ask for.
-/
def run (arguments : List String) (file : Except FileError String) : Outcome :=
  match Request.ofArguments arguments with
  | .error error => { exitCode := 2, errors := ["error: " ++ error.message] }
  | .ok .version => .ofOutput [versionText]
  | .ok (.help command) => .ofOutput (helpLines command)
  | .ok (.run task _) => task.execute file

end Waveplan.CommandLine
