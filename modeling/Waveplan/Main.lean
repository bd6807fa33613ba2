import Waveplan.CommandLine.Basic

/-!
This module contains the program that compiles shot files.
-/

open Waveplan.CommandLine in
def readShotFile (path : String) : IO (Except FileError String) := do
  try
    let text ← IO.FS.readFile path
    pure (.ok text)
  catch
    | .noFileOrDirectory .. => pure (.error .notFound)
    | .inappropriateType _ 21 _ => pure (.error .isDirectory)
    | error => pure (.error (.other (toString error)))

open Waveplan.CommandLine in
def main (arguments : List String) : IO UInt32 := do
  let file ← match path? arguments with
    | some path => readShotFile path
    | none => pure (.error .notFound)
  let outcome := run arguments file
  for line in outcome.output do
    IO.println line
  for line in outcome.errors do
    IO.eprintln line
  pure outcome.exitCode
