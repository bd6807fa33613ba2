import Waveplan.Text.Numeric

/-!
This module contains the names of variables: identifiers joined by points, such as `mot.detuning`.
-/

namespace Waveplan.VariableName

/--
Whether a character can begin an identifier.
-/
def isStart (c : Char) : Bool := Text.isAlphabetic c || c = '_'

/--
Whether a character can stand inside of an identifier.
-/
def isPart (c : Char) : Bool := Text.isAlphanumeric c || c = '_'

/--
The texts between the points of a text.
-/
def segments : List Char → List (List Char)
  | [] => [[]]
  | c :: cs =>
    match segments cs with
    | [] => [[c]]
    | s :: rest => if c = '.' then [] :: s :: rest else (c :: s) :: rest

def isIdentifier : List Char → Bool
  | [] => false
  | c :: cs => isStart c && cs.all isPart

def isValid (name : List Char) : Bool := (segments name).all isIdentifier

/--
The identifier that stands for a name in a formula.
-/
def mangle (name : List Char) : List Char :=
  name.flatMap fun c => if c = '.' then ['_', '_'] else [c]

def time : String := "t"

theorem isPart_of_isStart {c : Char} (h : isStart c) : isPart c := by
  simp only [isStart, isPart, Text.isAlphanumeric, Bool.or_eq_true] at *
  rcases h with h | h
  . exact .inl (.inl h)
  . exact .inr h

end Waveplan.VariableName
