import Waveplan.Number

/-!
This module contains the terms of formulas as they are written. A formula is a chain of values that
are joined by operators; how tightly each operator binds is decided later, from its `level`.
-/

namespace Waveplan.Formula

/--
How tightly operators bind, from the loosest to the tightest. All comparisons bind alike.
-/
inductive Level where
  | or | and | compare | add | sub | mul | div | mod | pow
  deriving DecidableEq, Repr

def Level.all : List Level := [.or, .and, .compare, .add, .sub, .mul, .div, .mod, .pow]

inductive Comparison where
  | lt | le | gt | ge | eq | ne
  deriving DecidableEq, Repr

inductive Operator where
  | or | and
  | compare (c : Comparison)
  | add | sub | mul | div | mod | pow
  deriving DecidableEq, Repr

def Operator.level : Operator → Level
  | .or => .or
  | .and => .and
  | .compare _ => .compare
  | .add => .add
  | .sub => .sub
  | .mul => .mul
  | .div => .div
  | .mod => .mod
  | .pow => .pow

/--
A function with any number of arguments, of which the smallest or the largest is chosen.
-/
inductive Extremum where
  | min | max
  deriving DecidableEq, Repr

mutual

inductive Term (α : Type) where
  | number (x : α)
  | variable (name : String)
  | minus (t : Term α)
  | not (t : Term α)
  | group (c : Chain α)
  | elementary (f : Elementary) (argument : Chain α)
  | log (base argument : Chain α)
  | round (modulus argument : Chain α)
  | extremum (which : Extremum) (first : Chain α) (rest : Arguments α)
  /-- A function that is not built in: it is looked up like a variable. -/
  | call (name : String) (arguments : Arguments α)
  /-- Values and texts that are shown while the formula is evaluated. -/
  | print (items : Items α)
  deriving Repr

inductive Chain (α : Type) where
  | last (t : Term α)
  | more (t : Term α) (op : Operator) (rest : Chain α)
  deriving Repr

inductive Arguments (α : Type) where
  | nil
  | cons (argument : Chain α) (rest : Arguments α)
  deriving Repr

inductive Items (α : Type) where
  | nil
  | text (text : String) (rest : Items α)
  | chain (c : Chain α) (rest : Items α)
  deriving Repr

end

def Chain.number {α : Type} (x : α) : Chain α := .last (.number x)

def Arguments.ofList {α : Type} : List (Chain α) → Arguments α
  | [] => .nil
  | a :: rest => .cons a (ofList rest)

end Waveplan.Formula
