import Waveplan.Expression.Kernel
import Waveplan.Formula.Error
import Waveplan.Formula.Operation
import Waveplan.Formula.Segment

/-!
This module contains the values of formulas as they are written. All operands are evaluated before
operators are applied, and nothing is reordered. Only what is shown gets its value in this way.
-/

namespace Waveplan.Formula

open Kernel (Evaluation Question)

/--
The answer to a question, without which there is no value.
-/
def request {α : Type} (question : Question α) : Evaluation α α :=
  .ask question fun
    | some x => .value x
    | none => .error (.undefined question.name)

variable {α : Type} [Analysis α]

/--
Apply an operation from right to left.
-/
def joinRight (f : α → α → α) (x : α) : List α → α
  | [] => x
  | y :: rest => f x (joinRight f y rest)

/--
Join numbers by the operators of one level. Sums and products are computed from right to left, like
powers.
-/
def joinValues (level : Level) (x : α) (rest : List (Operator × α)) : α :=
  let others := rest.map Prod.snd
  match level with
  | .or => others.foldl (fun x y => if apart x Number.zero then x else y) x
  | .and => others.foldl (fun x y => if close x Number.zero then x else y) x
  | .compare =>
    rest.foldl
      (fun x (op, y) =>
        match op with
        | .compare c => Number.ofBool (c.holds x y)
        | _ => x)
      x
  | .add => joinRight (· + ·) x others
  | .sub => others.foldl (· - ·) x
  | .mul => joinRight (· * ·) x others
  | .div => others.foldl (· / ·) x
  | .mod => others.foldl Analysis.remainder x
  | .pow => joinRight Analysis.power x others

def Segment.value (s : Segment α) : α := s.join joinValues Level.all

mutual

def Term.value : Term α → Evaluation α α
  | .number x => .value x
  | .variable name => request (.variable name)
  | .minus t => (fun x => -x) <$> t.value
  | .not t => (fun x => Number.ofBool (close x Number.zero)) <$> t.value
  | .group c => Segment.value <$> c.values
  | .elementary f c => (fun s => Analysis.elementary f s.value) <$> c.values
  | .log base c => do
    let b ← base.values
    let s ← c.values
    .value (logarithm b.value s.value)
  | .round modulus c => do
    let m ← modulus.values
    let s ← c.values
    .value (roundTo m.value s.value)
  | .extremum which first rest => do
    let s ← first.values
    let xs ← rest.values
    .value (which.of s.value xs)
  | .call name arguments => do
    let xs ← arguments.values
    request (.call name xs)
  | .print items => items.lastValue true Number.zero

def Chain.values : Chain α → Evaluation α (Segment α)
  | .last t => (⟨·, []⟩) <$> t.value
  | .more t op rest => do
    let x ← t.value
    let s ← rest.values
    .value (.cons x op s)

def Arguments.values : Arguments α → Evaluation α (List α)
  | .nil => .value []
  | .cons c rest => do
    let s ← c.values
    let xs ← rest.values
    .value (s.value :: xs)

/--
The last value that is shown, or `default` if only texts are. A text that is the first of all has no
places for values.
-/
def Items.lastValue (isFirst : Bool) (default : α) : Items α → Evaluation α α
  | .nil => .value default
  | .text text rest =>
    if isFirst && text.contains '%' then
      .error (.other (ParseError.wrongArguments "printf formatting is not yet implemented").message)
    else rest.lastValue false default
  | .chain c rest => do
    let s ← c.values
    rest.lastValue false s.value

end

/--
The value of what is shown: the last value in it, or zero if it only consists of texts.
-/
def Items.value (items : Items α) : Evaluation α α := items.lastValue true Number.zero

end Waveplan.Formula
