import Waveplan.Formula.Node

/-!
This module contains how a formula is made ready to be evaluated. Operators are applied by their
levels, operations on constants are carried out, and the terms of sums and products are put in
order: constants are combined first and join last.

Which of two equal sums is computed matters to the last digit, so the order is part of what a
formula means.
-/

namespace Waveplan.Formula

variable {α : Type} [Analysis α]

def Nodes.ofList : List (Node α) → Nodes α
  | [] => .nil
  | x :: rest => .cons x (ofList rest)

namespace Node

/--
The terms of a sum that is already ordered, the last one first.
-/
def sumTerms : Node α → List (Node α)
  | add x y => y.sumTerms ++ x.sumTerms
  | x => [x]

/--
The factors of a product that is already ordered, the last one first.
-/
def productFactors : Node α → List (Node α)
  | mul x y => y.productFactors ++ x.productFactors
  | x => [x]

def isConst : Node α → Bool
  | const _ => true
  | _ => false

def constants (xs : List (Node α)) : List α :=
  xs.filterMap fun
    | const c => some c
    | _ => none

/--
The nodes that are not constant joined from left to right, then the combined constant unless it is
neutral.
-/
def fold (join : Node α → Node α → Node α) (neutral constant : α) (xs : List (Node α)) : Node α :=
  match xs.filter fun x => !x.isConst, apart constant neutral with
  | [], true => const constant
  | [], false => const neutral
  | x :: rest, true => join (rest.foldl join x) (const constant)
  | x :: rest, false => rest.foldl join x

def sum (xs : List (Node α)) : Node α :=
  fold add Number.zero ((constants xs).foldl (· + ·) Number.zero) xs

def product (xs : List (Node α)) : Node α :=
  fold mul Number.one ((constants xs).foldl (· * ·) Number.one) xs

def negate : Node α → Node α
  | const c => const (-c)
  | neg x => x
  | x => neg x

def invert : Node α → Node α
  | const c => const (Number.one / c)
  | inv x => x
  | x => inv x

def complement : Node α → Node α
  | const c => const (Number.ofBool (close c Number.zero))
  | not x => x
  | x => not x

def apply₂ (f : α → α → α) (node : Node α → Node α → Node α) : Node α → Node α → Node α
  | const x, const y => const (f x y)
  | x, y => node x y

/--
Alternatives from left to right. A constant that is not zero decides at once, unless something that
is not constant stands before it.
-/
def alternatives (kept : Option (Node α)) : List (Node α) → Node α
  | [] => kept.getD (const Number.zero)
  | x :: rest =>
    match kept, x with
    | some k, x => alternatives (some (or k x)) rest
    | none, const c => if apart c Number.zero then const c else alternatives none rest
    | none, x => alternatives (some x) rest

/--
Conditions from left to right. A constant zero decides at once, and other constants before the last
condition have no effect.
-/
def conditions (kept : Option (Node α)) : List (Node α) → Node α
  | [] => kept.getD (const Number.one)
  | x :: rest =>
    match x with
    | const c =>
      if close c Number.zero then const c else conditions (some (join kept (const c))) rest
    | x => conditions (some (join kept x)) rest
where
  join : Option (Node α) → Node α → Node α
    | none, x => x
    | some (const _), x => x
    | some k, x => and k x

/--
The smallest or largest of some nodes: the constants are compared first and join last.
-/
def choose (which : Extremum) (xs : List (Node α)) : Node α :=
  match xs.filter fun x => !x.isConst, constants xs with
  | [], [] => const Number.zero
  | [], c :: cs => const (which.of c cs)
  | x :: rest, [] => rest.foldl (extremum which) x
  | x :: rest, c :: cs => extremum which (rest.foldl (extremum which) x) (const (which.of c cs))

def comparisons (x : Node α) (rest : List (Operator × Node α)) : Node α :=
  rest.foldl
    (fun x (op, y) =>
      match op with
      | .compare c => apply₂ (fun v w => Number.ofBool (c.holds v w)) (compare c) x y
      | _ => x)
    x

/--
Powers from right to left.
-/
def powers : List (Node α) → Node α
  | [] => const Number.one
  | [x] => x
  | x :: rest => apply₂ Analysis.power pow x (powers rest)

def joinLevel (level : Level) (x : Node α) (rest : List (Operator × Node α)) : Node α :=
  let others := rest.map Prod.snd
  match level with
  | .or => alternatives none (x :: others)
  | .and => conditions none (x :: others)
  | .compare => comparisons x rest
  | .add => sum ((x :: others).flatMap sumTerms)
  | .sub => sum (x :: others.map negate)
  | .mul => product ((x :: others).flatMap productFactors)
  | .div => product (x :: others.map invert)
  | .mod => others.foldl (apply₂ Analysis.remainder mod) x
  | .pow => powers (x :: others)

end Node

def Segment.node (s : Segment (Node α)) : Node α := s.join Node.joinLevel Level.all

mutual

def Term.node : Term α → Node α
  | .number x => .const x
  | .variable name => .variable name
  | .minus t => t.node.negate
  | .not t => t.node.complement
  | .group c => c.segment.node
  | .elementary f c =>
    match c.segment.node with
    | .const x => .const (Analysis.elementary f x)
    | x => .elementary f x
  | .log base c => Node.apply₂ logarithm .log base.segment.node c.segment.node
  | .round modulus c => Node.apply₂ roundTo .round modulus.segment.node c.segment.node
  | .extremum which first rest => Node.choose which (first.segment.node :: rest.nodes)
  | .call name arguments => .call name (.ofList arguments.nodes)
  | .print items => .print items

def Chain.segment : Chain α → Segment (Node α)
  | .last t => ⟨t.node, []⟩
  | .more t op rest => .cons t.node op rest.segment

def Arguments.nodes : Arguments α → List (Node α)
  | .nil => []
  | .cons c rest => c.segment.node :: rest.nodes

end

/--
A formula ready to be evaluated.
-/
def Chain.node (c : Chain α) : Node α := c.segment.node

end Waveplan.Formula
