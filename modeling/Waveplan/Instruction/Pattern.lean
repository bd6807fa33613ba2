import Waveplan.Sample.Compatible
import Waveplan.Sample.Scalar

/-!
This module contains patterns: samples that are written out, one column of values per channel.
-/

namespace Waveplan

inductive Column (α : Type) where
  | bool (values : List Bool)
  | float (values : List α)
  deriving BEq, DecidableEq, Repr

namespace Column

variable {α : Type}

def empty : ScalarKind → Column α
  | .bool => .bool []
  | .float => .float []

def kind : Column α → ScalarKind
  | .bool _ => .bool
  | .float _ => .float

def length : Column α → Nat
  | .bool values => values.length
  | .float values => values.length

/--
The values from tick `start` up to but not including tick `stop`.
-/
def slice (c : Column α) (start stop : Nat) : Column α :=
  match c with
  | .bool values => .bool ((values.take stop).drop start)
  | .float values => .float ((values.take stop).drop start)

def tile (c : Column α) (copies : Nat) : Column α :=
  match c with
  | .bool values => .bool (List.replicate copies values).flatten
  | .float values => .float (List.replicate copies values).flatten

def scalars : Column α → List (Scalar α)
  | .bool values => values.map .bool
  | .float values => values.map .float

@[simp]
theorem kind_empty (k : ScalarKind) : (empty k : Column α).kind = k := by
  cases k <;> rfl

@[simp]
theorem length_empty (k : ScalarKind) : (empty k : Column α).length = 0 := by
  cases k <;> rfl

@[simp]
theorem length_scalars (c : Column α) : c.scalars.length = c.length := by
  cases c <;> simp [scalars, length]

@[simp]
theorem kind_slice (c : Column α) (start stop : Nat) : (c.slice start stop).kind = c.kind := by
  cases c <;> rfl

@[simp]
theorem kind_tile (c : Column α) (copies : Nat) : (c.tile copies).kind = c.kind := by
  cases c <;> rfl

variable [Number α]

/--
The value at a tick. Past the end this is `false` or zero.
-/
def get (c : Column α) (i : Nat) : Scalar α :=
  match c with
  | .bool values => .bool (values.getD i false)
  | .float values => .float (values.getD i Number.zero)

/--
Put one value, converted to the kind of the column, before the others.
-/
def cons (value : Scalar α) : Column α → Column α
  | .bool values => .bool (value.toBool :: values)
  | .float values => .float (value.toFloat :: values)

def cast (c : Column α) (kind : ScalarKind) : Column α :=
  match c, kind with
  | .bool values, .float => .float (values.map Number.ofBool)
  | .float values, .bool => .bool (values.map Number.isNonzero)
  | c, _ => c

/--
Put a column, converted to the kind of the other, before it.
-/
def append (first : Column α) : Column α → Column α
  | .bool values =>
    match first with
    | .bool earlier => .bool (earlier ++ values)
    | .float earlier => .bool (earlier.map Number.isNonzero ++ values)
  | .float values =>
    match first with
    | .bool earlier => .float (earlier.map Number.ofBool ++ values)
    | .float earlier => .float (earlier ++ values)

@[simp]
theorem kind_cast (c : Column α) (k : ScalarKind) : (c.cast k).kind = k := by
  cases c <;> cases k <;> rfl

@[simp]
theorem length_cast (c : Column α) (k : ScalarKind) : (c.cast k).length = c.length := by
  cases c <;> cases k <;> simp [cast, length]

@[simp]
theorem kind_append (c d : Column α) : (c.append d).kind = d.kind := by
  cases c <;> cases d <;> rfl

@[simp]
theorem length_append (c d : Column α) : (c.append d).length = c.length + d.length := by
  cases c <;> cases d <;> simp [append, length]

end Column

structure Pattern (α : Type) where
  sampleType : SampleType
  columns : List (Column α)
  length : Nat
  deriving BEq, DecidableEq, Repr

namespace Pattern

variable {α : Type}

/--
A pattern from its columns, which must be of the kinds of the sample type and equally long.
-/
def ofColumns (t : SampleType) (columns : List (Column α)) :
    Except InstructionError (Pattern α) :=
  if columns.map Column.kind ≠ t.kinds then
    .error (.sampleWidth t t.width columns.length)
  else
    let length := (columns.head?.map Column.length).getD 0
    match columns.find? (·.length ≠ length) with
    | some other => .error (.lengthMismatch length other.length)
    | none => .ok ⟨t, columns, length⟩

def ofBools (values : List Bool) : Pattern α := ⟨.bool, [.bool values], values.length⟩

def ofFloats (values : List α) : Pattern α := ⟨.float, [.float values], values.length⟩

def empty (t : SampleType) : Pattern α := ⟨t, t.kinds.map Column.empty, 0⟩

def slice (p : Pattern α) (start stop : Nat) : Pattern α :=
  ⟨p.sampleType, p.columns.map (·.slice start stop), stop - start⟩

def tile (p : Pattern α) (copies : Nat) : Pattern α :=
  ⟨p.sampleType, p.columns.map (·.tile copies), p.length * copies⟩

def field (p : Pattern α) (name : String) : Except InstructionError (Pattern α) := do
  let (index, t) ← p.sampleType.project name
  .ok ⟨t, p.columns[index]?.toList, p.length⟩

def column (p : Pattern α) (name : String) : Except InstructionError (Column α) := do
  let index ← p.sampleType.fieldIndex name
  .ok (p.columns.getD index (.bool []))

/--
The channels of two patterns side by side, those of `a` first.
-/
def stack (a b : Pattern α) : Except InstructionError (Pattern α) := do
  if a.length ≠ b.length then
    .error (.lengthMismatch a.length b.length)
  else
    let t ← a.sampleType.merge b.sampleType
    .ok ⟨t, a.columns ++ b.columns, a.length⟩

def relabel (p : Pattern α) (t : SampleType) : Pattern α := { p with sampleType := t }

variable [Number α]

/--
A pattern from its samples, each value being converted to the kind of its channel.
-/
def ofSamples (t : SampleType) (samples : List (Sample α)) :
    Except InstructionError (Pattern α) :=
  match samples.find? (·.width ≠ t.width) with
  | some sample => .error (.sampleWidth t t.width sample.width)
  | none =>
    let columns := samples.foldr (fun s columns => List.zipWith Column.cons s.values columns)
      (t.kinds.map Column.empty)
    .ok ⟨t, columns, samples.length⟩

/--
The same sample at each of `length` ticks.
-/
def constant (t : SampleType) (sample : Sample α) (length : Nat) :
    Except InstructionError (Pattern α) := do
  let p ← ofSamples t [sample]
  .ok (p.tile length)

/--
The sample at a tick below the length.
-/
def sample (p : Pattern α) (i : Nat) : Sample α := ⟨p.columns.map (·.get i)⟩

def samples (p : Pattern α) : List (Sample α) :=
  let rows := p.columns.foldr (fun c rows => List.zipWith List.cons c.scalars rows)
    (List.replicate p.length [])
  rows.map Sample.mk

def cast (p : Pattern α) (t : SampleType) : Except InstructionError (Pattern α) := do
  p.sampleType.checkCast t
  .ok ⟨t, List.zipWith Column.cast p.columns t.kinds, p.length⟩

/--
Put a pattern, its values converted to the kinds of the other, before it.
-/
def append (first second : Pattern α) : Pattern α :=
  { sampleType := second.sampleType
    columns := List.zipWith Column.append first.columns second.columns
    length := first.length + second.length }

/--
Patterns end to end, their values converted to the kinds of `t`.
-/
def concat (t : SampleType) (patterns : List (Pattern α)) : Pattern α :=
  patterns.foldr append (empty t)

def text (p : Pattern α) : String := "[" ++ ", ".intercalate (p.samples.map Sample.text) ++ "]"

@[simp]
theorem concat_nil (t : SampleType) : concat t ([] : List (Pattern α)) = empty t := rfl

@[simp]
theorem concat_cons (t : SampleType) (p : Pattern α) (ps : List (Pattern α)) :
    concat t (p :: ps) = p.append (concat t ps) := rfl

@[simp]
theorem sampleType_concat (t : SampleType) (ps : List (Pattern α)) :
    (concat t ps).sampleType = t := by
  induction ps with
  | nil => rfl
  | cons p ps ih => exact ih

@[simp]
theorem length_concat (t : SampleType) (ps : List (Pattern α)) :
    (concat t ps).length = (ps.map Pattern.length).foldr (· + ·) 0 := by
  induction ps with
  | nil => rfl
  | cons p ps ih =>
    rw [List.map_cons, List.foldr_cons, ← ih]
    rfl

end Pattern

end Waveplan
