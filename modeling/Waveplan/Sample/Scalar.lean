import Waveplan.Number
import Waveplan.Sample.Type

/-!
This module contains the value of one channel, and the values of all channels, at one tick.
-/

namespace Waveplan

/--
The value of one channel at one tick.
-/
inductive Scalar (α : Type) where
  | bool (value : Bool)
  | float (value : α)
  deriving BEq, Repr

namespace Scalar

variable {α : Type}

def kind : Scalar α → ScalarKind
  | .bool _ => .bool
  | .float _ => .float

variable [Number α]

/--
The value as a float, `true` being one.
-/
def toFloat : Scalar α → α
  | .bool b => Number.ofBool b
  | .float x => x

/--
The value as a boolean, every float but zero being `true`.
-/
def toBool : Scalar α → Bool
  | .bool b => b
  | .float x => Number.isNonzero x

def cast (s : Scalar α) : ScalarKind → Scalar α
  | .bool => .bool s.toBool
  | .float => .float s.toFloat

def text : Scalar α → String
  | .bool b => toString b
  | .float x => Number.text x

@[simp]
theorem kind_cast (s : Scalar α) (k : ScalarKind) : (s.cast k).kind = k := by
  cases k <;> rfl

@[simp]
theorem cast_kind (s : Scalar α) : s.cast s.kind = s := by
  cases s <;> rfl

end Scalar

structure Sample (α : Type) where
  values : List (Scalar α)
  deriving BEq, Repr

namespace Sample

variable {α : Type}

def width (s : Sample α) : Nat := s.values.length

/--
The value of a sample with a single channel.
-/
def asScalar? (s : Sample α) : Option (Scalar α) :=
  match s.values with
  | [value] => some value
  | _ => none

def text [Number α] (s : Sample α) : String :=
  match s.values with
  | [value] => value.text
  | values => "(" ++ ", ".intercalate (values.map Scalar.text) ++ ")"

end Sample

end Waveplan
