/-!
This module contains the types of samples: which channels a sequencer outputs at each tick, in
which order, and the kind of value of each.
-/

namespace Waveplan

inductive ScalarKind where
  | bool
  | float
  deriving DecidableEq, Repr

namespace ScalarKind

/--
The kind that can hold the values of both kinds.
-/
def promote : ScalarKind → ScalarKind → ScalarKind
  | .bool, .bool => .bool
  | _, _ => .float

def text : ScalarKind → String
  | .bool => "bool"
  | .float => "f64"

theorem promote_comm (a b : ScalarKind) : a.promote b = b.promote a := by
  cases a <;> cases b <;> rfl

theorem promote_assoc (a b c : ScalarKind) :
    (a.promote b).promote c = a.promote (b.promote c) := by
  cases a <;> cases b <;> cases c <;> rfl

@[simp]
theorem promote_self (a : ScalarKind) : a.promote a = a := by
  cases a <;> rfl

end ScalarKind

structure Field where
  name : String
  kind : ScalarKind
  deriving DecidableEq, Repr

def Field.text (f : Field) : String := f.name ++ ": " ++ f.kind.text

inductive SampleType where
  | scalar (kind : ScalarKind)
  | record (fields : List Field)
  deriving DecidableEq, Repr

namespace SampleType

def bool : SampleType := .scalar .bool

def float : SampleType := .scalar .float

def kinds : SampleType → List ScalarKind
  | .scalar kind => [kind]
  | .record fields => fields.map Field.kind

def width : SampleType → Nat
  | .scalar _ => 1
  | .record fields => fields.length

def isRecord : SampleType → Bool
  | .scalar _ => false
  | .record _ => true

def names : SampleType → Option (List String)
  | .scalar _ => none
  | .record fields => some (fields.map Field.name)

/--
Whether values between two samples make sense: all channels hold floats.
-/
def isInterpolable (t : SampleType) : Bool := t.kinds.all (· = .float)

/--
The one channel `name` of a kind.
-/
def named (name : String) (kind : ScalarKind) : SampleType := .record [⟨name, kind⟩]

def text : SampleType → String
  | .scalar kind => kind.text
  | .record fields => "\x7b" ++ ", ".intercalate (fields.map Field.text) ++ "\x7d"

@[simp]
theorem length_kinds (t : SampleType) : t.kinds.length = t.width := by
  cases t <;> simp [kinds, width]

end SampleType

end Waveplan
