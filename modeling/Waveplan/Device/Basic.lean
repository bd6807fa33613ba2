import Waveplan.Device.Trigger
import Waveplan.Expression.Basic
import Waveplan.TimeStep

/-!
This module contains the configurations of devices: sequencers with their channels, cameras, and
devices that only need to be started.
-/

namespace Waveplan

inductive ChannelOutput (α : Type) where
  | constant (value : Expression)
  /-- The values of a lane, or a default if the shot has no such lane. -/
  | laneValues (lane : String) (default : Option Expression)
  /-- The trigger of another device, or a default if there is no such device. -/
  | deviceTrigger (device : String) (default : Option (ChannelOutput α))
  /-- Another output, mapped through measured points. -/
  | calibrated (input : ChannelOutput α) (inputUnit outputUnit : Option PhysicalUnit)
    (points : List (α × α))
  /-- Another output, earlier. -/
  | advance (input : ChannelOutput α) (shift : Expression)
  /-- Another output, later. -/
  | delay (input : ChannelOutput α) (shift : Expression)
  deriving Repr, BEq

namespace ChannelOutput

variable {α : Type}

def text : ChannelOutput α → String
  | .constant value => "Constant(" ++ value.body ++ ")"
  | .laneValues lane none => lane
  | .laneValues lane (some value) => lane ++ " | " ++ value.body
  | .deviceTrigger device _ => "trig(" ++ device ++ ")"
  | .calibrated input _ _ _ => "calibrated(" ++ input.text ++ ")"
  | .advance input shift => input.text ++ " << " ++ shift.body
  | .delay input shift => shift.body ++ " >> " ++ input.text

/--
Induction over the outputs that an output is made of.
-/
theorem induct {motive : ChannelOutput α → Prop}
    (constant : ∀ value, motive (.constant value))
    (laneValues : ∀ lane default, motive (.laneValues lane default))
    (deviceTrigger : ∀ device default, (∀ other ∈ default, motive other) →
      motive (.deviceTrigger device default))
    (calibrated : ∀ input inputUnit outputUnit points, motive input →
      motive (.calibrated input inputUnit outputUnit points))
    (advance : ∀ input shift, motive input → motive (.advance input shift))
    (delay : ∀ input shift, motive input → motive (.delay input shift))
    (o : ChannelOutput α) : motive o := by
  -- the output after a trigger is optional, so the recursor has a motive for options as well
  refine @ChannelOutput.rec α motive (fun default => ∀ other ∈ default, motive other) constant
    laneValues deviceTrigger calibrated advance delay ?_ ?_ o
  . simp
  . intro other h
    simpa using h

end ChannelOutput

/--
A channel of a sequencer. A channel with a unit outputs floats.
-/
inductive Channel (α : Type) where
  | digital (description : String) (output : ChannelOutput α)
  | analog (description : String) (output : ChannelOutput α) (unit : Option PhysicalUnit)
  deriving Repr, BEq

namespace Channel

variable {α : Type}

def description : Channel α → String
  | .digital description _ => description
  | .analog description _ _ => description

def output : Channel α → ChannelOutput α
  | .digital _ output => output
  | .analog _ output _ => output

/--
The unit that the output must be expressed in.
-/
def unit : Channel α → Option PhysicalUnit
  | .digital _ _ => none
  | .analog _ _ unit => unit

def kind : Channel α → ScalarKind
  | .digital _ _ => .bool
  | .analog _ _ _ => .float

def text : Channel α → String
  | .digital description _ => s!"digital channel '{description}'"
  | .analog description _ none => s!"analog channel '{description}'"
  | .analog description _ (some unit) =>
    s!"analog channel '{description}' with unit " ++ unit.symbol

end Channel

structure Sequencer (α : Type) where
  timeStep : TimeStep
  trigger : Trigger
  channels : List (Channel α)
  deriving Repr, BEq

inductive Device (α : Type) where
  | sequencer (config : Sequencer α)
  | camera
  /-- A device that only needs to be started at the beginning of the shot. -/
  | other
  deriving Repr, BEq

namespace Device

variable {α : Type}

def sequencer? : Device α → Option (Sequencer α)
  | .sequencer config => some config
  | _ => none

def isCamera : Device α → Bool
  | .camera => true
  | _ => false

def kind : Device α → String
  | .sequencer _ => "sequencer"
  | .camera => "camera"
  | .other => "other"

end Device

end Waveplan
