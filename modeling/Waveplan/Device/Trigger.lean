/-!
This module contains what starts a sequencer, or advances it from one tick to the next.
-/

namespace Waveplan

inductive Edge where
  | rising | falling | both
  deriving DecidableEq, Repr

def Edge.name : Edge → String
  | .rising => "Rising"
  | .falling => "Falling"
  | .both => "Both"

/--
What starts a sequencer, or advances it from one tick to the next.
-/
inductive Trigger where
  /-- Started by the computer. Exactly one sequencer is started this way. -/
  | software
  /-- Started by an edge, after which the sequencer runs on its own clock. -/
  | externalStart (edge : Edge)
  /-- Every tick is clocked from outside. -/
  | externalClock (edge : Edge)
  /-- Clocked from outside, but only when the output changes. -/
  | externalClockOnChange (edge : Edge)
  deriving DecidableEq, Repr

namespace Trigger

def isSoftware : Trigger → Bool
  | .software => true
  | _ => false

/--
The order in which sequencers are started: those started by the computer come first.
-/
def priority (t : Trigger) : Nat := if t.isSoftware then 0 else 1

def text : Trigger → String
  | .software => "software"
  | .externalStart edge => "external trigger start (" ++ edge.name ++ ")"
  | .externalClock edge => "external clock (" ++ edge.name ++ ")"
  | .externalClockOnChange edge => "external clock on change (" ++ edge.name ++ ")"

end Trigger

end Waveplan
