import Waveplan.Config.Lane
import Waveplan.Device.Basic

/-!
This module contains how devices, with their channels, outputs and triggers, are read from documents
and written to them.
-/

namespace Waveplan

variable {α : Type}

namespace PhysicalUnit

def read? (d : Document α) : Option PhysicalUnit := d.text?.bind ofSymbol?

def document (unit : PhysicalUnit) : Document α := .text unit.symbol

/--
A unit that does not stand in a tagged value is read as it is written.
-/
def readOuter? (d : Document α) : Option PhysicalUnit := d.written?.bind ofSymbol?

end PhysicalUnit

namespace Edge

def word : Edge → String
  | .rising => "rising"
  | .falling => "falling"
  | .both => "both"

def ofWord? (s : String) : Option Edge := [rising, falling, both].find? (·.word = s)

/--
An edge is a word, or the only key of a map without content.
-/
def read? : Document α → Option Edge
  | .map [(key, content)] =>
    match content with
    | .scalar _ .null | .map [] =>
      (Document.kind? ([rising, falling, both].map word) key).bind ofWord?
    | _ => none
  | d => d.text?.bind ofWord?

def document (edge : Edge) : Document α := .text edge.word

/--
The edge of a trigger is rising unless it is told.
-/
def readField? : Option (Document α) → Option Edge
  | none => some .rising
  | some d => read? d

end Edge

namespace Trigger

def kinds : List String :=
  ["software", "external_trigger_start", "external_clock", "external_clock_on_change"]

def readEdge? (d : Document α) : Option Edge := do
  match ← d.fields? ["edge"] with
  | [edge] => Edge.readField? edge
  | _ => none

def read? (d : Document α) : Option Trigger := do
  match ← d.variant? "trigger_type" kinds with
  | ("software", content) => if content.isUnit then some .software else none
  | ("external_trigger_start", content) => (readEdge? content).map .externalStart
  | ("external_clock", content) => (readEdge? content).map .externalClock
  | ("external_clock_on_change", content) => (readEdge? content).map .externalClockOnChange
  | _ => none

def kind : Trigger → String
  | .software => "software"
  | .externalStart _ => "external_trigger_start"
  | .externalClock _ => "external_clock"
  | .externalClockOnChange _ => "external_clock_on_change"

def edge? : Trigger → Option Edge
  | .software => none
  | .externalStart edge | .externalClock edge | .externalClockOnChange edge => some edge

def document (trigger : Trigger) : Document α :=
  .record (("trigger_type", .text trigger.kind)
    :: trigger.edge?.toList.map fun edge => ("edge", edge.document))

/--
A trigger of a configuration that stands under `outer` lists and maps.
-/
def readOuter? (outer : Nat) (d : Document α) : Option Trigger :=
  (d.settle? "trigger_type" outer).bind read?

end Trigger

def readPoint? [Number α] (d : Document α) : Option (α × α) :=
  match d with
  | .list [x, y] => do
    let x ← x.float?
    let y ← y.float?
    some (x, y)
  | _ => none

namespace ChannelOutput

variable [Number α]

def kinds : List String :=
  ["constant", "lane_values", "device_trigger", "calibrated_analog_mapping", "advance", "delay"]

/--
An output that contains less than `levels` others, one in another.
-/
def readWithin? (levels : Nat) (d : Document α) : Option (ChannelOutput α) :=
  match levels with
  | 0 => none
  | levels + 1 => do
    let (kind, content) ← d.variant? "type" kinds
    match kind with
    | "constant" =>
      match ← content.fields? ["value"] with
      | [some value] => (Expression.read? value).map .constant
      | _ => none
    | "lane_values" =>
      match ← content.fields? ["lane", "default"] with
      | [some lane, default] => do
        let lane ← lane.text?
        let default ← Document.optional? Expression.read? default
        some (.laneValues lane default)
      | _ => none
    | "device_trigger" =>
      match ← content.fields? ["device_name", "default"] with
      | [some device, default] => do
        let device ← device.text?
        let default ← Document.optional? (readWithin? levels) default
        some (.deviceTrigger device default)
      | _ => none
    | "calibrated_analog_mapping" =>
      let names := ["input", "input_units", "output_units", "measured_data_points"]
      match ← content.fields? names with
      | [some input, inputUnit, outputUnit, some points] => do
        let input ← readWithin? levels input
        let inputUnit ← Document.optional? PhysicalUnit.read? inputUnit
        let outputUnit ← Document.optional? PhysicalUnit.read? outputUnit
        let points ← points.list?
        let points ← points.mapM readPoint?
        some (.calibrated input inputUnit outputUnit points)
      | _ => none
    | "advance" => do
      match ← content.fields? ["input", "advance"] with
      | [some input, some shift] => do
        let input ← readWithin? levels input
        let shift ← Expression.read? shift
        some (.advance input shift)
      | _ => none
    | "delay" => do
      match ← content.fields? ["input", "delay"] with
      | [some input, some shift] => do
        let input ← readWithin? levels input
        let shift ← Expression.read? shift
        some (.delay input shift)
      | _ => none
    | _ => none

/--
An output. Every output contains one level of lists and maps at least.
-/
def read? (d : Document α) : Option (ChannelOutput α) := readWithin? d.depth d

def document : ChannelOutput α → Document α
  | .constant value => .record [("type", .text "constant"), ("value", value.document)]
  | .laneValues lane default =>
    .record ([("type", .text "lane_values"), ("lane", .text lane)]
      ++ default.toList.map fun value => ("default", value.document))
  | .deviceTrigger device none =>
    .record [("type", .text "device_trigger"), ("device_name", .text device)]
  | .deviceTrigger device (some default) =>
    .record [("type", .text "device_trigger"), ("device_name", .text device),
      ("default", default.document)]
  | .calibrated input inputUnit outputUnit points =>
    .record [("type", .text "calibrated_analog_mapping"), ("input", input.document),
      ("input_units", .ofOption PhysicalUnit.document inputUnit),
      ("output_units", .ofOption PhysicalUnit.document outputUnit),
      ("measured_data_points", .list (points.map fun (x, y) => .list [.float x, .float y]))]
  | .advance input shift =>
    .record [("type", .text "advance"), ("input", input.document), ("advance", shift.document)]
  | .delay input shift =>
    .record [("type", .text "delay"), ("input", input.document), ("delay", shift.document)]

/--
An output of a configuration that stands under `outer` lists and maps.
-/
def readOuter? (outer : Nat) (d : Document α) : Option (ChannelOutput α) :=
  (d.settle? "type" outer).bind read?

end ChannelOutput

namespace Channel

variable [Number α]

def kinds : List String := ["digital", "analog"]

def read? (d : Document α) : Option (Channel α) := do
  match ← d.variant? "type" kinds with
  | ("digital", content) =>
    match ← content.fields? ["description", "output"] with
    | [some description, some output] => do
      let description ← description.text?
      let output ← ChannelOutput.read? output
      some (.digital description output)
    | _ => none
  | ("analog", content) =>
    match ← content.fields? ["description", "output", "output_unit"] with
    | [some description, some output, unit] => do
      let description ← description.text?
      let output ← ChannelOutput.read? output
      let unit ← Document.optional? PhysicalUnit.read? unit
      some (.analog description output unit)
    | _ => none
  | _ => none

def document : Channel α → Document α
  | .digital description output =>
    .record [("type", .text "digital"), ("description", .text description),
      ("output", output.document)]
  | .analog description output unit =>
    .record [("type", .text "analog"), ("description", .text description),
      ("output", output.document), ("output_unit", .ofOption PhysicalUnit.document unit)]

/--
A channel of a configuration that stands under `outer` lists and maps.
-/
def readOuter? (outer : Nat) (d : Document α) : Option (Channel α) :=
  (d.settle? "type" outer).bind read?

end Channel

namespace TimeStep

/--
A time step is at least one nanosecond.
-/
def read? (d : Document α) : Option TimeStep := d.word?.bind ofNs?

def document (step : TimeStep) : Document α := .nat step.ns.toNat

end TimeStep

namespace Device

variable [Number α]

def kinds : List String := ["sequencer", "camera", "other"]

def read? (d : Document α) : Option (Device α) := do
  match ← d.variant? "type" kinds with
  | ("sequencer", content) =>
    match ← content.fields? ["time_step", "trigger", "channels"] with
    | [some timeStep, some trigger, some channels] => do
      let timeStep ← TimeStep.read? timeStep
      let trigger ← Trigger.read? trigger
      let channels ← channels.list?
      let channels ← channels.mapM Channel.read?
      some (.sequencer ⟨timeStep, trigger, channels⟩)
    | _ => none
  | ("camera", content) => if content.isUnit then some .camera else none
  | ("other", content) => if content.isUnit then some .other else none
  | _ => none

def document : Device α → Document α
  | .sequencer config =>
    .record [("type", .text "sequencer"), ("time_step", config.timeStep.document),
      ("trigger", config.trigger.document),
      ("channels", .list (config.channels.map Channel.document))]
  | .camera => .record [("type", .text "camera")]
  | .other => .record [("type", .text "other")]

/--
A device of a configuration that stands under `outer` lists and maps.
-/
def readOuter? (outer : Nat) (d : Document α) : Option (Device α) :=
  (d.settle? "type" outer).bind read?

end Device

end Waveplan
