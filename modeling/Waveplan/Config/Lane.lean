import Waveplan.Config.Record
import Waveplan.Lane.Basic

/-!
This module contains how lanes and steps are read from documents and written to them.
-/

namespace Waveplan

variable {α : Type}

namespace Expression

def read? (d : Document α) : Option Expression := d.text?.map Expression.mk

def document (e : Expression) : Document α := .text e.body

end Expression

namespace DigitalValue

/--
A boolean is a literal, and a text is an expression.
-/
def read? (d : Document α) : Option DigitalValue :=
  match d.bool? with
  | some value => some (.literal value)
  | none => (Expression.read? d).map .expression

def document : DigitalValue → Document α
  | .literal value => .bool value
  | .expression e => e.document

end DigitalValue

namespace AnalogValue

def read? (d : Document α) : Option AnalogValue := (Expression.read? d).map ofExpression

def document (value : AnalogValue) : Document α := value.toExpression.document

end AnalogValue

namespace Picture

def read? (d : Document α) : Option Picture := do
  match ← d.fields? ["picture_name"] with
  | [some name] => name.text?.map Picture.mk
  | _ => none

def document (picture : Picture) : Document α := .record [("picture_name", .text picture.name)]

end Picture

namespace Block

variable {β : Type}

/--
A block, whose value is read from its field, which may be absent.
-/
def read? (readValue : Option (Document α) → Option β) (d : Document α) : Option (Block β) := do
  match ← d.fields? ["value", "span"] with
  | [value, some span] => do
    let value ← readValue value
    let span ← span.word?
    some ⟨value, span⟩
  | _ => none

def document (writeValue : β → Document α) (b : Block β) : Document α :=
  .record [("value", writeValue b.value), ("span", .nat b.span.toNat)]

def readAll? (readValue : Option (Document α) → Option β) (d : Document α) :
    Option (List (Block β)) := do
  match ← d.fields? ["blocks"] with
  | [some blocks] => do
    let blocks ← blocks.list?
    blocks.mapM (read? readValue)
  | _ => none

end Block

namespace Lane

def kinds : List String := ["digital", "analog", "camera"]

def read? (d : Document α) : Option Lane := do
  match ← d.variant? "type" kinds with
  | ("digital", content) => (Block.readAll? (·.bind DigitalValue.read?) content).map .digital
  | ("analog", content) => (Block.readAll? (·.bind AnalogValue.read?) content).map .analog
  | ("camera", content) =>
    (Block.readAll? (Document.optional? Picture.read?) content).map .camera
  | _ => none

def blockDocuments : Lane → List (Document α)
  | .digital blocks => blocks.map (Block.document DigitalValue.document)
  | .analog blocks => blocks.map (Block.document AnalogValue.document)
  | .camera blocks => blocks.map (Block.document (Document.ofOption Picture.document))

def document (lane : Lane) : Document α :=
  .record [("type", .text lane.kind), ("blocks", .list lane.blockDocuments)]

/--
A lane of a configuration that stands under `outer` lists and maps.
-/
def readOuter? (outer : Nat) (d : Document α) : Option Lane :=
  (d.settle? "type" outer).bind read?

end Lane

namespace Step

/--
A step. Its name and duration are read as they are written, so that numbers are durations too.
-/
def read? (d : Document α) : Option Step := do
  match ← d.outerFields? ["name", "duration"] with
  | [some name, some duration] => do
    let name ← name.written?
    let duration ← duration.written?
    some ⟨name, ⟨duration⟩⟩
  | _ => none

def document (step : Step) : Document α :=
  .record [("name", .text step.name), ("duration", step.duration.document)]

end Step

end Waveplan
