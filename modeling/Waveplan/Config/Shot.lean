import Waveplan.Config.Device
import Waveplan.Shot.File
import Waveplan.Yaml.Tree

/-!
This module contains how whole shots are read from documents and written to them.
-/

namespace Waveplan

variable {α : Type}

namespace VariableDefinition

/--
A definition, whose value is read as it is written. Only names that expressions can read are
defined.
-/
def read? (d : Document α) : Option VariableDefinition := do
  match ← d.outerFields? ["name", "value"] with
  | [some name, some value] => do
    let name ← name.written?
    let value ← value.written?
    if VariableName.isValid name.toList then some ⟨name, ⟨value⟩⟩ else none
  | _ => none

def document (definition : VariableDefinition) : Document α :=
  .record [("name", .text definition.name), ("value", definition.value.document)]

end VariableDefinition

namespace Dictionary

/--
Values by name. Names are read as they are written, and the last value under a name counts.
-/
def read? {β : Type} (readValue : Document α → Option β) (d : Document α) :
    Option (Dictionary β) := do
  let entries ← d.entries?
  let named ← entries.mapM fun (key, value) => do
    let name ← key.written?
    let value ← readValue value
    some (name, value)
  some (.ofList named)

def document {β : Type} (write : β → Document α) (d : Dictionary β) : Document α :=
  .record (d.entries.map fun (name, value) => (name, write value))

end Dictionary

namespace Shot

variable [Number α]

/--
The number of maps around the lanes and devices of a shot.
-/
def nesting : Nat := 2

def fieldOr {β : Type} (default : β) (read : Document α → Option β) :
    Option (Document α) → Option β
  | none => some default
  | some d => read d

def read? (d : Document α) : Option (Shot α) := do
  match ← d.outerFields? ["steps", "variables", "lanes", "devices"] with
  | [some steps, definitions, lanes, some devices] => do
    let steps ← steps.items?
    let steps ← steps.mapM Step.read?
    let definitions ← fieldOr [] Document.items? definitions
    let definitions ← definitions.mapM VariableDefinition.read?
    let lanes ← fieldOr .empty (Dictionary.read? (Lane.readOuter? nesting)) lanes
    let devices ← Dictionary.read? (Device.readOuter? nesting) devices
    some ⟨steps, definitions, lanes, devices⟩
  | _ => none

def document (s : Shot α) : Document α :=
  .record [("steps", .list (s.steps.map Step.document)),
    ("variables", .list (s.definitions.map VariableDefinition.document)),
    ("lanes", s.lanes.document Lane.document),
    ("devices", s.devices.document Device.document)]

def ofYaml? (text : String) : Option (Shot α) := (Yaml.read? text).bind read?

end Shot

end Waveplan
