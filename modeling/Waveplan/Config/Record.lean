import Waveplan.Document.Basic

/-!
This module contains how the parts of a configuration are found in a document: the fields of a
record, and the tag that tells which kind of value follows.

A record is a map whose keys are the names of its fields, or the list of its fields in order. A
tagged value is a map with one more field, or a list with one more item in front.
-/

namespace Waveplan.Document

variable {α : Type}

/--
The number of the field that a key stands for, which it tells by name or by number. Names that are
not among the fields get the number after the last one.
-/
def fieldNumber? (names : List String) (key : Document α) : Option Nat :=
  match key.text?, key.word? with
  | some name, _ => some (names.idxOf name)
  | none, some number => some number.toNat
  | none, none => none

/--
The value of a field among numbered values, if there is one. There must not be two.
-/
def fieldAt? (numbered : List (Nat × Document α)) (number : Nat) :
    Option (Option (Document α)) :=
  match numbered.filter fun (n, _) => n == number with
  | [] => some none
  | [(_, value)] => some (some value)
  | _ => none

/--
The values of the fields of a record, in the order of their names. Other entries are ignored.
-/
def fields? (names : List String) : Document α → Option (List (Option (Document α)))
  | .map entries => do
    let numbered ← entries.mapM fun (key, value) =>
      (fieldNumber? names key).map fun number => (number, value)
    (List.range names.length).mapM (fieldAt? numbered)
  | .list items =>
    if items.length ≤ names.length then
      some (items.map some ++ List.replicate (names.length - items.length) none)
    else
      none
  | _ => none

/--
The tag of a value, and the record or unit that it is the tag of.
-/
def splitTag? (name : String) : Document α → Option (Document α × Document α)
  | .map entries =>
    match entries.filter fun (key, _) => key.text? == some name with
    | [(_, tag)] => some (tag, .map (entries.filter fun (key, _) => key.text? != some name))
    | _ => none
  | .list (tag :: rest) => some (tag, .list rest)
  | _ => none

/--
The kind that a tag tells, by its name or by its number.
-/
def kind? (kinds : List String) (tag : Document α) : Option String :=
  match tag.text?, tag.word? with
  | some name, _ => if kinds.contains name then some name else none
  | none, some number => kinds[number.toNat]?
  | none, none => none

/--
The kind that a value is tagged with, and its content.
-/
def variant? (tagName : String) (kinds : List String) (d : Document α) :
    Option (String × Document α) := do
  let (tag, content) ← d.splitTag? tagName
  let kind ← kind? kinds tag
  some (kind, content)

/--
Whether nothing is meant by a content: entries of a map are ignored, items of a list are not.
-/
def isUnit : Document α → Bool
  | .map _ => true
  | .list [] => true
  | _ => false

/--
The value of a field that may be absent or null.
-/
def optional? {β : Type} (read : Document α → Option β) :
    Option (Document α) → Option (Option β)
  | none => some none
  | some d => if d.isNull then some none else (read d).map some

/--
A null for nothing.
-/
def ofOption {β : Type} (write : β → Document α) : Option β → Document α
  | none => null
  | some value => write value

/--
The levels of lists and maps that a document may have.
-/
def depthLimit : Nat := 128

/--
A tagged value that stands under `outer` lists and maps, ready to be read. Its tag is read as it is
written; all else must be typed.
-/
def settle? (tagName : String) (outer : Nat) (d : Document α) : Option (Document α) :=
  let verbatim (tag : Document α) : Document α :=
    match tag.written? with
    | some written => text written
    | none => tag
  let settled := match d with
    | .map entries =>
      .map (entries.map fun (key, value) =>
        if key.text? == some tagName then (key, verbatim value) else (key, value))
    | .list (tag :: rest) => .list (verbatim tag :: rest)
    | d => d
  if settled.isTyped && outer + settled.depth ≤ depthLimit then some settled else none

/--
The values of the fields of a record that does not stand in a tagged value. Keys are read as they
are written, and an empty value is an empty record.
-/
def outerFields? (names : List String) (d : Document α) :
    Option (List (Option (Document α))) :=
  match d.entries?, d.items? with
  | some entries, _ => do
    let named ← entries.mapM fun (key, value) =>
      key.written?.map fun written => (text written, value)
    fields? names (.map named)
  | none, some items => fields? names (.list items)
  | none, none => none

end Waveplan.Document
