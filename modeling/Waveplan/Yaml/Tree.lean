import Waveplan.Document.Plain
import Waveplan.Yaml.Token

/-!
This module contains the document that the tokens of a text form.

A parser takes tokens from the front and returns the others. Every level of a document takes one
step from a number of `steps`, which is larger than any document of so many tokens needs.
-/

namespace Waveplan.Yaml

/--
An anchored value.
-/
structure Anchored (α : Type) where
  value : Document α
  /-- The number of values that aliases inside it have been replaced by. -/
  copies : Nat

/--
The marks that are in force while a document is read.
-/
structure Marks (α : Type) where
  /-- What the handles of tags stand for. -/
  handles : List (List Char × List Char) := []
  /-- Anchored values, the last one first. An anchor without value is still being read. -/
  anchors : List (List Char × Option (Anchored α)) := []
  /-- The number of values that aliases have been replaced by. -/
  copies : Nat := 0

namespace Marks

variable {α : Type}

/--
An anchor whose value is still to be read.
-/
def openAnchor (m : Marks α) (name : Option (List Char)) : Marks α :=
  match name with
  | none => m
  | some name => { m with anchors := (name, none) :: m.anchors }

/--
An anchor whose value has been read since there were `copiesBefore` copies.
-/
def closeAnchor (m : Marks α) (name : Option (List Char)) (copiesBefore : Nat)
    (value : Document α) : Marks α :=
  match name with
  | none => m
  | some name =>
    { m with anchors := (name, some ⟨value, m.copies - copiesBefore⟩) :: m.anchors }

/--
The value that an alias stands for.
-/
def resolve? (m : Marks α) (name : List Char) : Option (Document α × Marks α) :=
  match m.anchors.lookup name with
  | some (some anchored) =>
    some (anchored.value, { m with copies := m.copies + anchored.copies + 1 })
  | _ => none

end Marks

/--
A value or a part of it, with the marks in force behind it and the tokens there.
-/
structure Parsed (α β : Type) where
  value : β
  marks : Marks α
  rest : List Token

/--
What may stand in front of a value.
-/
structure Properties where
  anchor : Option (List Char) := none
  tag : Option Tag := none

namespace Properties

/--
An anchor and a tag, in either order, and the tokens behind them.
-/
def read : List Token → Properties × List Token
  | .anchor name :: .tag tag :: rest => (⟨some name, some tag⟩, rest)
  | .tag tag :: .anchor name :: rest => (⟨some name, some tag⟩, rest)
  | .anchor name :: rest => (⟨some name, none⟩, rest)
  | .tag tag :: rest => (⟨none, some tag⟩, rest)
  | rest => ({}, rest)

def isEmpty (p : Properties) : Bool := p.anchor.isNone && p.tag.isNone

/--
The full name of the tag, if there is one. Its handle must be known.
-/
def tagName? (p : Properties) (handles : List (List Char × List Char)) :
    Option (Option (List Char)) :=
  match p.tag with
  | none => some none
  | some tag => (tag.name? handles).map some

end Properties

variable {α : Type} [Number α]

/--
What a scalar with one of the tags of basic values stands for. Text that is no such value is
foreign.
-/
def basicDatum? (tag : List Char) (written : String) : Option (Datum α) :=
  let cs := written.toList
  if tag = "tag:yaml.org,2002:bool".toList then
    match (Datum.ofPlain written : Datum α) with
    | .bool value => some (.bool value)
    | _ => some .foreign
  else if tag = "tag:yaml.org,2002:int".toList then
    some (match PlainInteger.read cs with
      | some n => .integer n
      | none => .foreign)
  else if tag = "tag:yaml.org,2002:float".toList then
    some (match PlainFloat.read cs with
      | some x => .float x
      | none => .foreign)
  else if tag = "tag:yaml.org,2002:null".toList then
    some (if ["~", "null", "Null", "NULL"].contains written then .null else .foreign)
  else
    none

/--
A scalar with or without a tag. The tag of a single exclamation mark says nothing.
-/
def scalarOf (tag : Option (List Char)) (text : List Char) (isPlain : Bool) : Document α :=
  let written := String.ofList text
  match tag with
  | none | some ['!'] => .scalar written (if isPlain then .ofPlain written else .text)
  | some ('!' :: _) => .scalar written .foreign
  | some name => .scalar written ((basicDatum? name written).getD .text)

/--
An empty value, which may have a tag nevertheless.
-/
def emptyOf (tag : Option (List Char)) : Document α :=
  match tag with
  | none => .scalar "" .null
  | some ('!' :: _) => .scalar "" .foreign
  | some name => .scalar "" ((basicDatum? name "").getD .text)

/--
A list or map with or without a tag. Only tags of the document's own are kept.
-/
def collectionOf (tag : Option (List Char)) (content : Document α) : Document α :=
  match tag with
  | some ('!' :: _) => .tagged content
  | _ => content

/--
Where a value stands, which decides what may begin there.
-/
inductive Place where
  | block
  /-- A key or value of a block map, whose list may stand at the same column. -/
  | blockMap
  | flow
  deriving DecidableEq, Repr

mutual

/--
A value.
-/
def node (steps : Nat) (place : Place) (m : Marks α) (tokens : List Token) :
    Option (Parsed α (Document α)) :=
  match steps with
  | 0 => none
  | steps + 1 =>
    match tokens with
    | .alias name :: rest => (m.resolve? name).map fun (value, m) => ⟨value, m, rest⟩
    | _ => do
      let (properties, tokens) := Properties.read tokens
      let tag ← properties.tagName? m.handles
      let m := m.openAnchor properties.anchor
      let anchored (p : Parsed α (Document α)) : Parsed α (Document α) :=
        { p with marks := p.marks.closeAnchor properties.anchor m.copies p.value }
      let collected (content : Parsed α (Document α)) : Parsed α (Document α) :=
        anchored { content with value := collectionOf tag content.value }
      match tokens with
      | .scalar text isPlain :: rest => some (anchored ⟨scalarOf tag text isPlain, m, rest⟩)
      | .flowListStart :: rest => do
        let p ← flowItems steps true m rest
        some (collected ⟨.list p.value, p.marks, p.rest⟩)
      | .flowMapStart :: rest => do
        let p ← flowEntries steps true m rest
        some (collected ⟨.map p.value, p.marks, p.rest⟩)
      | .blockListStart :: rest =>
        if place = .flow then none
        else do
          let p ← blockItems steps m rest
          some (collected ⟨.list p.value, p.marks, p.rest⟩)
      | .blockMapStart :: rest =>
        if place = .flow then none
        else do
          let p ← blockEntries steps m rest
          some (collected ⟨.map p.value, p.marks, p.rest⟩)
      | .blockItem :: _ =>
        if place = .blockMap then do
          let p ← looseItems steps m tokens
          some (collected ⟨.list p.value, p.marks, p.rest⟩)
        else if properties.isEmpty then none
        else some (anchored ⟨emptyOf tag, m, tokens⟩)
      | _ => if properties.isEmpty then none else some (anchored ⟨emptyOf tag, m, tokens⟩)

/--
A value, or an empty one in front of the tokens that `ends` holds of.
-/
def optional (steps : Nat) (place : Place) (ends : Token → Bool) (m : Marks α)
    (tokens : List Token) : Option (Parsed α (Document α)) :=
  match steps with
  | 0 => none
  | steps + 1 =>
    if tokens.head?.any ends then some ⟨emptyOf none, m, tokens⟩ else node steps place m tokens

/--
The items of an indented list.
-/
def blockItems (steps : Nat) (m : Marks α) (tokens : List Token) :
    Option (Parsed α (List (Document α))) :=
  match steps, tokens with
  | steps + 1, .blockItem :: rest => do
    let item ← optional steps .block (fun t => t == .blockItem || t == .blockEnd) m rest
    let more ← blockItems steps item.marks item.rest
    some ⟨item.value :: more.value, more.marks, more.rest⟩
  | _ + 1, .blockEnd :: rest => some ⟨[], m, rest⟩
  | _, _ => none

/--
The items of a list that stands at the column of the map around it.
-/
def looseItems (steps : Nat) (m : Marks α) (tokens : List Token) :
    Option (Parsed α (List (Document α))) :=
  match steps, tokens with
  | steps + 1, .blockItem :: rest => do
    let ends (t : Token) : Bool := [.blockItem, .key, .value, .blockEnd].contains t
    let item ← optional steps .block ends m rest
    let more ← looseItems steps item.marks item.rest
    some ⟨item.value :: more.value, more.marks, more.rest⟩
  | _ + 1, rest => some ⟨[], m, rest⟩
  | _, _ => none

/--
The entries of an indented map.
-/
def blockEntries (steps : Nat) (m : Marks α) (tokens : List Token) :
    Option (Parsed α (List (Document α × Document α))) :=
  match steps, tokens with
  | steps + 1, .key :: rest => do
    let ends (t : Token) : Bool := [.key, .value, .blockEnd].contains t
    let key ← optional steps .blockMap ends m rest
    let value ← match key.rest with
      | .value :: rest => optional steps .blockMap ends key.marks rest
      | rest => some ⟨emptyOf none, key.marks, rest⟩
    let more ← blockEntries steps value.marks value.rest
    some ⟨(key.value, value.value) :: more.value, more.marks, more.rest⟩
  | _ + 1, .blockEnd :: rest => some ⟨[], m, rest⟩
  | _, _ => none

/--
The items of a list in brackets. A key and its value are a map of one entry.
-/
def flowItems (steps : Nat) (isFirst : Bool) (m : Marks α) (tokens : List Token) :
    Option (Parsed α (List (Document α))) :=
  match steps with
  | 0 => none
  | steps + 1 =>
    match tokens, isFirst with
    | .flowListEnd :: rest, _ => some ⟨[], m, rest⟩
    | .flowItem :: .flowListEnd :: rest, false => some ⟨[], m, rest⟩
    | .flowItem :: rest, false => do
      let item ← flowListItem steps m rest
      let more ← flowItems steps false item.marks item.rest
      some ⟨item.value :: more.value, more.marks, more.rest⟩
    | _, false => none
    | rest, true => do
      let item ← flowListItem steps m rest
      let more ← flowItems steps false item.marks item.rest
      some ⟨item.value :: more.value, more.marks, more.rest⟩

/--
An item of a list in brackets. Where a key is missing, the mark behind it is skipped.
-/
def flowListItem (steps : Nat) (m : Marks α) (tokens : List Token) :
    Option (Parsed α (Document α)) :=
  match steps, tokens with
  | steps + 1, .key :: rest => do
    let ends (t : Token) : Bool := [.value, .flowItem, .flowListEnd].contains t
    let key ←
      if rest.head?.any ends then some ⟨emptyOf none, m, rest.drop 1⟩ else node steps .flow m rest
    let value ← match key.rest with
      | .value :: rest =>
        optional steps .flow (fun t => t == .flowItem || t == .flowListEnd) key.marks rest
      | rest => some ⟨emptyOf none, key.marks, rest⟩
    some ⟨.map [(key.value, value.value)], value.marks, value.rest⟩
  | steps + 1, tokens => node steps .flow m tokens
  | 0, _ => none

/--
The entries of a map in braces. A key without colon has an empty value.
-/
def flowEntries (steps : Nat) (isFirst : Bool) (m : Marks α) (tokens : List Token) :
    Option (Parsed α (List (Document α × Document α))) :=
  match steps with
  | 0 => none
  | steps + 1 =>
    match tokens, isFirst with
    | .flowMapEnd :: rest, _ => some ⟨[], m, rest⟩
    | .flowItem :: .flowMapEnd :: rest, false => some ⟨[], m, rest⟩
    | .flowItem :: rest, false => do
      let entry ← flowEntry steps m rest
      let more ← flowEntries steps false entry.marks entry.rest
      some ⟨entry.value :: more.value, more.marks, more.rest⟩
    | _, false => none
    | rest, true => do
      let entry ← flowEntry steps m rest
      let more ← flowEntries steps false entry.marks entry.rest
      some ⟨entry.value :: more.value, more.marks, more.rest⟩

/--
An entry of a map in braces.
-/
def flowEntry (steps : Nat) (m : Marks α) (tokens : List Token) :
    Option (Parsed α (Document α × Document α)) :=
  match steps, tokens with
  | steps + 1, .key :: rest => do
    let ends (t : Token) : Bool := [.value, .flowItem, .flowMapEnd].contains t
    let key ← optional steps .flow ends m rest
    let value ← match key.rest with
      | .value :: rest =>
        optional steps .flow (fun t => t == .flowItem || t == .flowMapEnd) key.marks rest
      | rest => some ⟨emptyOf none, key.marks, rest⟩
    some ⟨(key.value, value.value), value.marks, value.rest⟩
  | steps + 1, tokens => do
    let key ← node steps .flow m tokens
    some ⟨(key.value, emptyOf none), key.marks, key.rest⟩
  | 0, _ => none

end

/--
The directives in front of a document, and the tokens behind them.
-/
def takeDirectives : List Token → List Directive × List Token
  | .directive directive :: rest =>
    let (directives, rest) := takeDirectives rest
    (directive :: directives, rest)
  | rest => ([], rest)

/--
Whether directives can stand together: one version at most, which must be known, and different
handles.
-/
def areCompatible : List Directive → Bool
  | [] => true
  | .version major minor :: rest =>
    major = 1 && (minor = 1 || minor = 2) && rest.all (!isVersion ·) && areCompatible rest
  | .tagHandle handle _ :: rest => rest.all (!isHandle handle ·) && areCompatible rest
where
  isVersion : Directive → Bool
    | .version _ _ => true
    | _ => false
  isHandle (handle : List Char) : Directive → Bool
    | .tagHandle other _ => handle = other
    | _ => false

def handlesOf (directives : List Directive) : List (List Char × List Char) :=
  directives.filterMap fun directive =>
    match directive with
    | .tagHandle handle stem => some (handle, stem)
    | _ => none

/--
Whether nothing but marks that end a document is left.
-/
def isFinished (tokens : List Token) : Bool := tokens.all (· == .documentEnd)

/--
How often values may be copied for aliases, for each token of a text.
-/
def copiesPerToken : Nat := 100

/--
A value that is all that is left of a text.
-/
def lastNode (m : Marks α) (tokens : List Token) : Option (Document α) := do
  let p ← node (3 * tokens.length + 3) .block m tokens
  if isFinished p.rest ∧ p.marks.copies ≤ copiesPerToken * tokens.length then some p.value
  else none

/--
The document that tokens form. There must be exactly one.
-/
def ofTokens? (tokens : List Token) : Option (Document α) :=
  let (directives, rest) := takeDirectives tokens
  match directives, rest with
  | [], [] => none
  | _, .documentStart :: rest =>
    if !areCompatible directives then none
    else if isFinished rest then some (emptyOf none)
    else lastNode { handles := handlesOf directives } rest
  | [], rest => lastNode {} rest
  | _ :: _, _ => none

/--
The document that a text stands for.
-/
def read? (text : String) : Option (Document α) := do
  let tokens ← Token.ofText? text
  ofTokens? tokens

end Waveplan.Yaml
