import Waveplan.Number

/-!
This module contains documents: trees of lists, maps and scalars, which the configuration of a shot
is read from and written to.

A scalar keeps the text it is written with next to what the text stands for, since `10` can be the
number ten as well as the expression `10`.
-/

namespace Waveplan

/--
What the text of a scalar stands for.
-/
inductive Datum (α : Type) where
  | null
  | bool (value : Bool)
  | integer (value : Int)
  | float (value : α)
  /-- The text stands for itself. -/
  | text
  /-- Something that only a reader who knows the tag of the scalar can tell. -/
  | foreign
  deriving Repr

inductive Document (α : Type) where
  | scalar (written : String) (datum : Datum α)
  | list (items : List (Document α))
  | map (entries : List (Document α × Document α))
  /-- A list or map with a tag that only some readers know. -/
  | tagged (content : Document α)
  deriving Repr

namespace Document

variable {α : Type}

def null : Document α := .scalar "null" .null

def bool (value : Bool) : Document α := .scalar (toString value) (.bool value)

def nat (value : Nat) : Document α := .scalar (toString value) (.integer value)

def float [Number α] (value : α) : Document α := .scalar (Number.text value) (.float value)

def text (value : String) : Document α := .scalar value .text

def record (fields : List (String × Document α)) : Document α :=
  .map (fields.map fun (name, value) => (text name, value))

/--
The text that a scalar is written with, whatever it stands for.
-/
def written? : Document α → Option String
  | .scalar written _ => some written
  | _ => none

def text? : Document α → Option String
  | .scalar written .text => some written
  | _ => none

def bool? : Document α → Option Bool
  | .scalar _ (.bool value) => some value
  | _ => none

def isNull : Document α → Bool
  | .scalar _ .null => true
  | _ => false

def integer? : Document α → Option Int
  | .scalar _ (.integer value) => some value
  | _ => none

def word? (d : Document α) : Option UInt64 :=
  match d.integer? with
  | some value => if 0 ≤ value ∧ value < wordModulus then some (.ofNat value.toNat) else none
  | none => none

def float? [Number α] : Document α → Option α
  | .scalar _ (.float value) => some value
  | .scalar _ (.integer value) =>
    some (if 0 ≤ value then Number.ofNat value.toNat else -Number.ofNat value.natAbs)
  | _ => none

def list? : Document α → Option (List (Document α))
  | .list items => some items
  | _ => none

def isBlank : Document α → Bool
  | .scalar "" .null => true
  | _ => false

/--
The items of a list. An empty value is an empty list.
-/
def items? : Document α → Option (List (Document α))
  | .list items => some items
  | .tagged (.list items) => some items
  | d => if d.isBlank then some [] else none

/--
The entries of a map. An empty value is an empty map.
-/
def entries? : Document α → Option (List (Document α × Document α))
  | .map entries => some entries
  | .tagged (.map entries) => some entries
  | d => if d.isBlank then some [] else none

mutual

def depth : Document α → Nat
  | .scalar _ _ => 0
  | .list items => depthOfItems items + 1
  | .map entries => depthOfEntries entries + 1
  | .tagged content => depth content

def depthOfItems : List (Document α) → Nat
  | [] => 0
  | d :: rest => max (depth d) (depthOfItems rest)

def depthOfEntries : List (Document α × Document α) → Nat
  | [] => 0
  | (key, value) :: rest => max (max (depth key) (depth value)) (depthOfEntries rest)

end

mutual

/--
Whether all that is in a document is known without further knowledge about its reader: nothing has a
foreign tag, and integers fit 64 bits.
-/
def isTyped : Document α → Bool
  | .scalar _ .foreign => false
  | .scalar _ (.integer value) => -0x8000000000000000 ≤ value && value < wordModulus
  | .scalar _ _ => true
  | .list items => areItemsTyped items
  | .map entries => areEntriesTyped entries
  | .tagged _ => false

def areItemsTyped : List (Document α) → Bool
  | [] => true
  | d :: rest => isTyped d && areItemsTyped rest

def areEntriesTyped : List (Document α × Document α) → Bool
  | [] => true
  | (key, value) :: rest => isTyped key && isTyped value && areEntriesTyped rest

end

end Document

end Waveplan
