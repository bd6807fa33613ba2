import Waveplan.Document.Basic

/-!
This module contains documents as JSON texts, with one item or entry to a line.
-/

namespace Waveplan.Json

/--
A character of a text in JSON. Only quotes, backslashes and control characters are escaped.
-/
def escapedChar (c : Char) : String :=
  match c with
  | '"' => "\\\""
  | '\\' => "\\\\"
  | '\x08' => "\\b"
  | '\x0c' => "\\f"
  | '\n' => "\\n"
  | '\r' => "\\r"
  | '\t' => "\\t"
  | c =>
    if c.toNat < 0x20 then
      "\\u00" ++ (if c.toNat < 0x10 then "0" else "") ++ String.ofList (Nat.toDigits 16 c.toNat)
    else
      c.toString

def quoted (s : String) : String := "\"" ++ String.join (s.toList.map escapedChar) ++ "\""

/--
The beginning of a line that is indented by two spaces for each level.
-/
def newLine (level : Nat) : String := "\n" ++ String.ofList (List.replicate (2 * level) ' ')

/--
Lines between two brackets, one level deeper than the brackets.
-/
def bracketed (opening closing : String) (level : Nat) (lines : List String) : String :=
  if lines.isEmpty then opening ++ closing
  else
    opening ++ newLine (level + 1) ++ (("," ++ newLine (level + 1)).intercalate lines)
      ++ newLine level ++ closing

variable {α : Type}

mutual

/--
A document as a JSON text inside of `level` others. The text of floats is given by a function.
-/
def pretty (floatText : α → String) (level : Nat) : Document α → String
  | .scalar written datum =>
    match datum with
    | .null => "null"
    | .bool value => toString value
    | .integer value => toString value
    | .float value => floatText value
    | .text | .foreign => quoted written
  | .list items => bracketed "[" "]" level (prettyItems floatText (level + 1) items)
  | .map entries =>
    bracketed "\x7b" "\x7d" level (prettyEntries floatText (level + 1) entries)
  | .tagged content => pretty floatText level content

def prettyItems (floatText : α → String) (level : Nat) : List (Document α) → List String
  | [] => []
  | d :: rest => pretty floatText level d :: prettyItems floatText level rest

def prettyEntries (floatText : α → String) (level : Nat) :
    List (Document α × Document α) → List String
  | [] => []
  | (key, value) :: rest =>
    (pretty floatText level key ++ ": " ++ pretty floatText level value)
      :: prettyEntries floatText level rest

end

end Waveplan.Json
