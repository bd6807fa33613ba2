import Waveplan.Text.Hidden

/-!
This module contains texts between double quotes, as they stand in lists of names and in the
descriptions of errors.
-/

namespace Waveplan.Text

/--
A character inside double quotes. Quotes, backslashes and the common control characters have
escapes of two characters, other hidden characters are written by their code point.
-/
def quotedChar (c : Char) : String :=
  match c with
  | '"' => "\\\""
  | '\\' => "\\\\"
  | '\n' => "\\n"
  | '\r' => "\\r"
  | '\t' => "\\t"
  | '\x00' => "\\0"
  | c =>
    if isHidden c then
      "\\u\x7b" ++ String.ofList (Nat.toDigits 16 c.toNat) ++ "\x7d"
    else
      c.toString

def quoted (s : String) : String := "\"" ++ String.join (s.toList.map quotedChar) ++ "\""

def quotedList (xs : List String) : String := "[" ++ ", ".intercalate (xs.map quoted) ++ "]"

end Waveplan.Text
