import Waveplan.Text.Digit
import Waveplan.Yaml.Character

/-!
This module contains tags, the names of kinds of values, and the directives in front of a document,
of which one shortens tags.
-/

namespace Waveplan.Yaml

/--
A tag as it is written. The handle stands for the first part of the name.
-/
structure Tag where
  handle : List Char
  suffix : List Char
  deriving DecidableEq, Repr

inductive Directive where
  | version (major minor : Nat)
  /-- A handle and what it stands for. -/
  | tagHandle (handle stem : List Char)
  deriving DecidableEq, Repr

/--
The characters of the names of tags. Commas and brackets belong to them only where a name cannot
stand in a flow collection.
-/
def isTagChar (isWhole : Bool) (c : Char) : Bool :=
  isNameChar c || ";/?:@&=+$.%!~*'()".toList.contains c || (isWhole && ",[]".toList.contains c)

/--
Replace the codes of characters after percent signs. Codes beyond one byte stay, since no known tag
has any.
-/
def decodePercent : List Char → Option (List Char)
  | '%' :: high :: low :: rest =>
    match Text.digitValue? high, Text.digitValue? low with
    | some h, some l =>
      let code := 16 * h + l
      (decodePercent rest).map fun more =>
        if code < 0x80 then Char.ofNat code :: more else '%' :: high :: low :: more
    | _, _ => none
  | '%' :: _ => none
  | c :: rest => (decodePercent rest).map (c :: ·)
  | [] => some []

/--
The characters at the beginning of a text that belong to the name of a tag.
-/
def tagName? (isWhole : Bool) (cs : List Char) : Option (List Char) :=
  decodePercent (cs.takeWhile (isTagChar isWhole))

def afterTagName (isWhole : Bool) (cs : List Char) : List Char := cs.dropWhile (isTagChar isWhole)

/--
A handle: an exclamation mark that stands alone, or two with letters or nothing between them.
-/
def handle? (cs : List Char) : Option (List Char × List Char) :=
  match cs with
  | '!' :: rest =>
    let letters := rest.takeWhile isNameChar
    match rest.dropWhile isNameChar with
    | '!' :: after => some ('!' :: letters ++ ['!'], after)
    | after => if letters = [] then some (['!'], after) else none
  | _ => none

namespace Tag

/--
The tag that a text begins with, and the text behind it.
-/
def read (cs : List Char) : Option (Tag × List Char) :=
  match cs with
  | '!' :: '<' :: body => do
    let name ← tagName? true body
    match name, afterTagName true body with
    | _ :: _, '>' :: rest => some (⟨[], name⟩, rest)
    | _, _ => none
  | '!' :: body =>
    match handle? cs with
    | some (handle@(_ :: _ :: _), after) => do
      let suffix ← tagName? false after
      if suffix = [] then none else some (⟨handle, suffix⟩, afterTagName false after)
    | _ => do
      let suffix ← tagName? false body
      let tag : Tag := if suffix = [] then ⟨[], ['!']⟩ else ⟨['!'], suffix⟩
      some (tag, afterTagName false body)
  | _ => none

/--
What the handles stand for that need no directive.
-/
def defaultHandles : List (List Char × List Char) :=
  [(['!'], ['!']), (['!', '!'], "tag:yaml.org,2002:".toList)]

def name? (t : Tag) (handles : List (List Char × List Char)) : Option (List Char) :=
  if t.handle = [] then some t.suffix
  else ((handles ++ defaultHandles).lookup t.handle).map (· ++ t.suffix)

end Tag

namespace Directive

/--
The text behind blank characters and a comment, if they end a line.
-/
def afterLine? (cs : List Char) : Option (List Char) :=
  let spaced := cs.dropWhile isSpace
  match if spaced.head? = some '#' then spaced.dropWhile fun c => !isBreak c else spaced with
  | [] => some []
  | c :: rest => if isBreak c then some rest else none

/--
A number of a version, which has at most nine digits.
-/
def number? (cs : List Char) : Option (Nat × List Char) :=
  let digits := cs.takeWhile Char.isDigit
  if digits = [] ∨ 9 < digits.length then none
  else
    some (digits.foldl (fun n c => 10 * n + (c.toNat - '0'.toNat)) 0, cs.dropWhile Char.isDigit)

def read (cs : List Char) : Option (Directive × List Char) :=
  match cs with
  | '%' :: body => do
    let name := body.takeWhile isNameChar
    let rest := body.dropWhile isNameChar
    if !isGapNext rest then none
    else if name = "YAML".toList then
      let (major, rest) ← number? (rest.dropWhile isSpace)
      match rest with
      | '.' :: rest =>
        let (minor, rest) ← number? rest
        let rest ← afterLine? rest
        some (.version major minor, rest)
      | _ => none
    else if name = "TAG".toList then
      let (handle, rest) ← handle? (rest.dropWhile isSpace)
      if rest.head?.all fun c => !isSpace c then none
      else
        let rest := rest.dropWhile isSpace
        let stem ← tagName? true rest
        let rest := afterTagName true rest
        if stem = [] ∨ !isGapNext rest then none
        else
          let rest ← afterLine? rest
          some (.tagHandle handle stem, rest)
    else
      none
  | _ => none

end Directive

end Waveplan.Yaml
