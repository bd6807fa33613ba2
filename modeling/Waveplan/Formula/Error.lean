import Waveplan.Text.Quoted

/-!
This module contains the reasons why a text is no formula.
-/

namespace Waveplan.Formula

inductive ParseError where
  | tooLong
  | tooDeep
  | unparsed (rest : String)
  /-- The text ends inside of something. -/
  | unfinished (what : String)
  | invalidValue
  | invalidNumber (text : String)
  | expected (what : String)
  | wrongArguments (text : String)
  deriving DecidableEq, Repr

def ParseError.message : ParseError → String
  | .tooLong => "TooLong"
  | .tooDeep => "TooDeep"
  | .unparsed rest => "UnparsedTokensRemaining(" ++ Text.quoted rest ++ ")"
  | .unfinished what => "EofWhileParsing(" ++ Text.quoted what ++ ")"
  | .invalidValue => "InvalidValue"
  | .invalidNumber text => "ParseF64(" ++ Text.quoted text ++ ")"
  | .expected what => "Expected(" ++ Text.quoted what ++ ")"
  | .wrongArguments text => "WrongArgs(" ++ Text.quoted text ++ ")"

end Waveplan.Formula
