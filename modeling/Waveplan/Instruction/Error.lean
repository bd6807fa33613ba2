import Waveplan.Sample.Type
import Waveplan.Text.Quoted
import Waveplan.Word

/-!
This module contains the reasons why an operation on instructions fails.
-/

namespace Waveplan

inductive InstructionError where
  /-- Instructions that are played together last differently. -/
  | lengthMismatch (expected actual : Nat)
  | indexOutOfBounds (index : Int) (length : Nat)
  | sliceOutOfBounds (index : Int) (length : Nat)
  | unsupportedSliceStep (step : Int)
  | noInstructions
  /-- Channels without names cannot be put side by side. -/
  | anonymousChannel
  | overlappingChannels (channels : List String)
  | incompatibleTypes (left right : SampleType)
  | unsupportedCast (source target : SampleType)
  | notInterpolable (sampleType : SampleType)
  | unknownField (field : String) (sampleType : SampleType)
  | notARecord (sampleType : SampleType)
  | sampleWidth (sampleType : SampleType) (expected actual : Nat)
  | overflow
  deriving DecidableEq, Repr

instance : HasOverflow InstructionError := ⟨.overflow⟩

def InstructionError.message : InstructionError → String
  | .lengthMismatch expected actual =>
    s!"instructions must have the same length (got {expected} and {actual})"
  | .indexOutOfBounds index length => s!"index {index} is out of bounds for length {length}"
  | .sliceOutOfBounds index length => s!"slice index {index} is out of bounds for length {length}"
  | .unsupportedSliceStep step =>
    s!"slices with step {step} are not supported, only unit steps are"
  | .noInstructions => "at least one instruction must be provided"
  | .anonymousChannel => "instruction must have at least one named channel"
  | .overlappingChannels channels =>
    "channels " ++ Text.quotedList channels ++ " are present in both instructions"
  | .incompatibleTypes left right =>
    "dtypes " ++ left.text ++ " and " ++ right.text ++ " have no common type"
  | .unsupportedCast source target =>
    "cannot cast instruction of dtype " ++ source.text ++ " to " ++ target.text
  | .notInterpolable t => "ramps can only hold floating point values, not " ++ t.text
  | .unknownField field t => s!"field '{field}' does not exist in dtype " ++ t.text
  | .notARecord t => "dtype " ++ t.text ++ " has no named fields"
  | .sampleWidth t expected actual =>
    s!"sample has {actual} values while dtype " ++ t.text ++ s!" expects {expected}"
  | .overflow => Word.overflowMessage

end Waveplan
