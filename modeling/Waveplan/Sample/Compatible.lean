import Waveplan.Instruction.Error

/-!
This module contains which sample types fit together: as channels side by side (`merge`), one after
the other (`promote`), and as a conversion of the same channels (`checkCast`).
-/

namespace Waveplan.SampleType

/--
The first name that a channel shares with an earlier one.
-/
def firstDuplicate : List Field → List Field → Option String
  | _, [] => none
  | earlier, f :: rest =>
    if earlier.any (·.name = f.name) then some f.name else firstDuplicate (earlier ++ [f]) rest

/--
The type of channels whose names all differ.
-/
def unique (fields : List Field) : Except InstructionError SampleType :=
  match firstDuplicate [] fields with
  | some name => .error (.overlappingChannels [name])
  | none => .ok (.record fields)

/--
The position of the first channel with a name.
-/
def fieldIndex (t : SampleType) (name : String) : Except InstructionError Nat :=
  match t with
  | .scalar _ => .error (.notARecord t)
  | .record fields =>
    match fields.findIdx? (·.name = name) with
    | some i => .ok i
    | none => .error (.unknownField name t)

/--
The position of a channel, and the type with that channel alone.
-/
def project (t : SampleType) (name : String) : Except InstructionError (Nat × SampleType) := do
  let index ← t.fieldIndex name
  match t with
  | .scalar _ => .error (.notARecord t)
  | .record fields => .ok (index, .record (fields[index]?.toList))

def overlap (left right : List Field) : List String :=
  (left.filter fun l => right.any (·.name = l.name)).map Field.name

/--
The channels of both types, the left ones first.
-/
def merge (left right : SampleType) : Except InstructionError SampleType :=
  match left, right with
  | .record l, .record r =>
    match overlap l r with
    | [] => .ok (.record (l ++ r))
    | shared => .error (.overlappingChannels shared)
  | _, _ => .error .anonymousChannel

/--
The type that can hold the samples of both types.
-/
def promote (left right : SampleType) : Except InstructionError SampleType :=
  match left, right with
  | .scalar a, .scalar b => .ok (.scalar (a.promote b))
  | .record l, .record r =>
    if l.map Field.name = r.map Field.name then
      .ok (.record (List.zipWith (fun x y => ⟨x.name, x.kind.promote y.kind⟩) l r))
    else
      .error (.incompatibleTypes left right)
  | _, _ => .error (.incompatibleTypes left right)

/--
Samples can be cast channel by channel to any type with as many channels.
-/
def checkCast (source target : SampleType) : Except InstructionError Unit :=
  if source.width = target.width then .ok () else .error (.unsupportedCast source target)

theorem checkCast_eq_ok_iff {source target : SampleType} :
    source.checkCast target = .ok () ↔ source.width = target.width := by
  unfold checkCast
  split <;> simp_all

end Waveplan.SampleType
