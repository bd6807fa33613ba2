import Waveplan.Instruction.Basic

/-!
This module contains the normal form of instructions. Nothing in a tree in normal form is there in
vain: every node has ticks, a concatenation has parts that cannot be drawn together, and a
repetition repeats something else than a repetition.
-/

namespace Waveplan

variable {α : Type}

/--
A pattern has one column per channel, of the kind of the channel and as long as the pattern.
-/
structure Pattern.WellFormed (p : Pattern α) : Prop where
  kinds : p.columns.map Column.kind = p.sampleType.kinds
  lengths : ∀ c ∈ p.columns, c.length = p.length

/--
A ramp has one value per channel at each end, and all its channels are floats.
-/
structure Ramp.WellFormed (r : Ramp α) : Prop where
  isInterpolable : r.sampleType.isInterpolable = true
  start : r.start.length = r.sampleType.width
  stop : r.stop.length = r.sampleType.width

namespace Instruction

def ArePatternsApart : List (Instruction α) → Prop
  | pattern _ :: pattern _ :: _ => False
  | _ :: rest => ArePatternsApart rest
  | [] => True

mutual

/--
An instruction in normal form. The instruction without ticks is an empty pattern.
-/
def Normal : Instruction α → Prop
  | pattern p => p.WellFormed
  | ramp r => r.WellFormed ∧ 0 < r.length
  | concatenated parts =>
    2 ≤ parts.length ∧ ArePatternsApart parts ∧ AreParts (headType parts) parts
  | repeated n body => 2 ≤ n ∧ 0 < body.length ∧ (∀ m x, body ≠ repeated m x) ∧ body.Normal

/--
What can be a part of a concatenation of samples of type `t`.
-/
def AreParts (t : SampleType) : List (Instruction α) → Prop
  | [] => True
  | x :: xs =>
    x.Normal ∧ 0 < x.length ∧ x.sampleType = t ∧ (∀ ys, x ≠ concatenated ys) ∧ AreParts t xs

end

theorem normal_empty (t : SampleType) : (pattern (.empty t) : Instruction α).Normal where
  kinds := by
    have h : (Column.kind (α := α)) ∘ Column.empty = id := funext Column.kind_empty
    rw [Pattern.empty, List.map_map, h, List.map_id]
  lengths c hc := by
    obtain ⟨k, _, rfl⟩ := List.mem_map.mp hc
    exact Column.length_empty k

end Instruction

end Waveplan
