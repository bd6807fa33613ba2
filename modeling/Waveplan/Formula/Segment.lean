import Waveplan.Formula.Term

/-!
This module contains operands that are joined by operators, and how they are grouped: the operators
of the loosest level are applied last.
-/

namespace Waveplan.Formula

structure Segment (β : Type) where
  first : β
  rest : List (Operator × β)

namespace Segment

variable {β : Type}

/--
Put an operand and the operator behind it before the others.
-/
def cons (x : β) (op : Operator) (s : Segment β) : Segment β := ⟨x, (op, s.first) :: s.rest⟩

def split (level : Level) (first : β) :
    List (Operator × β) → Segment β × List (Operator × Segment β)
  | [] => (⟨first, []⟩, [])
  | (op, x) :: rest =>
    let (segment, others) := split level x rest
    if op.level = level then (⟨first, []⟩, (op, segment) :: others)
    else (segment.cons first op, others)

/--
Join the operands of a segment level by level, the first level last. `joinLevel` joins operands by
the operators of one level.
-/
def join (joinLevel : Level → β → List (Operator × β) → β) : List Level → Segment β → β
  | [], s => s.first
  | level :: tighter, s =>
    match split level s.first s.rest with
    | (s, []) => s.join joinLevel tighter
    | (s, others) =>
      joinLevel level (s.join joinLevel tighter)
        (others.map fun (op, s) => (op, s.join joinLevel tighter))

end Segment

end Waveplan.Formula
