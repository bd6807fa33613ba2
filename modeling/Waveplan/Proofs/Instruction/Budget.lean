import Mathlib.Logic.Relation
import Waveplan.Proofs.Instruction.Calls
import Waveplan.Proofs.Instruction.Columns

/-!
This module contains that stacking comes to an end. The budget of `stack` is never used up, so that
nothing is written out which has a common structure, and nothing fails but the check of the operands
that comes before all calls.
-/

namespace Waveplan.Instruction

open SampleType (AreDisjoint)

variable {α : Type} [Number α] {a b : Instruction α}

section Budget

theorem stackWithin_eq_of_isEmpty (h : a.length = 0) (m n : Nat) :
    stackWithin m a b = stackWithin n a b := by
  unfold stackWithin
  simp only [h, if_true]

theorem stackWithin_eq {m n : Nat} (ha : a.Normal) (hb : b.Normal) (hm : callsToStack a b ≤ m)
    (hn : callsToStack a b ≤ n) : stackWithin m a b = stackWithin n a b := by
  induction m generalizing n a b with
  | zero =>
    have := le_callsToStack a b
    exact stackWithin_eq_of_isEmpty (by omega) _ _
  | succ m ih =>
    by_cases h₀ : a.length = 0
    . exact stackWithin_eq_of_isEmpty h₀ _ _
    . have hle := le_callsToStack a b
      obtain ⟨n, rfl⟩ := Nat.exists_eq_add_of_lt (show 0 < n by omega)
      rw [Nat.zero_add] at hn ⊢
      rw [stackWithin_succ, stackWithin_succ]
      apply stackStep_congr ha hb
      intro c hc
      have hlt := hc.callsToStack_lt
      exact ih hc.left.normal hc.right.normal (by omega) (by omega)

/--
No budget beyond that of `stack` makes a difference.
-/
theorem stackWithin_eq_stack {budget : Nat} (ha : a.Normal) (hb : b.Normal)
    (h : 2 * a.length < budget) : stackWithin budget a b = stack a b := by
  have := callsToStack_le a b
  exact stackWithin_eq ha hb (by omega) this

/--
The budget is invisible: stacking is one step that stacks the operands of its calls.
-/
theorem stack_eq_stackStep (ha : a.Normal) (hb : b.Normal) :
    stack a b = stackStep stack a b := by
  rw [stack, stackWithin_succ]
  apply stackStep_congr ha hb
  intro c hc
  have hlt := hc.callsToStack_lt
  have hle := callsToStack_le a b
  exact stackWithin_eq hc.left.normal hc.right.normal (by omega) (callsToStack_le _ _)

end Budget

section Recursion

/--
That the operands `c` are stacked in a call that is made when the operands `d` are stacked. No call
is made for operands that do not fit together, nor for empty ones.
-/
def IsCall (c d : Instruction α × Instruction α) : Prop :=
  (∃ t, stackedType d.1 d.2 = .ok t) ∧ d.1.length ≠ 0 ∧ c ∈ calls d.1 d.2

variable {c d : Instruction α × Instruction α}

theorem IsCall.isSubproblem (h : IsCall c d) (ha : d.1.Normal) (hb : d.2.Normal) :
    IsSubproblem d.1 d.2 c := by
  obtain ⟨⟨t, ht⟩, h₀, hc⟩ := h
  exact isSubproblem_of_mem_calls ha hb (stackedType_eq_ok_iff.mp ht).1 h₀ c hc

theorem acc_isCall (ha : d.1.Normal) (hb : d.2.Normal) : Acc IsCall d := by
  induction hn : callsToStack d.1 d.2 using Nat.strong_induction_on generalizing d with
  | _ n ih =>
    refine ⟨_, fun c hc => ?_⟩
    have h := hc.isSubproblem ha hb
    exact ih _ (hn ▸ h.callsToStack_lt) h.left.normal h.right.normal rfl

theorem normal_of_isCall (h : Relation.ReflTransGen IsCall c d) (ha : d.1.Normal)
    (hb : d.2.Normal) : c.1.Normal ∧ c.2.Normal := by
  induction h using Relation.ReflTransGen.head_induction_on with
  | refl => exact ⟨ha, hb⟩
  | head h _ ih =>
    have h := h.isSubproblem ih.1 ih.2
    exact ⟨h.left.normal, h.right.normal⟩

theorem exists_stack_iff_stackedType (ha : a.Normal) (hb : b.Normal) :
    (∃ y, stack a b = .ok y) ↔ ∃ t, stackedType a b = .ok t := by
  simp only [stackedType_eq_ok_iff]
  constructor
  . rintro ⟨y, hy⟩
    obtain ⟨hl, t, ht⟩ := stack_ok hy
    exact ⟨t, hl, ht⟩
  . rintro ⟨t, hl, ht⟩
    obtain ⟨y, hy, _⟩ := exists_stack ha hb hl ht
    exact ⟨y, hy⟩

theorem stack_eq_error {e : InstructionError} (ha : a.Normal) (hb : b.Normal)
    (h : stackedType a b = .error e) : stack a b = .error e := by
  rw [stack_eq_stackStep ha hb, stackStep, h]
  rfl

/--
What a call is made with fits together, as what the call is made for does.
-/
theorem IsCall.exists_stack (h : IsCall c d) (ha : d.1.Normal) (hb : d.2.Normal) :
    ∃ y, stack c.1 c.2 = .ok y := by
  have hc := h.isSubproblem ha hb
  obtain ⟨⟨t, ht⟩, _⟩ := h
  apply (exists_stack_iff_stackedType hc.left.normal hc.right.normal).mpr
  refine ⟨t, stackedType_eq_ok_iff.mpr ⟨hc.length, ?_⟩⟩
  rw [hc.left.sampleType, hc.right.sampleType]
  exact (stackedType_eq_ok_iff.mp ht).2

end Recursion

/--
Stacking comes to an end, and the operands alone decide about its success.
-/
structure IsDecidedAtOnce (a b : Instruction α) : Prop where
  exists_stack_iff : (∃ y, stack a b = .ok y) ↔ a.length = b.length
    ∧ ∃ l r, a.sampleType = .record l ∧ b.sampleType = .record r ∧ AreDisjoint l r
  lengthMismatch : a.length ≠ b.length → stack a b = .error (.lengthMismatch a.length b.length)
  anonymousChannel : a.length = b.length →
    (∃ kind, a.sampleType = .scalar kind ∨ b.sampleType = .scalar kind) →
    stack a b = .error .anonymousChannel
  /-- The names that are used twice are listed in the order of `a`. -/
  overlappingChannels {l r : List Field} : a.length = b.length → a.sampleType = .record l →
    b.sampleType = .record r → ¬AreDisjoint l r →
    stack a b
      = .error (.overlappingChannels ((l.map Field.name).filter (· ∈ r.map Field.name)))
  terminates : Acc IsCall (a, b)
  /-- In every call, however deep, the recursion goes on without any bound. -/
  recursion (c : Instruction α × Instruction α) : Relation.ReflTransGen IsCall c (a, b) →
    stack c.1 c.2 = stackStep stack c.1 c.2
  /-- No call fails, however deep. -/
  calls_ok (c : Instruction α × Instruction α) : Relation.TransGen IsCall c (a, b) →
    ∃ y, stack c.1 c.2 = .ok y
  /-- Repetitions whose common period is the whole length make a call as long as they are. -/
  length_call {m n : Nat} {x z : Instruction α} : a = repeated m x → b = repeated n z →
    x.length.lcm z.length = a.length → ∀ c, IsCall c (a, b) →
    c.1.length = a.length ∧ c.2.length = b.length

theorem length_eq_of_isCall {m n : Nat} {x z : Instruction α} {c : Instruction α × Instruction α}
    (hp : x.length.lcm z.length = (repeated m x).length)
    (h : IsCall c (repeated m x, repeated n z)) :
    c.1.length = (repeated m x).length ∧ c.2.length = (repeated n z).length := by
  obtain ⟨⟨t, ht⟩, _, hc⟩ := h
  have hl := (stackedType_eq_ok_iff.mp ht).1
  rw [calls, if_pos hp, List.mem_singleton] at hc
  rw [hc, ← hl, length_tile, length_tile, Nat.div_mul_cancel (Nat.dvd_lcm_left _ _),
    Nat.div_mul_cancel (Nat.dvd_lcm_right _ _), hp]
  exact ⟨rfl, rfl⟩

theorem isDecidedAtOnce_stack (ha : a.Normal) (hb : b.Normal) : IsDecidedAtOnce a b where
  exists_stack_iff := by
    rw [exists_stack_iff_stackedType ha hb]
    simp only [stackedType_eq_ok_iff, SampleType.merge_eq_ok_iff]
    constructor
    . rintro ⟨_, hl, l, r, hta, htb, hd, _⟩
      exact ⟨hl, l, r, hta, htb, hd⟩
    . rintro ⟨hl, l, r, hta, htb, hd⟩
      exact ⟨_, hl, l, r, hta, htb, hd, rfl⟩
  lengthMismatch hl := stack_eq_error ha hb (if_pos hl)
  anonymousChannel hl h := by
    apply stack_eq_error ha hb
    rw [stackedType, if_neg (not_not.mpr hl)]
    obtain ⟨kind, ht | ht⟩ := h
    . rw [ht]
      rfl
    . rw [ht]
      cases a.sampleType <;> rfl
  overlappingChannels hl hta htb hd := by
    apply stack_eq_error ha hb
    rw [stackedType, if_neg (not_not.mpr hl), hta, htb, SampleType.merge_record_of_not_disjoint hd]
  terminates := acc_isCall ha hb
  recursion c h := by
    obtain ⟨hx, hz⟩ := normal_of_isCall h ha hb
    exact stack_eq_stackStep hx hz
  calls_ok c h := by
    obtain ⟨d, hc, hd⟩ := Relation.TransGen.head'_iff.mp h
    obtain ⟨hx, hz⟩ := normal_of_isCall hd ha hb
    exact hc.exists_stack hx hz
  length_call := by
    rintro m n x z rfl rfl hp c hc
    exact length_eq_of_isCall hp hc

/--
A switch that is on at every other tick.
-/
def blinkingChannel : Instruction Float :=
  repeated 3 (pattern ⟨.named "switch" .bool, [.bool [true, false]], 2⟩)

/--
A voltage that rises twice.
-/
def sawtoothChannel : Instruction Float :=
  repeated 2 (ramp ⟨.named "voltage" .float, [0], [3], 3⟩)

/--
Six ticks are the common period of two ticks and three, so that the copies are as long as the whole.
-/
theorem isDecidedAtOnce_blinking_sawtooth :
    (∃ y, stack blinkingChannel sawtoothChannel = .ok y)
      ∧ (∀ c, IsCall c (blinkingChannel, sawtoothChannel) → c.1.length = 6)
      ∧ stack blinkingChannel blinkingChannel = .error (.overlappingChannels ["switch"]) := by
  have hs : blinkingChannel.Normal := normal_repeated.mpr ⟨by decide, by decide, by simp,
    normal_pattern.mpr ⟨rfl, by simp [Column.length]⟩⟩
  have hv : sawtoothChannel.Normal := normal_repeated.mpr ⟨by decide, by decide, by simp,
    normal_ramp.mpr ⟨⟨rfl, rfl, rfl⟩, by decide⟩⟩
  have h := isDecidedAtOnce_stack hs hv
  refine ⟨h.exists_stack_iff.mpr ⟨rfl, _, _, rfl, rfl, by simp [AreDisjoint]⟩, fun c hc => ?_, ?_⟩
  . exact (h.length_call rfl rfl rfl c hc).1
  . exact (isDecidedAtOnce_stack hs hs).overlappingChannels rfl rfl rfl (by simp [AreDisjoint])

end Waveplan.Instruction
