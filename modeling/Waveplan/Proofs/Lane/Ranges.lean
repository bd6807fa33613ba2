import Mathlib.Data.List.Chain
import Mathlib.Data.List.GetD
import Waveplan.Formula.Kernel
import Waveplan.Proofs.Lane.Waveform

/-!
This module contains that the blocks of a lane that has been accepted cover the steps of the shot,
each of them once, so that nothing is looked up behind the end of the shot. Lanes whose spans do not
add up to a machine word are not accepted: the sum ends the program.
-/

namespace Waveplan

namespace Block

variable {β : Type}

/--
That ranges cover the steps from `start` up to but not including `stop`, one range after the other.
-/
structure CoversSteps (ranges : List (Nat × Nat)) (start stop : Nat) : Prop where
  consecutive : ranges.IsChain fun r s => r.2 = s.1
  first : ∀ r ∈ ranges.head?, r.1 = start
  last : ∀ r ∈ ranges.getLast?, r.2 = stop
  eq_of_nil : ranges = [] → start = stop
  nonempty : ∀ r ∈ ranges, r.1 < r.2
  stop_le : ∀ r ∈ ranges, r.2 ≤ stop

theorem coversSteps_nil (start : Nat) : CoversSteps [] start start where
  consecutive := .nil
  first := by simp
  last := by simp
  eq_of_nil _ := rfl
  nonempty := by simp
  stop_le := by simp

theorem CoversSteps.le {ranges : List (Nat × Nat)} {start stop : Nat}
    (h : CoversSteps ranges start stop) : start ≤ stop := by
  cases ranges with
  | nil => exact Nat.le_of_eq (h.eq_of_nil rfl)
  | cons r ranges =>
    have hstart := h.first r rfl
    have hlt := h.nonempty r List.mem_cons_self
    have hle := h.stop_le r List.mem_cons_self
    omega

theorem CoversSteps.cons {ranges : List (Nat × Nat)} {start middle stop : Nat}
    (hlt : start < middle) (h : CoversSteps ranges middle stop) :
    CoversSteps ((start, middle) :: ranges) start stop where
  consecutive := h.consecutive.cons fun r hr => (h.first r hr).symm
  first := by simp
  last := by
    cases ranges with
    | nil => simp [h.eq_of_nil rfl]
    | cons r ranges =>
      rw [List.getLast?_cons_cons]
      exact h.last
  eq_of_nil := by simp
  nonempty := List.forall_mem_cons.mpr ⟨hlt, h.nonempty⟩
  stop_le := List.forall_mem_cons.mpr ⟨h.le, h.stop_le⟩

theorem toNat_pos_of_ne_zero {span : UInt64} (h : span ≠ 0) : 0 < span.toNat :=
  Nat.pos_of_ne_zero fun h₀ => h (UInt64.toNat_inj.mp h₀)

theorem coversSteps_rangesFrom {start : Nat} {blocks : List (Block β)}
    (hspans : ∀ b ∈ blocks, b.span ≠ 0) :
    CoversSteps (rangesFrom start blocks) start (start + totalSpan blocks) := by
  induction blocks generalizing start with
  | nil => exact coversSteps_nil _
  | cons b blocks ih =>
    obtain ⟨hb, hspans⟩ := List.forall_mem_cons.mp hspans
    rw [totalSpan_cons, ← Nat.add_assoc]
    exact (ih hspans).cons (Nat.lt_add_of_pos_right (toNat_pos_of_ne_zero hb))

/--
Blocks that have been accepted cover the steps.
-/
theorem coversSteps_ranges {α : Type} {lane : String} {blocks : List (Block β)} {steps : Nat}
    (h : checkSpan (α := α) lane blocks steps = .ok ()) : CoversSteps (ranges blocks) 0 steps := by
  obtain ⟨hspans, _, rfl⟩ := checkSpan_eq_ok_iff.mp h
  rw [← Nat.zero_add (totalSpan blocks)]
  exact coversSteps_rangesFrom hspans

/--
The remainders of ranges modulo the machine words, which is what sums that wrap around would give.
-/
def wrapped (ranges : List (Nat × Nat)) : List (Nat × Nat) :=
  ranges.map fun range => (range.1 % wordModulus, range.2 % wordModulus)

/--
Spans that do not add up to a machine word are seen from a block that, modulo the words, ends before
it begins.
-/
theorem lt_of_wrapped_nonempty {start : Nat} {blocks : List (Block β)} (hs : start < wordModulus)
    (h : ∀ r ∈ wrapped (rangesFrom start blocks), r.1 < r.2) :
    start + totalSpan blocks < wordModulus := by
  induction blocks generalizing start with
  | nil => simpa [totalSpan] using hs
  | cons b blocks ih =>
    rw [rangesFrom, wrapped, List.map_cons, List.forall_mem_cons] at h
    have hlt := h.1
    have hspan : b.span.toNat < wordModulus := b.span.toNat_lt
    dsimp only at hlt
    rw [Nat.mod_eq_of_lt hs] at hlt
    have hadd : start + b.span.toNat < wordModulus := by
      by_contra hge
      rw [Nat.mod_eq_sub_mod (Nat.le_of_not_lt hge), Nat.mod_eq_of_lt (by omega)] at hlt
      omega
    rw [totalSpan_cons, ← Nat.add_assoc]
    exact ih hadd h.2

theorem wrapped_eq_self {ranges : List (Nat × Nat)} {start stop : Nat}
    (h : CoversSteps ranges start stop) (hs : stop < wordModulus) : wrapped ranges = ranges := by
  rw [wrapped, List.map_congr_left, List.map_id]
  intro range hr
  have hlt := h.nonempty range hr
  have hle := h.stop_le range hr
  rw [Nat.mod_eq_of_lt (by omega), Nat.mod_eq_of_lt (by omega)]
  rfl

/--
If sums wrapped around, blocks that pass the check of their steps would cover the steps just in case
their spans add up to a machine word.
-/
theorem coversSteps_wrapped_iff {blocks : List (Block β)} {steps : Nat}
    (hspans : ∀ b ∈ blocks, b.span ≠ 0) (hs : totalSpan blocks % wordModulus = steps) :
    CoversSteps (wrapped (ranges blocks)) 0 steps ↔ totalSpan blocks < wordModulus := by
  constructor
  . intro h
    rw [← Nat.zero_add (totalSpan blocks)]
    exact lt_of_wrapped_nonempty (by decide) h.nonempty
  . intro hlt
    have hcovers : CoversSteps (rangesFrom 0 blocks) 0 (0 + totalSpan blocks) :=
      coversSteps_rangesFrom hspans
    rw [Nat.zero_add] at hcovers
    rw [Nat.mod_eq_of_lt hlt] at hs
    rwa [ranges, wrapped_eq_self hcovers hlt, ← hs]

end Block

namespace StepTimes

variable {α : Type}

/--
Times with more bounds behind the end of the shot.
-/
def extend (t : StepTimes α) (more : List α) : StepTimes α := { t with bounds := t.bounds ++ more }

/--
That a range of steps has its bounds.
-/
def HasBounds (t : StepTimes α) (range : Nat × Nat) : Prop :=
  range.1 < t.bounds.length ∧ range.2 < t.bounds.length

theorem bound_extend [Number α] {t : StepTimes α} {i : Nat} (h : i < t.bounds.length)
    (more : List α) : (t.extend more).bound i = t.bound i :=
  List.getD_append _ _ _ _ h

end StepTimes

section Compilers

variable {α : Type} [Number α] {t : StepTimes α} {lane : String} {scope : Namespace α}
  {step : TimeStep}

theorem CameraLane.trigger_extend {blocks : List (Block (Option Picture))}
    (h : ∀ range ∈ Block.ranges blocks, t.HasBounds range) (more : List α) :
    trigger lane blocks (t.extend more) step = trigger lane blocks t step := by
  have hsize : (t.extend more).size = t.size := rfl
  rw [trigger, trigger, hsize]
  refine bind_congr fun _ => congrArg (· >>= joinBlocks .bool) (Outcome.mapM_congr ?_)
  rintro ⟨block, start, stop⟩ hm
  obtain ⟨hstart, hstop⟩ := h _ (List.of_mem_zip hm).2
  dsimp only
  rw [StepTimes.bound_extend hstart, StepTimes.bound_extend hstop]
  rfl

theorem CameraLane.exposures_append {blocks : List (Block (Option Picture))}
    (h : ∀ range ∈ Block.ranges blocks, range.2 ≤ t.durations.length) (more : List α) :
    exposures blocks { t with durations := t.durations ++ more } = exposures blocks t := by
  apply List.filterMap_congr
  rintro ⟨block, start, stop⟩ hm
  dsimp only
  rw [List.take_append_of_le_length (h _ (List.of_mem_zip hm).2)]

variable [Kernel α]

theorem DigitalLane.level_extend (start : Nat) (value : DigitalValue) (more : List α) :
    level lane (t.extend more) scope start value = level lane t scope start value := by
  have hname : (t.extend more).name start = t.name start := rfl
  unfold level
  rw [hname]

theorem DigitalLane.compile_extend {blocks : List (Block DigitalValue)}
    (h : ∀ range ∈ Block.ranges blocks, t.HasBounds range) (more : List α) :
    compile lane blocks (t.extend more) scope step = compile lane blocks t scope step := by
  have hsize : (t.extend more).size = t.size := rfl
  rw [compile, compile, hsize]
  refine bind_congr fun _ => congrArg (· >>= joinBlocks .bool) (Outcome.mapM_congr ?_)
  rintro ⟨block, start, stop⟩ hm
  obtain ⟨hstart, hstop⟩ := h _ (List.of_mem_zip hm).2
  dsimp only
  rw [StepTimes.bound_extend hstart, StepTimes.bound_extend hstop, level_extend]

namespace AnalogLane

variable {c : Context α} {start stop : Nat}

/--
The same lane with more bounds behind the end of the shot.
-/
def Context.extend (c : Context α) (more : List α) : Context α :=
  { c with times := c.times.extend more }

theorem Context.expression_extend {e : Expression} (h : c.times.HasBounds (start, stop))
    (more : List α) : (c.extend more).expression start stop e = c.expression start stop e := by
  obtain ⟨hstart, hstop⟩ := h
  unfold expression
  rw [extend]
  dsimp only
  rw [StepTimes.bound_extend hstart, StepTimes.bound_extend hstop]
  rfl

theorem Context.ramp_extend {previousStart : Nat} {previous next : Expression}
    (hprevious : previousStart < c.times.bounds.length) (h : c.times.HasBounds (start, stop))
    (more : List α) : (c.extend more).ramp previousStart start stop previous next
      = c.ramp previousStart start stop previous next := by
  obtain ⟨hstart, hstop⟩ := h
  unfold ramp
  rw [extend]
  dsimp only
  rw [StepTimes.bound_extend hprevious, StepTimes.bound_extend hstart,
    StepTimes.bound_extend hstop]
  rfl

theorem Context.blocks_extend {previous : Option (AnalogValue × Nat)}
    {values : List (AnalogValue × Nat × Nat)}
    (hprevious : ∀ v ∈ previous, v.2 < c.times.bounds.length)
    (h : ∀ v ∈ values, c.times.HasBounds v.2) (more : List α) :
    (c.extend more).blocks previous values = c.blocks previous values := by
  induction values generalizing previous with
  | nil => rfl
  | cons v rest ih =>
    obtain ⟨value, start, stop⟩ := v
    obtain ⟨hv, h⟩ := List.forall_mem_cons.mp h
    have hrest : (c.extend more).blocks (some (value, start)) rest
        = c.blocks (some (value, start)) rest := ih (by simpa using hv.1) h
    let join (x : Except (LaneError α) (Instruction α)) := x >>= fun x =>
      c.blocks (some (value, start)) rest >>= fun xs => .ok (x :: xs)
    unfold blocks
    rw [hrest]
    cases value with
    | expression e => exact congrArg join (expression_extend hv more)
    | ramp =>
      dsimp only
      split
      . exact congrArg join (ramp_extend (hprevious _ rfl) hv more)
      . rfl

theorem compile_extend {blocks : List (Block AnalogValue)} {unit : Option PhysicalUnit}
    (h : ∀ range ∈ Block.ranges blocks, t.HasBounds range) (more : List α) :
    compile lane blocks (t.extend more) unit scope step
      = compile lane blocks t unit scope step := by
  have hsize : (t.extend more).size = t.size := rfl
  rw [compile, compile, hsize]
  refine bind_congr fun _ => congrArg (· >>= joinBlocks .float) ?_
  apply Context.blocks_extend (c := ⟨lane, t, scope, unit, step⟩) (by simp)
  intro v hv
  exact h _ (List.of_mem_zip hv).2

end AnalogLane

end Compilers

namespace Lane

def ranges : Lane → List (Nat × Nat)
  | .digital blocks => Block.ranges blocks
  | .analog blocks => Block.ranges blocks
  | .camera blocks => Block.ranges blocks

def spans : Lane → List UInt64
  | .digital blocks => blocks.map Block.span
  | .analog blocks => blocks.map Block.span
  | .camera blocks => blocks.map Block.span

/--
That what is compiled from a lane does not depend on what stands behind the end of the shot.
-/
def ReadsWithin {α : Type} [Number α] [Kernel α] (lane : Lane) (t : StepTimes α) : Prop :=
  match lane with
  | .digital blocks => ∀ name scope step more,
    DigitalLane.compile name blocks (t.extend more) scope step
      = DigitalLane.compile name blocks t scope step
  | .analog blocks => ∀ name unit scope step more,
    AnalogLane.compile name blocks (t.extend more) unit scope step
      = AnalogLane.compile name blocks t unit scope step
  | .camera blocks =>
    (∀ name step more, CameraLane.trigger name blocks (t.extend more) step
      = CameraLane.trigger name blocks t step)
    ∧ ∀ more, CameraLane.exposures blocks { t with durations := t.durations ++ more }
      = CameraLane.exposures blocks t

/--
That a lane stays within the steps of a shot: its ranges cover the steps, have their bounds and
durations, and nothing else is read.
-/
structure StaysWithin (α : Type) [Number α] [Kernel α] (lane : Lane) (steps : Nat) : Prop where
  covers : Block.CoversSteps lane.ranges 0 steps
  hasBounds (names : List String) (durations : List α) : durations.length = steps →
    ∀ range ∈ lane.ranges, (StepTimes.ofDurations names durations).HasBounds range
      ∧ range.2 ≤ durations.length
  readsWithin (names : List String) (durations : List α) : durations.length = steps →
    lane.ReadsWithin (.ofDurations names durations)

variable {α : Type} {lane : Lane} {name : String} {steps : Nat}

theorem coversSteps_of_validate (h : lane.validate (α := α) name steps = .ok ()) :
    Block.CoversSteps lane.ranges 0 steps := by
  cases lane with
  | digital blocks => exact Block.coversSteps_ranges h
  | analog blocks => exact Block.coversSteps_ranges h
  | camera blocks => exact Block.coversSteps_ranges h

/--
A lane is checked as its blocks are, whatever their values.
-/
theorem validate_eq (lane : Lane) (name : String) (steps : Nat) :
    lane.validate (α := α) name steps
      = if 0 ∈ lane.spans then .error (.emptyBlock name)
        else if wordModulus ≤ lane.totalSpan then .error .overflow
        else if lane.totalSpan = steps then .ok ()
        else .error (.spanMismatch name steps lane.totalSpan) := by
  cases lane with
  | digital blocks => exact Block.checkSpan_eq name blocks steps
  | analog blocks => exact Block.checkSpan_eq name blocks steps
  | camera blocks => exact Block.checkSpan_eq name blocks steps

theorem coversSteps_wrapped_iff (hspans : 0 ∉ lane.spans)
    (hs : lane.totalSpan % wordModulus = steps) :
    Block.CoversSteps (Block.wrapped lane.ranges) 0 steps ↔ lane.totalSpan < wordModulus := by
  cases lane with
  | digital blocks =>
    exact Block.coversSteps_wrapped_iff (by simpa [spans] using hspans) hs
  | analog blocks =>
    exact Block.coversSteps_wrapped_iff (by simpa [spans] using hspans) hs
  | camera blocks =>
    exact Block.coversSteps_wrapped_iff (by simpa [spans] using hspans) hs

variable [Number α]

theorem hasBounds_of_coversSteps (h : Block.CoversSteps lane.ranges 0 steps) (names : List String)
    {durations : List α} (hd : durations.length = steps) :
    ∀ range ∈ lane.ranges, (StepTimes.ofDurations names durations).HasBounds range
      ∧ range.2 ≤ durations.length := by
  intro range hr
  have hlt := h.nonempty range hr
  have hle := h.stop_le range hr
  have hl : (StepTimes.ofDurations names durations).bounds.length = durations.length + 1 :=
    length_stepBoundsFrom _ _
  rw [StepTimes.HasBounds, hl]
  omega

variable [Kernel α]

theorem readsWithin_of_hasBounds {t : StepTimes α}
    (h : ∀ range ∈ lane.ranges, t.HasBounds range ∧ range.2 ≤ t.durations.length) :
    lane.ReadsWithin t := by
  cases lane with
  | digital blocks =>
    exact fun _ _ _ more => DigitalLane.compile_extend (fun range hr => (h range hr).1) more
  | analog blocks =>
    exact fun _ _ _ _ more => AnalogLane.compile_extend (fun range hr => (h range hr).1) more
  | camera blocks =>
    exact ⟨fun _ _ more => CameraLane.trigger_extend (fun range hr => (h range hr).1) more,
      fun more => CameraLane.exposures_append (fun range hr => (h range hr).2) more⟩

/--
A lane that has been accepted stays within the steps of the shot. Spans that do not add up to a
machine word end the program instead of being told from the steps, as they must be: if sums wrapped
around, such a lane could be accepted, and its ranges would never cover the steps.
-/
theorem staysWithin_of_validate (lane : Lane) (name : String) (steps : Nat) :
    (lane.validate (α := α) name steps = .ok () → lane.StaysWithin α steps)
      ∧ (0 ∉ lane.spans → wordModulus ≤ lane.totalSpan →
        lane.validate (α := α) name steps = .error .overflow)
      ∧ (0 ∉ lane.spans → lane.totalSpan % wordModulus = steps →
        (Block.CoversSteps (Block.wrapped lane.ranges) 0 steps
          ↔ lane.totalSpan < wordModulus)) := by
  refine ⟨fun h => ?_, fun hspans hw => ?_, coversSteps_wrapped_iff⟩
  . have hcovers := coversSteps_of_validate h
    have hbounds (names : List String) {durations : List α} (hd : durations.length = steps) :=
      hasBounds_of_coversSteps hcovers names hd
    exact ⟨hcovers, fun names _ hd => hbounds names hd,
      fun names _ hd => readsWithin_of_hasBounds (hbounds names hd)⟩
  . rw [validate_eq, if_neg hspans, if_pos hw]

section Lanes

attribute [local instance] Exact.zeroFunctions

def heldThenRamp : Lane :=
  .analog [⟨.expression ⟨"1 V"⟩, 2⟩, ⟨.ramp, 1⟩, ⟨.expression ⟨"3 V"⟩, 1⟩]

/--
Spans that add up to two steps modulo the machine words.
-/
def wrappedGate : Lane :=
  .digital [⟨.literal true, 1⟩, ⟨.literal false, 0xFFFFFFFFFFFFFFFF⟩, ⟨.literal true, 2⟩]

theorem staysWithin_heldThenRamp :
    heldThenRamp.validate (α := Exact) "aom" 4 = .ok ()
      ∧ heldThenRamp.ranges = [(0, 2), (2, 3), (3, 4)]
      ∧ heldThenRamp.StaysWithin Exact 4
      ∧ wrappedGate.validate (α := Exact) "gate" 4 = .error .overflow
      ∧ Block.CoversSteps (Block.wrapped heldThenRamp.ranges) 0 4 := by
  obtain ⟨hwithin, _, hwrapped⟩ := staysWithin_of_validate (α := Exact) heldThenRamp "aom" 4
  obtain ⟨_, hoverflow, _⟩ := staysWithin_of_validate (α := Exact) wrappedGate "gate" 4
  exact ⟨rfl, rfl, hwithin rfl, hoverflow (by decide) (by decide),
    (hwrapped (by decide) (by decide)).mpr (by decide)⟩

/--
A lane that spans more than the two steps of its shot is not told from one that spans them: adding
its spans overflows, and modulo the machine words they are two, with ranges that do not cover the
steps.
-/
theorem not_covers_wrappedGate :
    0 ∉ wrappedGate.spans ∧ wrappedGate.totalSpan ≠ 2
      ∧ wrappedGate.validate (α := Exact) "gate" 2 = .error .overflow
      ∧ wrappedGate.totalSpan % wordModulus = 2
      ∧ Block.wrapped wrappedGate.ranges = [(0, 1), (1, 0), (0, 2)]
      ∧ ¬Block.CoversSteps (Block.wrapped wrappedGate.ranges) 0 2 := by
  have hwrapped : Block.wrapped wrappedGate.ranges = [(0, 1), (1, 0), (0, 2)] := by decide
  refine ⟨by decide, by decide, rfl, by decide, hwrapped, fun h => ?_⟩
  have hlt := h.nonempty (1, 0) (by rw [hwrapped]; decide)
  contradiction

end Lanes

end Lane

end Waveplan
