import Waveplan.Formula.Kernel
import Waveplan.Proofs.Lane.Waveform
import Waveplan.Proofs.Quantity

/-!
This module contains that the waveform of an analog lane is the continuous lane read off at the
ticks: at every tick it has the value that the block around the tick has at the time of the tick.
-/

namespace Waveplan

open Instruction

theorem Instruction.sampleAtParts_append_cons {α : Type} [Number α] {xs ys : List (Instruction α)}
    {x : Instruction α} {i : Nat} (hi : i < x.length) :
    sampleAtParts (xs ++ x :: ys) (totalLength xs + i) = x.sampleAt i := by
  rw [sampleAtParts_eq, sourceAtParts_append, if_neg (by omega), Nat.add_sub_cancel_left,
    sourceAtParts, if_pos hi, sampleAt_eq]

namespace Block

variable {β : Type} {t : StepTimes Exact}

/--
The time at which a block begins behind earlier blocks.
-/
def startTime (t : StepTimes Exact) (earlier : List (Block β)) : Exact :=
  t.bound (totalSpan earlier)

/--
The time at which a block ends.
-/
def stopTime (t : StepTimes Exact) (earlier : List (Block β)) (b : Block β) : Exact :=
  t.bound (totalSpan earlier + b.span.toNat)

/--
The values of blocks with the steps that they cover.
-/
def placed (start : Nat) (blocks : List (Block β)) : List (β × Nat × Nat) :=
  (blocks.map value).zip (rangesFrom start blocks)

theorem placed_nil (start : Nat) : placed start ([] : List (Block β)) = [] := rfl

theorem placed_cons (start : Nat) (b : Block β) (later : List (Block β)) :
    placed start (b :: later)
      = (b.value, start, start + b.span.toNat) :: placed (start + b.span.toNat) later := rfl

theorem placed_append (start : Nat) (earlier later : List (Block β)) :
    placed start (earlier ++ later)
      = placed start earlier ++ placed (start + totalSpan earlier) later := by
  induction earlier generalizing start with
  | nil => rfl
  | cons b earlier ih =>
    rw [List.cons_append, placed_cons, placed_cons, ih, totalSpan_cons, Nat.add_assoc,
      List.cons_append]

theorem placed_append_cons (earlier later : List (Block β)) (b : Block β) :
    placed 0 (earlier ++ b :: later) = placed 0 earlier
      ++ (b.value, totalSpan earlier, totalSpan earlier + b.span.toNat)
        :: placed (totalSpan earlier + b.span.toNat) later := by
  rw [placed_append, placed_cons, Nat.zero_add]

def duration (t : StepTimes Exact) (earlier : List (Block β)) (b : Block β) : Exact :=
  stopTime t earlier b - startTime t earlier

def Covers (t : StepTimes Exact) (earlier : List (Block β)) (b : Block β) (time : ℚ) : Prop :=
  (startTime t earlier).toRat ≤ time ∧ time < (stopTime t earlier b).toRat

theorem exists_covers {time : ℚ} {first rest : List (Block β)}
    (hs : (t.bound (totalSpan first)).toRat ≤ time)
    (he : time < (t.bound (totalSpan (first ++ rest))).toRat) :
    ∃ earlier b later, first ++ rest = earlier ++ b :: later ∧ Covers t earlier b time := by
  obtain ⟨earlier, b, later, h, hstart, hstop⟩ :=
    exists_append_cons (P := fun i => (t.bound i).toRat ≤ time) hs (not_le.mpr he)
  exact ⟨earlier, b, later, h, hstart, not_le.mp hstop⟩

end Block

namespace AnalogLane

section Context

variable {α : Type} [Number α] {c : Context α} {start stop : Nat} {e : Expression}

theorem Context.magnitude_ok {unit : Option PhysicalUnit} {value : Value α} {v : α}
    (h : c.magnitude unit start value = .ok v) : value.inUnit unit = .ok (.float v) := by
  unfold magnitude at h
  split at h
  . contradiction
  . next hbool =>
    split at h
    . next scalar hs =>
      cases h
      rw [hs, ← Value.eq_float_of_inUnit hbool hs]
    . contradiction

variable [Kernel α]

theorem Context.edge_ok {time v : α} {unit : Option PhysicalUnit}
    (h : c.edge start e time unit = .ok v) :
    e.evaluateIn (c.scope.insert VariableName.time (.seconds time)) unit = .ok (.float v) := by
  obtain ⟨compiled, hc, h⟩ := Outcome.bind_eq_ok_iff.mp h
  obtain ⟨value, hv, h⟩ := Outcome.bind_eq_ok_iff.mp h
  have hv := Outcome.mapError_eq_ok_iff.mp hv
  rw [CompiledExpression.evaluateWith_eq] at hv
  exact Expression.evaluateIn_eq_ok_iff.mpr
    ⟨compiled, value, Outcome.mapError_eq_ok_iff.mp hc, hv, magnitude_ok h⟩

theorem Context.sampleAt_expression {x : Instruction α} (h : c.expression start stop e = .ok x)
    {k : Nat} (hs : c.timeStep.tickAt (c.times.bound start) ≤ k)
    (hk : k < c.timeStep.tickAt (c.times.bound stop)) :
    ∃ v, x.sampleAt (k - c.timeStep.tickAt (c.times.bound start)) = ⟨[.float v]⟩
      ∧ (e.isTimeDependent = false → e.evaluateIn c.scope c.unit = .ok (.float v))
      ∧ (e.isTimeDependent = true →
        ∃ time, (c.timeStep.timeOf k : Except (LaneError α) α) = .ok time
          ∧ e.evaluateIn (c.scope.insert VariableName.time
            (.seconds (time - c.times.bound start))) c.unit = .ok (.float v)) := by
  obtain ⟨compiled, hc, h⟩ := Outcome.bind_eq_ok_iff.mp h
  have hc := Outcome.mapError_eq_ok_iff.mp hc
  split at h
  . next ht =>
    obtain ⟨times, htimes, h⟩ := Outcome.bind_eq_ok_iff.mp h
    obtain ⟨values, hv, h⟩ := Outcome.bind_eq_ok_iff.mp h
    cases h
    rw [TimeStep.tickTimes, Outcome.mapM_eq_ok_iff] at htimes
    rw [Outcome.mapM_eq_ok_iff] at hv
    have hl := hv.length_eq
    have hlt := htimes.length_eq
    rw [List.length_range', TimeStep.ticksBetween] at hlt
    have hi : k - c.timeStep.tickAt (c.times.bound start) < values.length := by omega
    refine ⟨values[k - c.timeStep.tickAt (c.times.bound start)], ?_, fun h => ?_, fun _ => ?_⟩
    . simp [sampleAt, Pattern.ofFloats, Pattern.sample, Column.get, hi]
    . rw [h] at ht
      exact absurd ht Bool.false_ne_true
    . have hk := hv.get (by omega) hi
      have htick := htimes.get (i := k - c.timeStep.tickAt (c.times.bound start))
        (by rw [List.length_range', TimeStep.ticksBetween]; omega) (by omega)
      simp only [List.get_eq_getElem, List.getElem_range', Nat.one_mul,
        Nat.add_sub_cancel' hs] at hk htick
      obtain ⟨time, htime, htick⟩ := Outcome.bind_eq_ok_iff.mp htick
      obtain ⟨value, hv, hm⟩ := Outcome.bind_eq_ok_iff.mp hk
      have hv := Outcome.mapError_eq_ok_iff.mp hv
      rw [CompiledExpression.evaluateWith_eq, ← Except.ok.inj htick] at hv
      exact ⟨time, htime,
        Expression.evaluateIn_eq_ok_iff.mpr ⟨compiled, value, hc, hv, magnitude_ok hm⟩⟩
  . next ht =>
    obtain ⟨value, hv, h⟩ := Outcome.bind_eq_ok_iff.mp h
    obtain ⟨v, hm, h⟩ := Outcome.bind_eq_ok_iff.mp h
    cases h
    refine ⟨v, sampleAt_hold _ (by rw [TimeStep.ticksBetween]; omega), fun _ => ?_, fun h => ?_⟩
    . exact Expression.evaluateIn_eq_ok_iff.mpr
        ⟨compiled, value, hc, Outcome.mapError_eq_ok_iff.mp hv, magnitude_ok hm⟩
    . exact absurd h ht

theorem Context.blocks_append_cons_ok {value : AnalogValue}
    {previous : Option (AnalogValue × Nat)} {before after : List (AnalogValue × Nat × Nat)}
    {xs : List (Instruction α)}
    (h : c.blocks previous (before ++ (value, start, stop) :: after) = .ok xs) :
    ∃ xs₁ x xs₂, xs = xs₁ ++ x :: xs₂
      ∧ List.Forall₂ (fun value x => HasTicks c.times c.timeStep value.2 x) before xs₁
      ∧ c.Compiles ((before.getLast?.map fun value => (value.1, value.2.1)).or previous) after.head?
        start stop value x := by
  induction before generalizing previous xs with
  | nil =>
    obtain ⟨x, ys, hx, _, rfl⟩ := blocks_cons_ok h
    exact ⟨[], x, ys, rfl, .nil, hx⟩
  | cons first before ih =>
    obtain ⟨y, ys, hy, hys, rfl⟩ := blocks_cons_ok h
    obtain ⟨xs₁, x, xs₂, rfl, hticks, hx⟩ := ih hys
    refine ⟨y :: xs₁, x, xs₂, rfl, .cons hy.hasTicks.2 hticks, ?_⟩
    rw [List.getLast?_cons]
    cases hlast : before.getLast? with
    | none => rwa [hlast] at hx
    | some last => rwa [hlast] at hx

end Context

section Exact

variable {c : Context Exact} {start stop : Nat}

theorem Context.fromBase_ok {x y : Exact} (h : c.fromBase start x = .ok y) :
    y.toRat = x.toRat * PhysicalUnit.perBase c.unit := by
  unfold fromBase at h
  split at h
  . next hu =>
    cases h
    rw [hu, PhysicalUnit.perBase, mul_one]
  . next unit hu =>
    obtain ⟨_, hy⟩ := convertMagnitude_eq_ok_iff.mp (Outcome.mapError_eq_ok_iff.mp h)
    rw [hy, hu, PhysicalUnit.perBase, mul_div_assoc]

theorem Context.lineAt_ok {t₀ t₁ v₀ v₁ y : Exact} {tick : Nat}
    (h : c.lineAt start t₀ t₁ v₀ v₁ tick = .ok y) :
    y.toRat = ((tick * (c.timeStep.seconds : Exact).toRat - t₀.toRat) / (t₁.toRat - t₀.toRat)
      * (v₁.toRat - v₀.toRat) + v₀.toRat) * PhysicalUnit.perBase c.unit := by
  obtain ⟨time, htime, h⟩ := Outcome.bind_eq_ok_iff.mp h
  rw [fromBase_ok h, ← c.timeStep.toRat_of_timeOf htime]
  simp only [line, Exact.toRat_add, Exact.toRat_sub, Exact.toRat_mul, Exact.toRat_div]

/--
A ramp is drawn in base units from its first tick to the first tick after it, and is therefore on
the line between the values of its neighbours, in the unit of the lane.
-/
theorem Context.sampleAt_ramp [Kernel Exact] {previousStart : Nat} {previous next : Expression}
    {x : Instruction Exact} (h : c.ramp previousStart start stop previous next = .ok x) {k : Nat}
    (hs : c.timeStep.tickAt (c.times.bound start) ≤ k)
    (hk : k < c.timeStep.tickAt (c.times.bound stop)) :
    ∃ v₀ v₁ v : Exact,
      previous.evaluateIn (c.scope.insert VariableName.time
        (.seconds (c.times.bound start - c.times.bound previousStart))) c.unit = .ok (.float v₀)
      ∧ next.evaluateIn (c.scope.insert VariableName.time (.seconds Number.zero)) c.unit
        = .ok (.float v₁)
      ∧ x.sampleAt (k - c.timeStep.tickAt (c.times.bound start)) = ⟨[.float v]⟩
      ∧ v.toRat = v₀.toRat
        + (k * (c.timeStep.seconds : Exact).toRat - (c.times.bound start).toRat)
        / (c.times.bound stop - c.times.bound start : Exact).toRat * (v₁.toRat - v₀.toRat) := by
  obtain ⟨w₀, hw₀, h⟩ := Outcome.bind_eq_ok_iff.mp h
  obtain ⟨w₁, hw₁, h⟩ := Outcome.bind_eq_ok_iff.mp h
  dsimp only at h
  rw [if_neg (by omega)] at h
  obtain ⟨x₀, hx₀, h⟩ := Outcome.bind_eq_ok_iff.mp h
  obtain ⟨x₁, hx₁, h⟩ := Outcome.bind_eq_ok_iff.mp h
  cases h
  obtain ⟨v₀, hv₀, he₀⟩ := Expression.exists_evaluateIn_eq (edge_ok hw₀)
  obtain ⟨v₁, hv₁, he₁⟩ := Expression.exists_evaluateIn_eq (edge_ok hw₁)
  have hx₀ := lineAt_ok hx₀
  have hx₁ := lineAt_ok hx₁
  refine ⟨v₀, v₁, _, hv₀, hv₁, sampleAt_linear _ _ (by omega), ?_⟩
  have hn : ((c.timeStep.tickAt (c.times.bound stop) : ℚ)
      - c.timeStep.tickAt (c.times.bound start)) ≠ 0 := by
    have : (c.timeStep.tickAt (c.times.bound start) : ℚ)
        < c.timeStep.tickAt (c.times.bound stop) := by
      exact_mod_cast Nat.lt_of_le_of_lt hs hk
    linarith
  rw [Ramp.toRat_valueAt, hx₀, hx₁, he₀, he₁, Exact.toRat_sub, Nat.cast_sub hs,
    Nat.cast_sub (Nat.le_of_lt (Nat.lt_of_le_of_lt hs hk))]
  field_simp
  ring

end Exact

section Sampled

variable [Kernel Exact] (t : StepTimes Exact) (scope : Namespace Exact)
  (unit : Option PhysicalUnit)

/--
The value of a block some time after it has begun. A ramp is a line from the value at the end of the
previous block to the value at the beginning of the next one.
-/
inductive HasValue (earlier : List (Block AnalogValue)) (b : Block AnalogValue)
    (later : List (Block AnalogValue)) (elapsed : Exact) : Exact → Prop
  | constant {e : Expression} {v : Exact} (hb : b.value = .expression e)
      (he : e.isTimeDependent = false) (hv : e.evaluateIn scope unit = .ok (.float v)) :
      HasValue earlier b later elapsed v
  | varying {e : Expression} {v : Exact} (hb : b.value = .expression e)
      (he : e.isTimeDependent = true)
      (hv : e.evaluateIn (scope.insert VariableName.time (.seconds elapsed)) unit
        = .ok (.float v)) :
      HasValue earlier b later elapsed v
  | ramp {before rest : List (Block AnalogValue)} {previous next : Block AnalogValue}
      {e₀ e₁ : Expression} {v₀ v₁ v : Exact} (hb : b.value = .ramp)
      (hearlier : earlier = before ++ [previous]) (hlater : later = next :: rest)
      (hprevious : previous.value = .expression e₀) (hnext : next.value = .expression e₁)
      (hv₀ : e₀.evaluateIn (scope.insert VariableName.time
        (.seconds (Block.duration t before previous))) unit = .ok (.float v₀))
      (hv₁ : e₁.evaluateIn (scope.insert VariableName.time (.seconds Number.zero)) unit
        = .ok (.float v₁))
      (hv : v.toRat = v₀.toRat + elapsed.toRat / (Block.duration t earlier b).toRat
        * (v₁.toRat - v₀.toRat)) :
      HasValue earlier b later elapsed v

/--
The waveform of a lane is the lane sampled at the ticks: it has a tick for each period of the shot,
as far as words can count them, and at each tick the value that the block around it has then.
-/
structure IsSampled (step : TimeStep) (blocks : List (Block AnalogValue)) (y : Instruction Exact) :
    Prop where
  length : y.length = min ⌈t.duration.toRat / (step.seconds : Exact).toRat⌉₊ (wordModulus - 1)
  covered : ∀ k < y.length, ∃ earlier b later, blocks = earlier ++ b :: later
    ∧ Block.Covers t earlier b (k * (step.seconds : Exact).toRat)
  sampled : ∀ earlier b later, ∀ k < y.length, blocks = earlier ++ b :: later →
    Block.Covers t earlier b (k * (step.seconds : Exact).toRat) →
    ∃ elapsed v : Exact,
      elapsed.toRat = k * (step.seconds : Exact).toRat - (Block.startTime t earlier).toRat
      ∧ 0 ≤ elapsed.toRat ∧ elapsed.toRat < (Block.duration t earlier b).toRat
      ∧ HasValue t scope unit earlier b later elapsed v ∧ y.sampleAt k = ⟨[.float v]⟩
  drawn : ∀ earlier b later, blocks = earlier ++ b :: later →
    step.tickAt (Block.startTime t earlier) < step.tickAt (Block.stopTime t earlier b) →
    (Block.startTime t earlier).toRat < (Block.stopTime t earlier b).toRat

variable {t scope unit}

theorem hasValue_of_compiles {c : Context Exact} {earlier later : List (Block AnalogValue)}
    {b : Block AnalogValue} {start : Nat} {x : Instruction Exact} {k : Nat}
    (h : c.Compiles (((Block.placed 0 earlier).getLast?.map fun value => (value.1, value.2.1)).or
        none) (Block.placed start later).head? (Block.totalSpan earlier)
      (Block.totalSpan earlier + b.span.toNat) b.value x)
    (hs : c.timeStep.tickAt (Block.startTime c.times earlier) ≤ k)
    (hk : k < c.timeStep.tickAt (Block.stopTime c.times earlier b)) :
    ∃ v, HasValue c.times c.scope c.unit earlier b later
        (Number.ofNat k * c.timeStep.seconds - Block.startTime c.times earlier) v
      ∧ x.sampleAt (k - c.timeStep.tickAt (Block.startTime c.times earlier)) = ⟨[.float v]⟩ := by
  generalize hb : b.value = value at h
  cases h with
  | expression h =>
    obtain ⟨v, hx, hconstant, hvarying⟩ := Context.sampleAt_expression h hs hk
    refine ⟨v, ?_, hx⟩
    cases he : Expression.isTimeDependent _ with
    | false => exact .constant hb he (hconstant he)
    | true =>
      obtain ⟨time, htime, hv⟩ := hvarying he
      obtain rfl : time = Number.ofNat k * c.timeStep.seconds :=
        Exact.toRat_inj.mp (c.timeStep.toRat_of_timeOf htime)
      exact .varying hb he hv
  | ramp hp hn h =>
    obtain ⟨v₀, v₁, v, hv₀, hv₁, hx, hv⟩ := Context.sampleAt_ramp h hs hk
    refine ⟨v, ?_, hx⟩
    -- the neighbours in the compiled list are the blocks next to this one
    rcases List.eq_nil_or_concat' earlier with rfl | ⟨before, previous, rfl⟩
    . exact absurd hp.symm (Option.some_ne_none _)
    . cases later with
      | nil => exact absurd hn.symm (Option.some_ne_none _)
      | cons next rest =>
        rw [Block.placed_append_cons, Block.placed_nil, List.getLast?_concat] at hp
        obtain ⟨hprevious, rfl⟩ := Prod.mk.inj (Option.some.inj hp)
        obtain ⟨hnext, _⟩ := Prod.mk.inj (Option.some.inj hn)
        rw [Block.totalSpan_append] at hv₀
        exact .ramp hb rfl rfl hprevious hnext hv₀ hv₁ hv

section Compile

variable (ht : t.Ordered) {lane : String} {step : TimeStep} {y : Instruction Exact}

include ht

theorem length_compile {blocks : List (Block AnalogValue)}
    (h : compile lane blocks t unit scope step = .ok y) : y.length = step.tickAt t.duration := by
  rw [(playsBlocks_compile h).length_eq ht, TimeStep.ticksBetween, step.tickAt_zero,
    Nat.sub_zero]

/--
The waveform of a block plays from the first tick of the block to its last one.
-/
theorem exists_compiles {earlier later : List (Block AnalogValue)} {b : Block AnalogValue}
    (h : compile lane (earlier ++ b :: later) t unit scope step = .ok y) :
    ∃ x, Context.Compiles ⟨lane, t, scope, unit, step⟩
        (((Block.placed 0 earlier).getLast?.map fun value => (value.1, value.2.1)).or none)
        (Block.placed (Block.totalSpan earlier + b.span.toNat) later).head? (Block.totalSpan earlier)
        (Block.totalSpan earlier + b.span.toNat) b.value x
      ∧ ∀ k, step.tickAt (Block.startTime t earlier) ≤ k →
        k < step.tickAt (Block.stopTime t earlier b) → k < y.length →
        y.sampleAt k = x.sampleAt (k - step.tickAt (Block.startTime t earlier)) := by
  have hspan := Block.totalSpan_of_checkSpan (playsBlocks_compile h).checked
  rw [Block.totalSpan_append, Block.totalSpan_cons] at hspan
  obtain ⟨_, _, h⟩ := Outcome.bind_eq_ok_iff.mp h
  obtain ⟨xs, hxs, h⟩ := Outcome.bind_eq_ok_iff.mp h
  have htyped := Outcome.forall_mem_of_forall₂ ((Context.blocks_ok hxs).imp fun _ _ h => h.1)
  have hy : y = join .float xs := joinBlocks_eq_ok htyped h
  change Context.blocks _ none (Block.placed 0 (earlier ++ b :: later)) = _ at hxs
  rw [Block.placed_append_cons] at hxs
  obtain ⟨xs₁, x, xs₂, rfl, hticks, hx⟩ := Context.blocks_append_cons_ok hxs
  have hbefore : totalLength xs₁ = step.tickAt (Block.startTime t earlier) := by
    have hranges := forall₂_ranges (R := HasTicks t step)
      ((Block.length_ranges earlier).trans (List.length_map _).symm) hticks
    rw [totalLength_of_rangesFrom (ht.ticksInOrder step) (by omega) hranges, ht.bound_zero,
      Nat.zero_add, TimeStep.ticksBetween, step.tickAt_zero, Nat.sub_zero, Block.startTime]
  refine ⟨x, hx, fun k hfirst hlast hk => ?_⟩
  have hl : x.length = step.tickAt (Block.stopTime t earlier b)
    - step.tickAt (Block.startTime t earlier) := hx.hasTicks.2
  rw [hy, length_join] at hk
  rw [hy, sampleAt_join htyped hk]
  have hi : k = totalLength xs₁ + (k - step.tickAt (Block.startTime t earlier)) := by omega
  conv_lhs => rw [hi]
  exact sampleAtParts_append_cons (by omega)

/--
The waveform of an analog lane is the lane sampled at the ticks.
-/
theorem isSampled_compile {blocks : List (Block AnalogValue)}
    (h : compile lane blocks t unit scope step = .ok y) :
    IsSampled t scope unit step blocks y := by
  have hspan := Block.totalSpan_of_checkSpan (playsBlocks_compile h).checked
  have hlength := length_compile ht h
  have hword {k : Nat} (hk : k < y.length) : k + 1 < wordModulus := by
    have := step.tickAt_le t.duration
    omega
  refine ⟨hlength, ?_, ?_, ?_⟩
  . intro k hk
    have hend := hk
    rw [hlength, ← not_le, step.tickAt_le_iff (hword hk), not_le] at hend
    have hstart : (t.bound (Block.totalSpan ([] : List (Block AnalogValue)))).toRat
        ≤ k * (step.seconds : Exact).toRat := by
      rw [Block.totalSpan, ht.bound_zero, Exact.toRat_zero]
      exact mul_nonneg (Nat.cast_nonneg k) (le_of_lt step.toRat_seconds_pos)
    exact Block.exists_covers hstart (by rwa [List.nil_append, hspan, ht.bound_size])
  . rintro earlier b later k hk rfl ⟨hstart, hstop⟩
    have hfirst : step.tickAt (Block.startTime t earlier) ≤ k :=
      (step.tickAt_le_iff (hword hk)).mpr hstart
    have hlast : k < step.tickAt (Block.stopTime t earlier b) := by
      rwa [← not_le, step.tickAt_le_iff (hword hk), not_le]
    obtain ⟨x, hx, hplays⟩ := exists_compiles ht h
    obtain ⟨v, hv, hsample⟩ := hasValue_of_compiles hx hfirst hlast
    have helapsed : (Number.ofNat k * step.seconds - Block.startTime t earlier : Exact).toRat
        = k * (step.seconds : Exact).toRat - (Block.startTime t earlier).toRat := by
      rw [Exact.toRat_sub, Exact.toRat_mul, Exact.toRat_ofNat]
    refine ⟨_, v, helapsed, ?_, ?_, hv, (hplays k hfirst hlast hk).trans hsample⟩
    . rw [helapsed]
      exact sub_nonneg.mpr hstart
    . rw [helapsed, Block.duration, Exact.toRat_sub]
      exact sub_lt_sub_right hstop _
  . intro earlier b later _ hlt
    by_contra hle
    exact absurd (step.tickAt_mono (not_lt.mp hle)) (not_le.mpr hlt)

end Compile

end Sampled

section Lanes

attribute [local instance] Exact.zeroFunctions

/--
A lane of times that rises with the clock during the first of three steps, and on to its last value
during the second.
-/
def risingBlocks : List (Block AnalogValue) :=
  [⟨.expression ⟨"t"⟩, 1⟩, ⟨.ramp, 1⟩, ⟨.expression ⟨"8 us"⟩, 1⟩]

def risingTimes : StepTimes Exact :=
  .ofDurations ["on", "rise", "off"]
    [Number.ofDecimal 2 (-6), Number.ofDecimal 4 (-6), Number.ofDecimal 2 (-6)]

theorem isSampled_rising : ∃ y,
    compile "aom" risingBlocks risingTimes (some .microsecond) .empty .microsecond = .ok y
      ∧ y.length = 8
      ∧ IsSampled risingTimes .empty (some .microsecond) .microsecond risingBlocks y := by
  have h := Outcome.eq_ok_of_isOk (x := compile "aom" risingBlocks risingTimes (some .microsecond)
    .empty .microsecond) (by decide +kernel) (.level false 0)
  have hsampled := isSampled_compile (StepTimes.ordered_ofDurations (by decide +kernel) _) h
  exact ⟨_, h, hsampled.length.trans (by decide +kernel), hsampled⟩

/--
A step of more nanoseconds than a machine word can count.
-/
def endlessStep : StepTimes Exact := .ofDurations ["only"] [Number.ofDecimal 2 10]

def nanosecondStep : TimeStep := ⟨1, by decide⟩

theorem length_compile_endlessStep : ∃ y,
    compile "aom" [⟨.expression ⟨"1 V"⟩, 1⟩] endlessStep (some .volt) .empty nanosecondStep = .ok y
      ∧ endlessStep.Ordered ∧ y.length = 2 ^ 64 - 1
      ∧ ⌈endlessStep.duration.toRat / (nanosecondStep.seconds : Exact).toRat⌉₊ = 2 * 10 ^ 19 := by
  have h := Outcome.eq_ok_of_isOk (x := compile "aom" [⟨.expression ⟨"1 V"⟩, 1⟩] endlessStep
    (some .volt) .empty nanosecondStep) (by decide +kernel) (.level false 0)
  exact ⟨_, h, StepTimes.ordered_ofDurations (by decide +kernel) _, by decide +kernel,
    by decide +kernel⟩

end Lanes

end AnalogLane

end Waveplan
