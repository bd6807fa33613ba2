import Mathlib.Logic.Relation
import Waveplan.Proofs.Shot.Compilation

/-!
This module contains the outputs that are met on the way down from the output of a channel, and how
far they are shifted.
-/

namespace Waveplan.ShotContext

variable {α : Type} [Number α] [Kernel α] {c : ShotContext α} {step : TimeStep}

/--
An output inside another one, the unit that it is evaluated in, and how much earlier it is.
-/
structure Position (α : Type) where
  output : ChannelOutput α
  unit : Option PhysicalUnit
  shift : Int

/--
The output that the evaluation of an output goes on with.
-/
inductive Enters (c : ShotContext α) (step : TimeStep) : Position α → Position α → Prop where
  | default {device : String} {other : ChannelOutput α} {unit : Option PhysicalUnit} {s : Int} :
      c.devices.contains device = false →
      c.Enters step ⟨.deviceTrigger device (some other), unit, s⟩ ⟨other, unit, s⟩
  | calibrated {input : ChannelOutput α} {inputUnit outputUnit unit : Option PhysicalUnit}
      {points : List (α × α)} {s : Int} :
      c.Enters step ⟨.calibrated input inputUnit outputUnit points, unit, s⟩ ⟨input, inputUnit, s⟩
  | advance {input : ChannelOutput α} {shift : Expression} {unit : Option PhysicalUnit} {s : Int}
      {ticks : Nat} : c.shiftTicks shift step = .ok ticks →
      c.Enters step ⟨.advance input shift, unit, s⟩ ⟨input, unit, s + ticks⟩
  | delay {input : ChannelOutput α} {shift : Expression} {unit : Option PhysicalUnit} {s : Int}
      {ticks : Nat} : c.shiftTicks shift step = .ok ticks →
      c.Enters step ⟨.delay input shift, unit, s⟩ ⟨input, unit, s - ticks⟩

variable (c step) in
/--
The outputs that are met on the way down.
-/
abbrev Descends : Position α → Position α → Prop := Relation.ReflTransGen (c.Enters step)

theorem Enters.unique {x y z : Position α} (hy : c.Enters step x y) (hz : c.Enters step x z) :
    z = y := by
  cases hy with
  | default => cases hz; rfl
  | calibrated => cases hz; rfl
  | advance h =>
    cases hz with
    | advance h' =>
      rw [h] at h'
      cases h'
      rfl
  | delay h =>
    cases hz with
    | delay h' =>
      rw [h] at h'
      cases h'
      rfl

theorem descends_iff_of_enters {x y z : Position α} (h : c.Enters step x y) :
    c.Descends step x z ↔ x = z ∨ c.Descends step y z := by
  rw [Descends, Relation.ReflTransGen.cases_head_iff]
  apply or_congr Iff.rfl
  constructor
  . rintro ⟨w, hw, hz⟩
    rwa [h.unique hw] at hz
  . intro hz
    exact ⟨y, h, hz⟩

theorem descends_iff_eq {x z : Position α} (h : ∀ y, ¬c.Enters step x y) :
    c.Descends step x z ↔ x = z := by
  rw [Descends, Relation.ReflTransGen.cases_head_iff]
  simp [h]

/--
That an output inside of another one, which has `before` ticks before the shot and `after` ticks
after it, is not shifted any further.
-/
def HasRoom (before after : Nat) (x y : Position α) : Prop :=
  x.shift - after ≤ y.shift ∧ y.shift ≤ x.shift + before

/--
That the ticks which an output inside of another one has before and after the shot can be counted.
What a shift takes from one side it adds to the other one.
-/
def IsCounted (before after : Nat) (x y : Position α) : Prop :=
  x.shift + before < y.shift + wordModulus ∧ y.shift + after < x.shift + wordModulus

variable (c step) in
/--
The outputs that are met on the way down as long as their ticks can be counted.
-/
abbrev DescendsCounted (before after : Nat) (x : Position α) : Position α → Position α → Prop :=
  Relation.ReflTransGen fun y z => c.Enters step y z ∧ IsCounted before after x z

variable (c step) in
/--
That an output inside of another one is shifted further than `before` ticks before the shot or
`after` ticks after it, before the ticks become too many to be counted.
-/
def Overruns (before after : Nat) (x : Position α) : Prop :=
  ∃ y z, c.DescendsCounted step before after x x y ∧ c.Enters step y z
    ∧ ¬HasRoom before after x z

variable (c step) in
/--
That there is room for all shifts inside of an output.
-/
def Fits (before after : Nat) (x : Position α) : Prop :=
  ∀ y z, c.Descends step x y → c.Enters step y z →
    HasRoom before after x z ∧ IsCounted before after x z

variable (c step) in
/--
That an output ends in the trigger of a sequencer.
-/
def Triggers (x : Position α) (device : String) : Prop :=
  ∃ default s config, c.Descends step x ⟨.deviceTrigger device default, none, s⟩
    ∧ c.devices.get? device = some (.sequencer config)

variable (c step) in
/--
That an output ends in the values of a lane.
-/
def Reads (x : Position α) (lane : String) : Prop :=
  ∃ default unit s values, c.Descends step x ⟨.laneValues lane default, unit, s⟩
    ∧ c.lanes.get? lane = some values

variable (c step) in
/--
Where the evaluation of an output fails: in a shift without room, if such shifts count, or else in
the trigger of a sequencer that fails.
-/
def FailsAt (room : Prop) (fails : String → Prop) (before after : Nat) (x : Position α) : Prop :=
  (room ∧ c.Overruns step before after x)
    ∨ (c.Fits step before after x ∧ ∃ device, c.Triggers step x device ∧ fails device)

variable {room : Prop} {fails : String → Prop} {before after : Nat} {x y : Position α}

omit [Number α] [Kernel α] in
theorem isCounted_of_shift_eq (hb : before < wordModulus) (ha : after < wordModulus)
    (h : y.shift = x.shift) : IsCounted before after x y := by
  unfold IsCounted
  omega

theorem DescendsCounted.descends {z : Position α} (h : c.DescendsCounted step before after z x y) :
    c.Descends step x y :=
  Relation.ReflTransGen.mono (fun _ _ h => h.1) _ _ h

theorem DescendsCounted.isCounted (hb : before < wordModulus) (ha : after < wordModulus)
    (h : c.DescendsCounted step before after x x y) : IsCounted before after x y := by
  rcases Relation.ReflTransGen.cases_tail h with rfl | ⟨_, _, _, hy⟩
  . exact isCounted_of_shift_eq hb ha rfl
  . exact hy

theorem Overruns.not_fits (h : c.Overruns step before after x) :
    ¬c.Fits step before after x := by
  obtain ⟨y, z, hy, hz, hroom⟩ := h
  exact fun hf => hroom (hf y z hy.descends hz).1

theorem fits_of_not_enters (h : ∀ y, ¬c.Enters step x y) : c.Fits step before after x := by
  intro y z hy hz
  rw [← (descends_iff_eq h).mp hy] at hz
  exact absurd hz (h z)

theorem not_overruns (h : ∀ y, ¬c.Enters step x y) : ¬c.Overruns step before after x :=
  fun ho => ho.not_fits (fits_of_not_enters h)

theorem triggers_iff {device : String} (h : ∀ y, ¬c.Enters step x y) :
    c.Triggers step x device ↔ ∃ default config, x.output = .deviceTrigger device default
      ∧ x.unit = none ∧ c.devices.get? device = some (.sequencer config) := by
  unfold Triggers
  simp only [descends_iff_eq h]
  constructor
  . rintro ⟨default, s, config, rfl, hg⟩
    exact ⟨default, config, rfl, rfl, hg⟩
  . obtain ⟨o, unit, s⟩ := x
    rintro ⟨default, config, rfl, rfl, hg⟩
    exact ⟨default, s, config, rfl, hg⟩

theorem triggers_iff_of_enters {device : String} (h : c.Enters step x y) :
    c.Triggers step x device ↔ c.Triggers step y device := by
  unfold Triggers
  simp only [descends_iff_of_enters h]
  constructor
  . rintro ⟨default, s, config, rfl | hd, hg⟩
    . -- the trigger of a sequencer has no default to go on with
      cases h with
      | default hd =>
        rw [Dictionary.contains, hg] at hd
        contradiction
    . exact ⟨default, s, config, hd, hg⟩
  . rintro ⟨default, s, config, hd, hg⟩
    exact ⟨default, s, config, .inr hd, hg⟩

theorem overruns_of_enters (h : c.Enters step x y) (hs : ¬HasRoom before after x y) :
    c.Overruns step before after x :=
  ⟨x, y, .refl, h, hs⟩

section Moved

variable {before' after' : Nat}

omit [Number α] [Kernel α] in
/--
The room moves along with the shift.
-/
theorem hasRoom_iff_of_moved (hb : y.shift + before' = x.shift + before)
    (ha : y.shift - after' = x.shift - after) {z : Position α} :
    HasRoom before after x z ↔ HasRoom before' after' y z := by
  unfold HasRoom
  rw [hb, ha]

omit [Number α] [Kernel α] in
theorem isCounted_iff_of_moved (hb : y.shift + before' = x.shift + before)
    (ha : y.shift - after' = x.shift - after) {z : Position α} :
    IsCounted before after x z ↔ IsCounted before' after' y z := by
  unfold IsCounted
  omega

theorem overruns_iff_of_enters (h : c.Enters step x y)
    (hb : y.shift + before' = x.shift + before) (ha : y.shift - after' = x.shift - after)
    (hy : IsCounted before after x y) :
    c.Overruns step before after x ↔ c.Overruns step before' after' y := by
  have hroom : HasRoom before after x y := by
    unfold HasRoom
    omega
  unfold Overruns DescendsCounted
  simp only [hasRoom_iff_of_moved hb ha, isCounted_iff_of_moved hb ha] at hroom hy ⊢
  constructor
  . rintro ⟨z, w, hz, hw, hs⟩
    rcases Relation.ReflTransGen.cases_head hz with rfl | ⟨v, ⟨hv, _⟩, hz⟩
    . exact absurd (h.unique hw ▸ hroom) hs
    . rw [h.unique hv] at hz
      exact ⟨z, w, hz, hw, hs⟩
  . rintro ⟨z, w, hz, hw, hs⟩
    exact ⟨z, w, .head ⟨h, hy⟩ hz, hw, hs⟩

theorem fits_iff_of_enters (h : c.Enters step x y)
    (hb : y.shift + before' = x.shift + before) (ha : y.shift - after' = x.shift - after)
    (hy : IsCounted before after x y) :
    c.Fits step before after x ↔ c.Fits step before' after' y := by
  have hroom : HasRoom before after x y := by
    unfold HasRoom
    omega
  unfold Fits
  simp only [hasRoom_iff_of_moved hb ha, isCounted_iff_of_moved hb ha] at hroom hy ⊢
  constructor
  . exact fun hf z w hz => hf z w (.head h hz)
  . intro hf z w hz hw
    rcases (descends_iff_of_enters h).mp hz with rfl | hz
    . rw [h.unique hw]
      exact ⟨hroom, hy⟩
    . exact hf z w hz hw

theorem failsAt_iff_of_enters (h : c.Enters step x y)
    (hb : y.shift + before' = x.shift + before) (ha : y.shift - after' = x.shift - after)
    (hy : IsCounted before after x y) :
    c.FailsAt step room fails before after x ↔ c.FailsAt step room fails before' after' y := by
  unfold FailsAt
  simp only [triggers_iff_of_enters h, overruns_iff_of_enters h hb ha hy,
    fits_iff_of_enters h hb ha hy]

end Moved

theorem not_failsAt (h : ∀ y, ¬c.Enters step x y)
    (hx : ∀ device default, x.output ≠ .deviceTrigger device default) :
    ¬c.FailsAt step room fails before after x := by
  rintro (⟨_, ho⟩ | ⟨_, device, ht, _⟩)
  . exact not_overruns h ho
  . obtain ⟨default, _, ho, _⟩ := (triggers_iff h).mp ht
    exact hx device default ho

section Shift

variable {input : ChannelOutput α} {shift : Expression} {unit : Option PhysicalUnit} {s : Int}

/--
A shift takes ticks from one side of the shot, the `source`, and adds them to the other one. It fails
if there are too few of them, or else where the output that is shifted does, as long as the ticks can
be counted.
-/
theorem failsAt_iff_of_shift {before' after' source target ticks : Nat} (h : c.Enters step x y)
    (hroom : HasRoom before after x y ↔ ticks ≤ source)
    (hcount : IsCounted before after x y ↔ target + ticks < wordModulus)
    (hb : ticks ≤ source → y.shift + before' = x.shift + before)
    (ha : ticks ≤ source → y.shift - after' = x.shift - after) :
    c.FailsAt step room fails before after x
      ↔ if source < ticks then room
        else target + ticks < wordModulus ∧ c.FailsAt step room fails before' after' y := by
  rw [← hcount]
  split
  . next hlt =>
    have ho := overruns_of_enters h (hroom.not.mpr (Nat.not_le_of_lt hlt))
    simp [FailsAt, ho, ho.not_fits]
  . next hlt =>
    have hle := Nat.le_of_not_lt hlt
    by_cases hy : IsCounted before after x y
    . rw [and_iff_right hy]
      exact failsAt_iff_of_enters h (hb hle) (ha hle) hy
    . -- where the ticks become too many to be counted, nothing fails that is looked for
      apply iff_of_false _ (by simp [hy])
      rintro (⟨_, z, w, hz, hw, hs⟩ | ⟨hf, _⟩)
      . rcases Relation.ReflTransGen.cases_head hz with rfl | ⟨v, ⟨hv, hcounted⟩, _⟩
        . exact hs (h.unique hw ▸ hroom.mpr hle)
        . exact hy (h.unique hv ▸ hcounted)
      . exact hy (hf x y .refl h).2

theorem failsAt_advance_iff (hb : before < wordModulus) :
    c.FailsAt step room fails before after ⟨.advance input shift, unit, s⟩
      ↔ ∃ ticks, c.shiftTicks shift step = .ok ticks
        ∧ if before < ticks then room
          else after + ticks < wordModulus
            ∧ c.FailsAt step room fails (before - ticks) (after + ticks)
              ⟨input, unit, s + ticks⟩ := by
  cases ht : c.shiftTicks shift step with
  | error e =>
    apply iff_of_false _ (by simp)
    apply not_failsAt _ (by simp)
    rintro y ⟨⟩
    simp_all
  | ok ticks =>
    simp only [Except.ok.injEq, exists_eq_left']
    apply failsAt_iff_of_shift (.advance ht)
    . simp only [HasRoom]
      omega
    . simp only [IsCounted]
      omega
    all_goals
      dsimp only
      omega

theorem failsAt_delay_iff (ha : after < wordModulus) :
    c.FailsAt step room fails before after ⟨.delay input shift, unit, s⟩
      ↔ ∃ ticks, c.shiftTicks shift step = .ok ticks
        ∧ if after < ticks then room
          else before + ticks < wordModulus
            ∧ c.FailsAt step room fails (before + ticks) (after - ticks)
              ⟨input, unit, s - ticks⟩ := by
  cases ht : c.shiftTicks shift step with
  | error e =>
    apply iff_of_false _ (by simp)
    apply not_failsAt _ (by simp)
    rintro y ⟨⟩
    simp_all
  | ok ticks =>
    simp only [Except.ok.injEq, exists_eq_left']
    apply failsAt_iff_of_shift (.delay ht)
    . simp only [HasRoom]
      omega
    . simp only [IsCounted]
      omega
    all_goals
      dsimp only
      omega

end Shift

theorem shifts_of_enters {x y : Position α} (h : c.Enters step x y) {advance delay : Nat}
    (hs : c.shifts step x.output = .ok (advance, delay)) :
    (∃ device other unit s, x = ⟨.deviceTrigger device (some other), unit, s⟩
        ∧ c.devices.contains device = false ∧ y = ⟨other, unit, s⟩)
      ∨ ∃ advance' delay', c.shifts step y.output = .ok (advance', delay')
        ∧ x.shift - delay ≤ y.shift - delay' ∧ y.shift + advance' ≤ x.shift + advance := by
  cases h with
  | default hd => exact .inl ⟨_, _, _, _, rfl, hd, rfl⟩
  | calibrated =>
    rw [shifts] at hs
    exact .inr ⟨advance, delay, hs, Int.le_refl _, Int.le_refl _⟩
  | advance ht =>
    obtain ⟨a, ticks, ha, hticks, _, rfl⟩ := shifts_advance_eq_ok_iff.mp hs
    rw [ht] at hticks
    cases hticks
    refine .inr ⟨a, delay, ha, ?_, ?_⟩
    . dsimp only
      omega
    . dsimp only
      omega
  | delay ht =>
    obtain ⟨d, ticks, ha, hticks, _, rfl⟩ := shifts_delay_eq_ok_iff.mp hs
    rw [ht] at hticks
    cases hticks
    refine .inr ⟨advance, d, ha, ?_, ?_⟩
    . dsimp only
      omega
    . dsimp only
      omega

/--
Shifts are counted up to the defaults of triggers, so only inside of these an output can be shifted
further.
-/
theorem exists_default_of_descends {w x y z : Position α}
    (h : c.DescendsCounted step before after w x y) (hyz : c.Enters step y z) {advance delay : Nat}
    (hs : c.shifts step x.output = .ok (advance, delay))
    (hz : ¬(x.shift - delay ≤ z.shift ∧ z.shift ≤ x.shift + advance)) :
    ∃ device other unit s,
      c.DescendsCounted step before after w x ⟨.deviceTrigger device (some other), unit, s⟩
      ∧ c.devices.contains device = false
      ∧ c.DescendsCounted step before after w ⟨other, unit, s⟩ y := by
  -- the first step is taken off, since shifts are counted from the output that it enters
  induction h using Relation.ReflTransGen.head_induction_on generalizing advance delay with
  | refl =>
    rcases shifts_of_enters hyz hs with ⟨_, _, _, _, rfl, _, rfl⟩ | ⟨_, _, _, hl, hr⟩
    . dsimp only at hz
      omega
    . omega
  | head hxv hvy ih =>
    obtain ⟨hxv, hcounted⟩ := hxv
    rcases shifts_of_enters hxv hs with ⟨device, other, unit, s, rfl, hd, rfl⟩ | ⟨_, _, hs, hl, hr⟩
    . exact ⟨device, other, unit, s, .refl, hd, hvy⟩
    . obtain ⟨device, other, unit, s, hx, hd, hy⟩ := ih hs (by omega)
      exact ⟨device, other, unit, s, .head ⟨hxv, hcounted⟩ hx, hd, hy⟩

end Waveplan.ShotContext
