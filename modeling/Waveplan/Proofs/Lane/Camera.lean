import Waveplan.Proofs.Lane.Digital

/-!
This module contains that every picture of a camera gets its exposure: a trigger is high during the
pictures and low otherwise, no picture is lost by rounding, and the names and exposures of the
pictures are listed in the order of the trigger.
-/

namespace Waveplan

open Instruction

section Splitting

variable {β : Type} {blocks : List (Block β)}

theorem Block.map_fst_placed (start : Nat) (blocks : List (Block β)) :
    (placed start blocks).map Prod.fst = blocks.map value := by
  apply List.map_fst_zip
  rw [length_rangesFrom, List.length_map]

/--
A value with its steps belongs to a block behind the blocks of the values before it.
-/
theorem Block.exists_of_placed_eq {before after : List (β × Nat × Nat)} {v : β × Nat × Nat}
    (h : placed 0 blocks = before ++ v :: after) :
    ∃ earlier b later, blocks = earlier ++ b :: later ∧ before = placed 0 earlier
      ∧ v = (b.value, totalSpan earlier, totalSpan earlier + b.span.toNat) := by
  have hvalues := congrArg (List.map Prod.fst) h
  rw [map_fst_placed, List.map_append, List.map_cons] at hvalues
  obtain ⟨earlier, rest, rfl, hearlier, hrest⟩ := List.map_eq_append_iff.mp hvalues
  obtain ⟨b, later, rfl, _, _⟩ := List.map_eq_cons_iff.mp hrest
  rw [placed_append_cons] at h
  have hl : (placed 0 earlier).length = before.length := by
    have := congrArg List.length (map_fst_placed 0 earlier)
    rw [hearlier, List.length_map, List.length_map] at this
    exact this
  obtain ⟨hbefore, hv⟩ := List.append_inj h hl
  exact ⟨earlier, b, later, rfl, hbefore.symm, (List.cons.inj hv).1.symm⟩

theorem Block.mem_placed_iff {v : β × Nat × Nat} :
    v ∈ placed 0 blocks ↔ ∃ earlier b later, blocks = earlier ++ b :: later
      ∧ v = (b.value, totalSpan earlier, totalSpan earlier + b.span.toNat) := by
  constructor
  . intro hv
    obtain ⟨before, after, h⟩ := List.append_of_mem hv
    obtain ⟨earlier, b, later, hblocks, _, hv⟩ := exists_of_placed_eq h
    exact ⟨earlier, b, later, hblocks, hv⟩
  . rintro ⟨earlier, b, later, rfl, rfl⟩
    rw [placed_append_cons]
    exact List.mem_append_right _ List.mem_cons_self

end Splitting

namespace CameraLane

section Trigger

variable {α : Type} [Number α] {t : StepTimes α} {step : TimeStep} {lane : String}
  {blocks : List (Block (Option Picture))} {y : Instruction α}

/--
The levels of the trigger of a camera.
-/
def levels (blocks : List (Block (Option Picture))) : List (Block Bool) :=
  blocks.map fun b => ⟨b.value.isSome, b.span⟩

theorem placed_levels (start : Nat) (blocks : List (Block (Option Picture))) :
    Block.placed start (levels blocks)
      = (Block.placed start blocks).map fun v => (v.1.isSome, v.2) := by
  induction blocks generalizing start with
  | nil => rfl
  | cons b blocks ih =>
    rw [levels, List.map_cons, Block.placed_cons, Block.placed_cons, List.map_cons, ← ih]
    rfl

theorem totalSpan_levels (blocks : List (Block (Option Picture))) :
    Block.totalSpan (levels blocks) = Block.totalSpan blocks := by
  induction blocks with
  | nil => rfl
  | cons b blocks ih =>
    rw [levels, List.map_cons, Block.totalSpan_cons, Block.totalSpan_cons, ← ih]
    rfl

/--
The error of a picture between two steps that covers no tick.
-/
def tooShort (lane : String) (t : StepTimes α) (step : TimeStep) (picture : Picture)
    (start stop : Nat) : LaneError α :=
  .pictureTooShort lane (t.name start) picture.name
    ((t.bound stop - t.bound start) * Number.ofDecimal 1 9) step

/--
The part of the trigger of what is between two steps.
-/
def exposure (lane : String) (t : StepTimes α) (step : TimeStep) :
    Option Picture × Nat × Nat → Except (LaneError α) (Instruction α)
  | (some picture, start, stop) =>
    if step.ticksBetween (t.bound start) (t.bound stop) = 0 then
      .error (tooShort lane t step picture start stop)
    else
      .ok (Block.hold t step (true, start, stop))
  | (none, start, stop) => .ok (Block.hold t step (false, start, stop))

theorem trigger_eq (lane : String) (blocks : List (Block (Option Picture))) (t : StepTimes α)
    (step : TimeStep) :
    trigger lane blocks t step = (do
      Block.checkSpan lane blocks t.size
      let xs ← (Block.placed 0 blocks).mapM (exposure lane t step)
      joinBlocks .bool xs) := by
  have hplaced : Block.placed 0 blocks
      = (blocks.zip (Block.ranges blocks)).map fun b => (b.1.value, b.2) := by
    rw [Block.placed, Block.ranges, List.zip_map_left]
    rfl
  rw [trigger, hplaced, List.mapM_map]
  congr 2
  funext
  congr 2
  funext v
  obtain ⟨b, start, stop⟩ := v
  dsimp only [Function.comp_apply]
  cases b.value with
  | none => rfl
  | some picture =>
    cases hn : step.ticksBetween (t.bound start) (t.bound stop) with
    | zero =>
      rw [exposure, if_pos hn]
      rfl
    | succ n =>
      rw [exposure, if_neg (by omega), Block.hold, hn]
      rfl

theorem exposure_eq_ok_iff {v : Option Picture × Nat × Nat} {x : Instruction α} :
    exposure lane t step v = .ok x
      ↔ x = Block.hold t step (v.1.isSome, v.2)
        ∧ (v.1.isSome → step.ticksBetween (t.bound v.2.1) (t.bound v.2.2) ≠ 0) := by
  obtain ⟨picture, start, stop⟩ := v
  cases picture with
  | none => simp [exposure, eq_comm]
  | some picture =>
    rw [exposure]
    split
    . next h => simp [h]
    . next h => simp [h, eq_comm]

theorem exposure_eq_error_iff {v : Option Picture × Nat × Nat} {e : LaneError α} :
    exposure lane t step v = .error e
      ↔ ∃ picture, v.1 = some picture ∧ step.ticksBetween (t.bound v.2.1) (t.bound v.2.2) = 0
        ∧ e = tooShort lane t step picture v.2.1 v.2.2 := by
  obtain ⟨picture, start, stop⟩ := v
  cases picture with
  | none => simp [exposure]
  | some picture =>
    rw [exposure]
    split
    . next h => simp [h, eq_comm]
    . next h => simp [h]

theorem mapM_exposure_eq_ok_iff {vs : List (Option Picture × Nat × Nat)}
    {xs : List (Instruction α)} :
    vs.mapM (exposure lane t step) = .ok xs
      ↔ (∀ v ∈ vs, v.1.isSome → step.ticksBetween (t.bound v.2.1) (t.bound v.2.2) ≠ 0)
        ∧ xs = vs.map fun v => Block.hold t step (v.1.isSome, v.2) := by
  simp only [Outcome.mapM_eq_ok_iff, exposure_eq_ok_iff, and_comm (a := _ = _)]
  rw [List.forall₂_and_left, @eq_comm _ xs, ← List.forall₂_eq_eq_eq, List.forall₂_map_left_iff]
  simp only [eq_comm]

theorem map_hold_placed_levels (blocks : List (Block (Option Picture))) :
    ((Block.placed 0 blocks).map fun v => Block.hold t step (v.1.isSome, v.2))
      = (Block.placed 0 (levels blocks)).map (Block.hold t step) := by
  rw [placed_levels, List.map_map]
  rfl

/--
The levels of blocks that cover the steps of the shot are not too long together.
-/
theorem joinBlocks_hold (ht : t.TicksInOrder step) (hn : Block.totalSpan blocks = t.size) :
    joinBlocks .bool ((Block.placed 0 (levels blocks)).map (Block.hold t step))
      = (.ok (join .bool ((Block.placed 0 (levels blocks)).map (Block.hold t step))) :
        Except (LaneError α) (Instruction α)) := by
  apply joinBlocks_of_lt Block.typed_hold
  rw [totalLength_of_hasTicks (Block.forall₂_hold _),
    sum_ticksBetween_ranges ht (by rw [totalSpan_levels, hn])]
  exact step.ticksBetween_lt _ _

theorem trigger_of_checkSpan (hc : Block.checkSpan (α := α) lane blocks t.size = .ok ()) :
    trigger lane blocks t step
      = (Block.placed 0 blocks).mapM (exposure lane t step) >>= joinBlocks .bool := by
  rw [trigger_eq, hc]
  rfl

/--
The trigger consists of the levels of the blocks, if no picture falls between two ticks.
-/
theorem trigger_eq_ok_iff (ht : t.TicksInOrder step)
    (hc : Block.checkSpan (α := α) lane blocks t.size = .ok ()) :
    trigger lane blocks t step = .ok y
      ↔ (∀ v ∈ Block.placed 0 blocks, v.1.isSome →
          step.ticksBetween (t.bound v.2.1) (t.bound v.2.2) ≠ 0)
        ∧ y = join .bool ((Block.placed 0 (levels blocks)).map (Block.hold t step)) := by
  rw [trigger_of_checkSpan hc, Outcome.bind_eq_ok_iff]
  simp only [mapM_exposure_eq_ok_iff, map_hold_placed_levels]
  constructor
  . rintro ⟨xs, ⟨hpictures, rfl⟩, h⟩
    rw [joinBlocks_hold ht (Block.totalSpan_of_checkSpan hc)] at h
    exact ⟨hpictures, (Except.ok.inj h).symm⟩
  . rintro ⟨hpictures, rfl⟩
    exact ⟨_, ⟨hpictures, rfl⟩, joinBlocks_hold ht (Block.totalSpan_of_checkSpan hc)⟩

/--
The error of the trigger is that of the first picture between two ticks.
-/
theorem trigger_eq_error_iff (ht : t.TicksInOrder step)
    (hc : Block.checkSpan (α := α) lane blocks t.size = .ok ()) {e : LaneError α} :
    trigger lane blocks t step = .error e
      ↔ ∃ before v after, Block.placed 0 blocks = before ++ v :: after
        ∧ (∀ w ∈ before, w.1.isSome →
          step.ticksBetween (t.bound w.2.1) (t.bound w.2.2) ≠ 0)
        ∧ exposure lane t step v = .error e := by
  have hmapM : trigger lane blocks t step = .error e
      ↔ (Block.placed 0 blocks).mapM (exposure lane t step) = .error e := by
    rw [trigger_of_checkSpan hc]
    cases hxs : (Block.placed 0 blocks).mapM (exposure lane t step) with
    | error e' => simp [bind, Except.bind]
    | ok xs =>
      obtain ⟨_, rfl⟩ := mapM_exposure_eq_ok_iff.mp hxs
      simp [map_hold_placed_levels, joinBlocks_hold ht (Block.totalSpan_of_checkSpan hc), bind,
        Except.bind]
  have hok (w : Option Picture × Nat × Nat) : (∃ x, exposure lane t step w = .ok x)
      ↔ (w.1.isSome → step.ticksBetween (t.bound w.2.1) (t.bound w.2.2) ≠ 0) := by
    simp only [exposure_eq_ok_iff, exists_eq_left]
  rw [hmapM, Outcome.mapM_eq_error_iff]
  simp only [hok]

end Trigger

section Pictures

variable {α : Type} [Number α] (t : StepTimes α) (step : TimeStep)

/--
That every picture covers a tick.
-/
def AreExposed (blocks : List (Block (Option Picture))) : Prop :=
  ∀ earlier b later, blocks = earlier ++ b :: later → b.value.isSome →
    ∃ tick, Block.CoversTick t step earlier b tick

/--
A trigger that is high at a tick if the block around it holds a picture.
-/
structure IsHighDuringPictures (blocks : List (Block (Option Picture))) (y : Instruction α) :
    Prop where
  length : y.length = step.ticksBetween Number.zero t.duration
  covered : ∀ k < y.length, ∃! earlier, ∃ b later, blocks = earlier ++ b :: later
    ∧ Block.CoversTick t step earlier b (step.tickAt (t.bound 0) + k)
  sampleAt : ∀ earlier b later k, blocks = earlier ++ b :: later →
    Block.CoversTick t step earlier b (step.tickAt (t.bound 0) + k) →
    k < y.length ∧ y.sampleAt k = ⟨[.bool b.value.isSome]⟩

/--
The number of pictures in some blocks.
-/
def countPictures (blocks : List (Block (Option Picture))) : Nat :=
  blocks.countP fun b => b.value.isSome

/--
The exposure of a picture behind earlier blocks.
-/
def exposureOf (earlier : List (Block (Option Picture))) (b : Block (Option Picture)) : α :=
  sum ((t.durations.take (Block.totalSpan earlier + b.span.toNat)).drop
    (Block.totalSpan earlier))

/--
The names and exposures of the pictures of a lane, one for each picture and in their order.
-/
structure ListsPictures (blocks : List (Block (Option Picture))) : Prop where
  length_pictureNames : (pictureNames blocks).length = countPictures blocks
  length_exposures : (exposures blocks t).length = countPictures blocks
  picture : ∀ earlier b later picture, blocks = earlier ++ b :: later → b.value = some picture →
    (pictureNames blocks)[countPictures earlier]? = some picture.name
      ∧ (exposures blocks t)[countPictures earlier]? = some (exposureOf t earlier b)

/--
The trigger of a camera, which fails only for a picture that covers no tick, and what is listed of
the pictures.
-/
structure TakesPictures (lane : String) (blocks : List (Block (Option Picture))) : Prop where
  exists_iff : (∃ y, trigger lane blocks t step = .ok y) ↔ AreExposed t step blocks
  error_iff : ∀ e, trigger lane blocks t step = .error e
    ↔ ∃ earlier b later picture, blocks = earlier ++ b :: later ∧ b.value = some picture
      ∧ AreExposed t step earlier ∧ (¬∃ tick, Block.CoversTick t step earlier b tick)
      ∧ e = tooShort lane t step picture (Block.totalSpan earlier)
        (Block.totalSpan earlier + b.span.toNat)
  high : ∀ y, trigger lane blocks t step = .ok y → IsHighDuringPictures t step blocks y
  listed : ListsPictures t blocks

variable {t step} {lane : String} {blocks : List (Block (Option Picture))} {y : Instruction α}

theorem exists_coversTick_iff {β : Type} {earlier : List (Block β)} {b : Block β} :
    (∃ tick, Block.CoversTick t step earlier b tick)
      ↔ step.ticksBetween (t.bound (Block.totalSpan earlier))
        (t.bound (Block.totalSpan earlier + b.span.toNat)) ≠ 0 := by
  rw [TimeStep.ticksBetween]
  constructor
  . rintro ⟨tick, hstart, hstop⟩
    omega
  . intro h
    exact ⟨_, Nat.le_refl _, by omega⟩

theorem areExposed_iff :
    AreExposed t step blocks ↔ ∀ v ∈ Block.placed 0 blocks, v.1.isSome →
      step.ticksBetween (t.bound v.2.1) (t.bound v.2.2) ≠ 0 := by
  simp only [AreExposed, exists_coversTick_iff, Block.mem_placed_iff]
  constructor
  . rintro h _ ⟨earlier, b, later, hblocks, rfl⟩
    exact h earlier b later hblocks
  . intro h earlier b later hblocks
    exact h _ ⟨earlier, b, later, hblocks, rfl⟩

theorem isHighDuringPictures_trigger {names : List String} {durations : List α}
    (htimes : t = .ofDurations names durations) (ht : t.TicksInOrder step)
    (hc : Block.checkSpan (α := α) lane blocks t.size = .ok ())
    (h : trigger lane blocks t step = .ok y) : IsHighDuringPictures t step blocks y := by
  have hn := Block.totalSpan_of_checkSpan hc
  have hlength := (playsBlocks_trigger h).length_eq_ticksBetween ht
  obtain ⟨_, rfl⟩ := (trigger_eq_ok_iff ht hc).mp h
  have hshot : step.ticksBetween (t.bound 0) (t.bound t.size)
      = step.ticksBetween Number.zero t.duration := by
    subst htimes
    rw [StepTimes.bound_zero_ofDurations, ← StepTimes.bound_size_ofDurations]
    rfl
  refine ⟨hlength.trans hshot, ?_, ?_⟩
  . intro k hk
    rw [hlength, TimeStep.ticksBetween] at hk
    exact Block.existsUnique_coversTick ht hn (by omega) (by omega)
  . rintro earlier b later k rfl hk
    have hstop := hk.lt_tickAt ht hn
    refine ⟨by rw [hlength, TimeStep.ticksBetween]; omega, ?_⟩
    have hlevels : levels (earlier ++ b :: later)
        = levels earlier ++ ⟨b.value.isSome, b.span⟩ :: levels later := by
      rw [levels, List.map_append, List.map_cons]
      rfl
    have hspan := totalSpan_levels (earlier ++ b :: later)
    rw [hlevels] at hspan ⊢
    apply Block.sampleAt_join_hold ht
    . rw [hspan, hn]
    . rwa [Block.CoversTick, totalSpan_levels]

theorem pictureNames_append (earlier later : List (Block (Option Picture))) :
    pictureNames (earlier ++ later) = pictureNames earlier ++ pictureNames later :=
  List.filterMap_append

theorem length_pictureNames (blocks : List (Block (Option Picture))) :
    (pictureNames blocks).length = countPictures blocks := by
  rw [pictureNames, List.length_filterMap_eq_countP, countPictures]
  simp only [Option.isSome_map]

/--
The exposures of the pictures among some blocks, from a step on.
-/
def exposuresFrom (t : StepTimes α) (vs : List (Option Picture × Nat × Nat)) : List α :=
  vs.filterMap fun v => v.1.map fun _ => sum ((t.durations.take v.2.2).drop v.2.1)

theorem exposures_eq (blocks : List (Block (Option Picture))) (t : StepTimes α) :
    exposures blocks t = exposuresFrom t (Block.placed 0 blocks) := by
  rw [exposures, exposuresFrom, Block.placed, Block.ranges, List.zip_map_left,
    List.filterMap_map]
  rfl

theorem length_exposuresFrom (start : Nat) (blocks : List (Block (Option Picture))) :
    (exposuresFrom t (Block.placed start blocks)).length = countPictures blocks := by
  have h := congrArg (List.countP Option.isSome) (Block.map_fst_placed start blocks)
  rw [List.countP_map, List.countP_map] at h
  rw [exposuresFrom, List.length_filterMap_eq_countP]
  simp only [Option.isSome_map]
  exact h

theorem listsPictures : ListsPictures t blocks := by
  refine ⟨length_pictureNames blocks, ?_, ?_⟩
  . rw [exposures_eq, length_exposuresFrom]
  . rintro earlier b later picture rfl hp
    constructor
    . rw [pictureNames_append, List.getElem?_append_right (by rw [length_pictureNames]),
        length_pictureNames, Nat.sub_self, pictureNames]
      simp [hp]
    . have hl := length_exposuresFrom (t := t) 0 earlier
      rw [exposures_eq, Block.placed_append_cons, exposuresFrom, List.filterMap_append]
      rw [exposuresFrom] at hl
      rw [List.getElem?_append_right (by rw [hl]), hl, Nat.sub_self]
      simp [hp, exposureOf]

/--
The trigger of a camera whose blocks cover the steps of the shot.
-/
theorem takesPictures_of_ticksInOrder {names : List String} {durations : List α}
    (htimes : t = .ofDurations names durations) (ht : t.TicksInOrder step)
    (hc : Block.checkSpan (α := α) lane blocks t.size = .ok ()) :
    TakesPictures t step lane blocks := by
  refine ⟨?_, ?_, fun y => isHighDuringPictures_trigger htimes ht hc, listsPictures⟩
  . simp only [trigger_eq_ok_iff ht hc, areExposed_iff]
    exact ⟨fun ⟨_, h, _⟩ => h, fun h => ⟨_, h, rfl⟩⟩
  . intro e
    rw [trigger_eq_error_iff ht hc]
    constructor
    . rintro ⟨before, v, after, hplaced, hbefore, he⟩
      obtain ⟨earlier, b, later, rfl, rfl, rfl⟩ := Block.exists_of_placed_eq hplaced
      obtain ⟨picture, hp, hticks, rfl⟩ := exposure_eq_error_iff.mp he
      refine ⟨earlier, b, later, picture, rfl, hp, areExposed_iff.mpr hbefore, ?_, rfl⟩
      rw [exists_coversTick_iff]
      exact not_not.mpr hticks
    . rintro ⟨earlier, b, later, picture, rfl, hp, hearlier, hb, rfl⟩
      rw [exists_coversTick_iff, not_not] at hb
      exact ⟨_, _, _, Block.placed_append_cons _ _ _, areExposed_iff.mp hearlier,
        exposure_eq_error_iff.mpr ⟨picture, hp, hb, rfl⟩⟩

end Pictures

section Exact

theorem toRat_sum (durations : List Exact) :
    (sum durations).toRat = (durations.map Exact.toRat).sum := by
  have hfold (total : Exact) : (durations.foldl (· + ·) total).toRat
      = total.toRat + (durations.map Exact.toRat).sum := by
    induction durations generalizing total with
    | nil => simp
    | cons d durations ih =>
      rw [List.foldl_cons, ih, Exact.toRat_add, List.map_cons, List.sum_cons, add_assoc]
  have hzero : (-Number.zero : Exact).toRat = 0 := neg_zero
  rw [sum, hfold, hzero, zero_add]

/--
The exposure of a picture is the time between its first step and the first one after it.
-/
theorem toRat_sum_between {names : List String} {durations : List Exact} {start stop : Nat}
    (hle : start ≤ stop) (hs : stop ≤ durations.length) :
    (sum ((durations.take stop).drop start)).toRat
      = ((StepTimes.ofDurations names durations).bound stop).toRat
        - ((StepTimes.ofDurations names durations).bound start).toRat := by
  have htake := List.take_append_drop start (durations.take stop)
  rw [List.take_take, Nat.min_eq_left hle] at htake
  rw [StepTimes.toRat_bound (Nat.le_trans hle hs), StepTimes.toRat_bound hs, toRat_sum]
  conv_rhs => rw [← htake]
  rw [List.map_append, List.sum_append]
  ring

/--
That a time is not after the last tick that a word can count, and not before the first one.
-/
structure IsCounted (step : TimeStep) (time : Exact) : Prop where
  nonneg : 0 ≤ time.toRat
  le : time.toRat ≤ (wordModulus - 1 : Nat) * (step.seconds : Exact).toRat

theorem IsCounted.tickAt_eq_ceil {step : TimeStep} {time : Exact} (h : IsCounted step time) :
    step.tickAt time = ⌈time.toRat / (step.seconds : Exact).toRat⌉₊ := by
  rw [step.tickAt_eq, Word.nearest, Nat.min_eq_left]
  rw [Nat.ceil_le, div_le_iff₀ step.toRat_seconds_pos]
  exact h.le

/--
Rounding both ends of a picture up to ticks changes its duration by less than a tick.
-/
theorem abs_ticksBetween_sub_lt {step : TimeStep} {a b : Exact} (ha : IsCounted step a)
    (hb : IsCounted step b) (hab : step.tickAt a ≤ step.tickAt b) :
    |(step.ticksBetween a b : ℚ) - (b.toRat - a.toRat) / (step.seconds : Exact).toRat| < 1 := by
  have hs := step.toRat_seconds_pos
  have ha₁ := Nat.le_ceil (a.toRat / (step.seconds : Exact).toRat)
  have ha₂ := Nat.ceil_lt_add_one (div_nonneg ha.nonneg hs.le)
  have hb₁ := Nat.le_ceil (b.toRat / (step.seconds : Exact).toRat)
  have hb₂ := Nat.ceil_lt_add_one (div_nonneg hb.nonneg hs.le)
  rw [TimeStep.ticksBetween, Nat.cast_sub hab, ha.tickAt_eq_ceil, hb.tickAt_eq_ceil, sub_div,
    abs_lt]
  constructor <;> linarith

theorem abs_ticksBetween_sub_exposureOf_lt {names : List String} {durations : List Exact}
    {u : StepTimes Exact} {step : TimeStep} (hu : u = .ofDurations names durations)
    (ht : u.TicksInOrder step) {earlier later : List (Block (Option Picture))}
    {b : Block (Option Picture)} (hs : Block.totalSpan (earlier ++ b :: later) = u.size)
    (hstart : IsCounted step (Block.startTime u earlier))
    (hstop : IsCounted step (Block.stopTime u earlier b)) :
    |(step.ticksBetween (Block.startTime u earlier) (Block.stopTime u earlier b) : ℚ)
      - (exposureOf u earlier b).toRat / (step.seconds : Exact).toRat| < 1 := by
  rw [Block.totalSpan_append, Block.totalSpan_cons] at hs
  have hexposure : (exposureOf u earlier b).toRat
      = (Block.stopTime u earlier b).toRat - (Block.startTime u earlier).toRat := by
    subst hu
    change Block.totalSpan earlier + (b.span.toNat + Block.totalSpan later)
      = durations.length at hs
    have hle : Block.totalSpan earlier + b.span.toNat ≤ durations.length := by omega
    exact toRat_sum_between (Nat.le_add_right _ _) hle
  rw [hexposure]
  apply abs_ticksBetween_sub_lt hstart hstop
  exact ht _ _ (Nat.le_add_right _ _) (by omega)

end Exact

/--
Every picture gets its exposure, if the blocks are accepted: no picture is lost, and the ticks of a
picture are its exposure up to less than one tick wherever times are exact and have ticks of their
own.
-/
theorem takesPictures_trigger {α : Type} [Number α] {t : StepTimes α} {step : TimeStep}
    {lane : String} {blocks : List (Block (Option Picture))} {names : List String}
    {durations : List α} (htimes : t = .ofDurations names durations) (ht : t.TicksInOrder step)
    (hc : Block.checkSpan (α := α) lane blocks t.size = .ok ()) :
    TakesPictures t step lane blocks
      ∧ ∀ (names : List String) (exact : List Exact) (u : StepTimes Exact),
        u = .ofDurations names exact → u.size = t.size → u.TicksInOrder step →
        ∀ earlier b later, blocks = earlier ++ b :: later →
          IsCounted step (Block.startTime u earlier) → IsCounted step (Block.stopTime u earlier b) →
          |(step.ticksBetween (Block.startTime u earlier) (Block.stopTime u earlier b) : ℚ)
            - (exposureOf u earlier b).toRat / (step.seconds : Exact).toRat| < 1 := by
  refine ⟨takesPictures_of_ticksInOrder htimes ht hc, ?_⟩
  rintro names exact u hu hsize hinOrder earlier b later rfl hstart hstop
  exact abs_ticksBetween_sub_exposureOf_lt hu hinOrder
    ((Block.totalSpan_of_checkSpan hc).trans hsize.symm) hstart hstop

section Lanes

/--
A lane with two pictures, of which the first one lasts for two steps.
-/
def twoPictures : List (Block (Option Picture)) :=
  [⟨none, 1⟩, ⟨some ⟨"atoms"⟩, 2⟩, ⟨none, 1⟩, ⟨some ⟨"background"⟩, 1⟩]

def twoPicturesTimes : StepTimes Exact :=
  .ofDurations ["load", "probe", "wait", "hold", "dark"] [Number.ofDecimal 15 (-7),
    Number.ofDecimal 2 (-6), Number.ofDecimal 1 (-6), Number.ofDecimal 3 (-6),
    Number.ofDecimal 22 (-7)]

theorem takesPictures_twoPictures : ∃ y,
    trigger "camera" twoPictures twoPicturesTimes .microsecond = .ok y ∧ y.length = 10
      ∧ y.sampleAt 2 = ⟨[.bool true]⟩ ∧ y.sampleAt 5 = ⟨[.bool false]⟩
      ∧ TakesPictures twoPicturesTimes .microsecond "camera" twoPictures := by
  have h := Outcome.eq_ok_of_isOk (x := trigger "camera" twoPictures twoPicturesTimes .microsecond)
    (by decide +kernel) (.level false 0)
  have hchecked : Block.checkSpan (α := Exact) "camera" twoPictures twoPicturesTimes.size
      = .ok () := rfl
  obtain ⟨htakes, _⟩ := takesPictures_trigger rfl
    ((StepTimes.ordered_ofDurations (by decide +kernel) _).ticksInOrder .microsecond) hchecked
  have hhigh := htakes.high _ h
  refine ⟨_, h, hhigh.length.trans (by decide +kernel), ?_, ?_, htakes⟩
  . exact (hhigh.sampleAt [⟨none, 1⟩] ⟨some ⟨"atoms"⟩, 2⟩ _ 2 rfl
      ⟨by decide +kernel, by decide +kernel⟩).2
  . exact (hhigh.sampleAt [⟨none, 1⟩, ⟨some ⟨"atoms"⟩, 2⟩] ⟨none, 1⟩ _ 5 rfl
      ⟨by decide +kernel, by decide +kernel⟩).2

/--
A picture of more nanoseconds than a machine word can count.
-/
def endlessPicture : Block (Option Picture) := ⟨some ⟨"atoms"⟩, 1⟩

theorem ticksBetween_endlessPicture : ∃ y,
    Block.checkSpan (α := Exact) "camera" [endlessPicture] AnalogLane.endlessStep.size = .ok ()
      ∧ AnalogLane.endlessStep.TicksInOrder AnalogLane.nanosecondStep
      ∧ trigger "camera" [endlessPicture] AnalogLane.endlessStep AnalogLane.nanosecondStep = .ok y
      ∧ y.length = 2 ^ 64 - 1
      ∧ ¬|(AnalogLane.nanosecondStep.ticksBetween (AnalogLane.endlessStep.bound 0)
            (Block.stopTime AnalogLane.endlessStep [] endlessPicture) : ℚ)
          - (exposureOf AnalogLane.endlessStep [] endlessPicture).toRat
            / (AnalogLane.nanosecondStep.seconds : Exact).toRat| < 1 := by
  have h := Outcome.eq_ok_of_isOk (x := trigger "camera" [endlessPicture] AnalogLane.endlessStep
    AnalogLane.nanosecondStep) (by decide +kernel) (.level false 0)
  exact ⟨_, rfl, (StepTimes.ordered_ofDurations (by decide +kernel) _).ticksInOrder _, h,
    by decide +kernel, by decide +kernel⟩

end Lanes

end CameraLane

end Waveplan
