import Waveplan.Formula.Kernel
import Waveplan.Proofs.Instruction.EndToEnd
import Waveplan.Proofs.Lane.Analog

/-!
This module contains that the waveform of a digital lane holds the level of every block for the
ticks that the block covers: the ticks of consecutive blocks add up to those of the shot, without a
gap and without an overlap.
-/

namespace Waveplan

open Instruction

section Ticks

variable {α β : Type} [Number α] (t : StepTimes α) (step : TimeStep)

/--
That a block behind earlier blocks is around a tick.
-/
def Block.CoversTick (earlier : List (Block β)) (b : Block β) (tick : Nat) : Prop :=
  step.tickAt (t.bound (totalSpan earlier)) ≤ tick
    ∧ tick < step.tickAt (t.bound (totalSpan earlier + b.span.toNat))

/--
The samples of a lane whose blocks have levels: each level for the ticks of its block.
-/
def Block.held (levels : List (Block Bool)) : List Bool :=
  (placed 0 levels).flatMap fun (value, start, stop) =>
    List.replicate (step.ticksBetween (t.bound start) (t.bound stop)) value

/--
The waveform of a level between two steps.
-/
def Block.hold (level : Bool × Nat × Nat) : Instruction α :=
  Instruction.level level.1
    (step.ticksBetween (t.bound level.2.1) (t.bound level.2.2))

variable {t step}

/--
Every tick of the steps that blocks cover is one of a single block.
-/
theorem Block.existsUnique_coversTick (ht : t.TicksInOrder step) {blocks : List (Block β)}
    (hn : totalSpan blocks = t.size) {tick : Nat} (hstart : step.tickAt (t.bound 0) ≤ tick)
    (hstop : tick < step.tickAt (t.bound t.size)) :
    ∃! earlier, ∃ b later, blocks = earlier ++ b :: later ∧ CoversTick t step earlier b tick := by
  have hstart : step.tickAt (t.bound (totalSpan ([] : List (Block β)))) ≤ tick := hstart
  have hstop : ¬step.tickAt (t.bound (totalSpan ([] ++ blocks))) ≤ tick := by
    rw [List.nil_append, hn]
    exact not_le.mpr hstop
  obtain ⟨earlier, b, later, rfl, hb, hb'⟩ := exists_append_cons
    (P := fun i => step.tickAt (t.bound i) ≤ tick) hstart hstop
  refine ⟨earlier, ⟨b, later, rfl, hb, not_le.mp hb'⟩, ?_⟩
  rintro earlier' ⟨b', later', hsplit, hc, hc'⟩
  refine eq_of_append_cons (P := fun i => step.tickAt (t.bound i) ≤ tick)
    (fun i j hij hj => ?_) hsplit.symm hc (not_le.mpr hc') hb hb'
  rw [← hsplit, hn] at hj
  exact Nat.le_trans (ht i j hij hj)

theorem Block.CoversTick.lt_tickAt (ht : t.TicksInOrder step) {earlier later : List (Block β)}
    {b : Block β} (hn : totalSpan (earlier ++ b :: later) = t.size) {tick : Nat}
    (h : CoversTick t step earlier b tick) : tick < step.tickAt (t.bound t.size) := by
  rw [totalSpan_append, totalSpan_cons] at hn
  exact Nat.lt_of_lt_of_le h.2 (ht _ t.size (by omega) (Nat.le_refl _))

variable {levels earlier later : List (Block Bool)} {b : Block Bool}

theorem Block.forall₂_hold (levels : List (Block Bool)) :
    List.Forall₂ (HasTicks t step) (ranges levels)
      ((placed 0 levels).map (hold t step) : List (Instruction α)) := by
  have hl : (rangesFrom 0 levels).length ≤ (levels.map value).length := by
    rw [length_rangesFrom, List.length_map]
  rw [ranges, ← List.map_snd_zip hl, List.forall₂_map_left_iff, List.forall₂_map_right_iff,
    ← placed, List.forall₂_same]
  exact fun _ _ => length_level _ _

theorem Block.typed_hold : ∀ x ∈ ((placed 0 levels).map (hold t step) : List (Instruction α)),
    x.Typed .bool := by
  intro x hx
  obtain ⟨level, _, rfl⟩ := List.mem_map.mp hx
  exact typed_level _ _

theorem Block.toPattern_join_hold (levels : List (Block Bool)) :
    (join .bool ((placed 0 levels).map (hold t step)) : Instruction α).toPattern
      = .ofBools (held t step levels) := by
  rw [toPattern_join typed_hold, List.map_map, held, List.flatMap_def, ← Pattern.concat_ofBools,
    List.map_map]
  exact congrArg _ (List.map_congr_left fun level _ => toPattern_level _ _)

/--
At a tick of a block, a lane of blocks that are held has the level of the block.
-/
theorem Block.sampleAt_join_hold (ht : t.TicksInOrder step)
    (hs : totalSpan (earlier ++ b :: later) ≤ t.size) {k : Nat}
    (hk : CoversTick t step earlier b (step.tickAt (t.bound 0) + k)) :
    (join .bool ((placed 0 (earlier ++ b :: later)).map (hold t step)) : Instruction α).sampleAt k
      = ⟨[.bool b.value]⟩ := by
  have hsplit := hs
  rw [totalSpan_append, totalSpan_cons] at hsplit
  have hbefore : totalLength ((placed 0 earlier).map (hold t step) : List (Instruction α))
      = step.ticksBetween (t.bound 0) (t.bound (totalSpan earlier)) := by
    rw [totalLength_of_rangesFrom ht (by omega) (forall₂_hold earlier), Nat.zero_add]
  obtain ⟨hstart, hstop⟩ := hk
  have hfirst := ht 0 (totalSpan earlier) (Nat.zero_le _) (by omega)
  rw [TimeStep.ticksBetween] at hbefore
  have htyped : ∀ x ∈ ((placed 0 (earlier ++ b :: later)).map (hold t step) :
      List (Instruction α)), x.Typed .bool := typed_hold
  rw [placed_append_cons, List.map_append, List.map_cons] at htyped ⊢
  have hi : k = totalLength ((placed 0 earlier).map (hold t step) : List (Instruction α))
      + (step.tickAt (t.bound 0) + k - step.tickAt (t.bound (totalSpan earlier))) := by omega
  have hlt : step.tickAt (t.bound 0) + k - step.tickAt (t.bound (totalSpan earlier))
      < (hold t step (b.value, totalSpan earlier, totalSpan earlier + b.span.toNat) :
        Instruction α).length := by
    rw [hold, length_level, TimeStep.ticksBetween]
    dsimp only
    omega
  rw [sampleAt_join htyped (by rw [totalLength_append, totalLength]; omega)]
  conv_lhs => rw [hi]
  rw [sampleAtParts_append_cons hlt]
  exact sampleAt_level _ (by rwa [hold, length_level] at hlt)

end Ticks

/--
The block around a tick is the one at the time of the tick, below the last tick that a word can
count.
-/
theorem Block.coversTick_iff {β : Type} {t : StepTimes Exact} {step : TimeStep}
    {earlier : List (Block β)} {b : Block β} {k : Nat} (hk : k + 1 < wordModulus) :
    CoversTick t step earlier b k ↔ Covers t earlier b (k * (step.seconds : Exact).toRat) := by
  rw [CoversTick, Covers, step.tickAt_le_iff hk, ← not_le, step.tickAt_le_iff hk, not_le]
  rfl

namespace DigitalLane

variable {α : Type} [Number α] [Kernel α]

/--
The level of a block.
-/
inductive HasLevel (scope : Namespace α) : DigitalValue → Bool → Prop
  | literal (value : Bool) : HasLevel scope (.literal value) value
  | expression {e : Expression} {value : Bool} (h : e.evaluate scope = .ok (.bool value)) :
    HasLevel scope (.expression e) value

theorem level_eq_ok_iff {lane : String} {t : StepTimes α} {scope : Namespace α} {start : Nat}
    {v : DigitalValue} {value : Bool} :
    level lane t scope start v = .ok value ↔ HasLevel scope v value := by
  constructor
  . intro h
    unfold level at h
    split at h
    . cases h
      exact .literal _
    . split at h
      . next he =>
        cases h
        exact .expression he
      . cases h
      . cases h
  . rintro (_ | h)
    . rfl
    . rw [level]
      simp only [h]

/--
A block and the same block with its level.
-/
structure IsLeveled (scope : Namespace α) (b : Block DigitalValue) (level : Block Bool) : Prop where
  hasLevel : HasLevel scope b.value level.value
  span : level.span = b.span

/--
The waveform of a digital lane: at every tick there is one block, and the waveform has its level.
-/
structure HoldsBlocks (t : StepTimes α) (scope : Namespace α) (step : TimeStep)
    (blocks : List (Block DigitalValue)) (y : Instruction α) : Prop where
  length : y.length = step.tickAt (t.bound t.size) - step.tickAt (t.bound 0)
  length_eq_ticksBetween : y.length = step.ticksBetween (t.bound 0) (t.bound t.size)
  covered : ∀ k < y.length, ∃! earlier, ∃ b later, blocks = earlier ++ b :: later
    ∧ Block.CoversTick t step earlier b (step.tickAt (t.bound 0) + k)
  held : ∀ earlier b later (k : Nat), blocks = earlier ++ b :: later →
    Block.CoversTick t step earlier b (step.tickAt (t.bound 0) + k) →
    k < y.length ∧ ∃ value, HasLevel scope b.value value ∧ y.sampleAt k = ⟨[.bool value]⟩
  written : ∃ levels, List.Forall₂ (IsLeveled scope) blocks levels
    ∧ y.toPattern = .ofBools (Block.held t step levels)

section Compile

variable {t : StepTimes α} {scope : Namespace α} {step : TimeStep} {lane : String}
  {blocks : List (Block DigitalValue)} {y : Instruction α}

theorem exists_levels_of_forall₂ {start : Nat} {xs : List (Instruction α)}
    (h : List.Forall₂ (fun block x => ∃ value, HasLevel scope block.1.value value
      ∧ x = Block.hold t step (value, block.2)) (blocks.zip (Block.rangesFrom start blocks)) xs) :
    ∃ levels, List.Forall₂ (IsLeveled scope) blocks levels
      ∧ xs = (Block.placed start levels).map (Block.hold t step) := by
  induction blocks generalizing start xs with
  | nil =>
    cases h
    exact ⟨[], .nil, rfl⟩
  | cons b blocks ih =>
    rw [Block.rangesFrom, List.zip_cons_cons] at h
    cases h with
    | cons hx h =>
      obtain ⟨value, hvalue, rfl⟩ := hx
      obtain ⟨levels, hlevels, rfl⟩ := ih h
      exact ⟨⟨value, b.span⟩ :: levels, .cons ⟨hvalue, rfl⟩ hlevels, rfl⟩

/--
A lane is compiled block by block.
-/
theorem exists_levels (h : compile lane blocks t scope step = .ok y) :
    ∃ levels, List.Forall₂ (IsLeveled scope) blocks levels
      ∧ y = join .bool ((Block.placed 0 levels).map (Block.hold t step)) := by
  obtain ⟨_, hc, h⟩ := Outcome.bind_eq_ok_iff.mp h
  obtain ⟨xs, hxs, h⟩ := Outcome.bind_eq_ok_iff.mp h
  rw [Outcome.mapM_eq_ok_iff] at hxs
  have hheld : List.Forall₂ (fun block x => ∃ value, HasLevel scope block.1.value value
      ∧ x = Block.hold t step (value, block.2)) (blocks.zip (Block.ranges blocks)) xs := by
    apply hxs.imp
    rintro ⟨block, start, stop⟩ x hx
    obtain ⟨value, hvalue, hx⟩ := Outcome.bind_eq_ok_iff.mp hx
    exact ⟨value, level_eq_ok_iff.mp hvalue, (Except.ok.inj hx).symm⟩
  obtain ⟨levels, hlevels, rfl⟩ := exists_levels_of_forall₂ hheld
  exact ⟨levels, hlevels, joinBlocks_eq_ok Block.typed_hold h⟩

theorem totalSpan_of_isLeveled {levels : List (Block Bool)}
    (h : List.Forall₂ (IsLeveled scope) blocks levels) :
    Block.totalSpan levels = Block.totalSpan blocks := by
  induction h with
  | nil => rfl
  | cons hb _ ih => rw [Block.totalSpan_cons, Block.totalSpan_cons, ih, hb.span]

theorem holdsBlocks_of_ticksInOrder (ht : t.TicksInOrder step)
    (h : compile lane blocks t scope step = .ok y) :
    HoldsBlocks t scope step blocks y := by
  have hplays := playsBlocks_compile h
  have hspan := Block.totalSpan_of_checkSpan hplays.checked
  have hlength := hplays.length_eq_ticksBetween ht
  obtain ⟨levels, hlevels, rfl⟩ := exists_levels h
  refine ⟨hlength, hlength, ?_, ?_, levels, hlevels, Block.toPattern_join_hold levels⟩
  . intro k hk
    rw [hlength, TimeStep.ticksBetween] at hk
    exact Block.existsUnique_coversTick ht hspan (by omega) (by omega)
  . rintro earlier b later k rfl hk
    obtain ⟨levels₁, level, levels₂, rfl, hearlier, hlevel⟩ :=
      Outcome.exists_of_forall₂_append_cons hlevels
    refine ⟨?_, level.value, hlevel.hasLevel, ?_⟩
    . have := hk.lt_tickAt ht hspan
      rw [hlength, TimeStep.ticksBetween]
      omega
    . apply Block.sampleAt_join_hold ht
      . rw [totalSpan_of_isLeveled hlevels, hspan]
      . rwa [Block.CoversTick, totalSpan_of_isLeveled hearlier, hlevel.span]

/--
The waveform of a digital lane holds the levels of its blocks. The block around a tick is the one at
the time of the tick, wherever times are exact.
-/
theorem holdsBlocks_compile (ht : t.TicksInOrder step)
    (h : compile lane blocks t scope step = .ok y) :
    HoldsBlocks t scope step blocks y
      ∧ ∀ u : StepTimes Exact, u.bound 0 = Number.zero →
        ∀ (earlier : List (Block DigitalValue)) (b : Block DigitalValue), ∀ k < y.length,
          Block.CoversTick u step earlier b (step.tickAt (u.bound 0) + k)
            ↔ Block.Covers u earlier b (k * (step.seconds : Exact).toRat) := by
  have hholds := holdsBlocks_of_ticksInOrder ht h
  refine ⟨hholds, fun u hu earlier b k hk => ?_⟩
  have hlast := step.tickAt_le (t.bound t.size)
  have hlength := hholds.length
  rw [hu, step.tickAt_zero, Nat.zero_add, Block.coversTick_iff (by omega)]

end Compile

section Lanes

attribute [local instance] Exact.zeroFunctions

/--
Four levels of which the third one is shorter than a tick, and between two ticks.
-/
def flickeringBlocks : List (Block DigitalValue) :=
  [⟨.literal true, 1⟩, ⟨.expression ⟨"1 > 2"⟩, 1⟩, ⟨.literal true, 1⟩, ⟨.literal false, 1⟩]

def flickeringTimes : StepTimes Exact :=
  .ofDurations ["on", "off", "flicker", "end"] [Number.ofDecimal 2 (-6), Number.ofDecimal 5 (-7),
    Number.ofDecimal 2 (-7), Number.ofDecimal 2 (-6)]

theorem holdsBlocks_flickering : ∃ y,
    compile "gate" flickeringBlocks flickeringTimes .empty .microsecond = .ok y
      ∧ y.length = 5
      ∧ HoldsBlocks flickeringTimes .empty .microsecond flickeringBlocks y := by
  have h := Outcome.eq_ok_of_isOk (x := compile "gate" flickeringBlocks flickeringTimes .empty
    .microsecond) (by decide +kernel) (.level false 0)
  obtain ⟨hholds, _⟩ := holdsBlocks_compile
    ((StepTimes.ordered_ofDurations (by decide +kernel) _).ticksInOrder .microsecond) h
  exact ⟨_, h, hholds.length.trans (by decide +kernel), hholds⟩

end Lanes

end DigitalLane

end Waveplan
