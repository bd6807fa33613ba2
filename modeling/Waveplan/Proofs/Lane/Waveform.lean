import Waveplan.Lane.Analog
import Waveplan.Lane.Camera
import Waveplan.Lane.Digital
import Waveplan.Proofs.Lane.Steps

/-!
This module contains that the waveform of a lane is in normal form, and that it has the ticks of the
shot.
-/

namespace Waveplan

namespace Block

variable {β : Type}

theorem totalSpan_cons (b : Block β) (later : List (Block β)) :
    totalSpan (b :: later) = b.span.toNat + totalSpan later :=
  rfl

theorem totalSpan_append (earlier later : List (Block β)) :
    totalSpan (earlier ++ later) = totalSpan earlier + totalSpan later := by
  induction earlier with
  | nil => rw [List.nil_append, totalSpan, Nat.zero_add]
  | cons b earlier ih => rw [List.cons_append, totalSpan_cons, totalSpan_cons, ih, Nat.add_assoc]

/--
The steps of a lane are checked in this order: that no block is empty, that the steps of the blocks
can be added up, and that they are as many as those of the shot.
-/
theorem checkSpan_eq {α : Type} (lane : String) (blocks : List (Block β)) (steps : Nat) :
    checkSpan (α := α) lane blocks steps
      = if 0 ∈ blocks.map span then .error (.emptyBlock lane)
        else if wordModulus ≤ totalSpan blocks then .error .overflow
        else if totalSpan blocks = steps then .ok ()
        else .error (.spanMismatch lane steps (totalSpan blocks)) := by
  unfold checkSpan
  simp only [List.any_eq_true, decide_eq_true_eq, List.mem_map]
  split
  . rfl
  . by_cases hw : wordModulus ≤ totalSpan blocks
    . rw [Word.checked_of_le hw, if_pos hw]
      rfl
    . rw [Word.checked_of_lt (Nat.lt_of_not_le hw), if_neg hw]
      rfl

theorem checkSpan_eq_ok_iff {α : Type} {lane : String} {blocks : List (Block β)} {steps : Nat} :
    checkSpan (α := α) lane blocks steps = .ok ()
      ↔ (∀ b ∈ blocks, b.span ≠ 0) ∧ totalSpan blocks < wordModulus
        ∧ totalSpan blocks = steps := by
  rw [checkSpan_eq]
  split
  . next h =>
    obtain ⟨b, hb, h⟩ := List.mem_map.mp h
    exact iff_of_false (by simp) fun h' => h'.1 b hb h
  . next h =>
    have hspans : ∀ b ∈ blocks, b.span ≠ 0 := by simpa using h
    split
    . next hw => exact iff_of_false (by simp) fun h' => Nat.not_lt_of_le hw h'.2.1
    . next hw =>
      split
      . next hs => exact iff_of_true rfl ⟨hspans, Nat.lt_of_not_le hw, hs⟩
      . next hs => exact iff_of_false (by simp) fun h' => hs h'.2.2

theorem totalSpan_of_checkSpan {α : Type} {lane : String} {blocks : List (Block β)} {steps : Nat}
    (h : checkSpan (α := α) lane blocks steps = .ok ()) : totalSpan blocks = steps :=
  (checkSpan_eq_ok_iff.mp h).2.2

section Search

variable {P : Nat → Prop}

/--
Some block begins at a step with a property and ends at one without it.
-/
theorem exists_append_cons {first rest : List (Block β)} (hs : P (totalSpan first))
    (he : ¬P (totalSpan (first ++ rest))) :
    ∃ earlier b later, first ++ rest = earlier ++ b :: later ∧ P (totalSpan earlier)
      ∧ ¬P (totalSpan earlier + b.span.toNat) := by
  induction rest generalizing first with
  | nil =>
    rw [List.append_nil] at he
    exact absurd hs he
  | cons b rest ih =>
    by_cases hb : P (totalSpan first + b.span.toNat)
    . rw [List.append_cons] at he ⊢
      apply ih _ he
      rw [totalSpan_append]
      simpa [totalSpan] using hb
    . exact ⟨first, b, rest, rfl, hs, hb⟩

/--
There is one such block at most, if the property does not come back.
-/
theorem eq_of_append_cons {earlier later earlier' later' : List (Block β)} {b b' : Block β}
    (hP : ∀ i j, i ≤ j → j ≤ totalSpan (earlier ++ b :: later) → P j → P i)
    (h : earlier ++ b :: later = earlier' ++ b' :: later') (hs : P (totalSpan earlier))
    (he : ¬P (totalSpan earlier + b.span.toNat)) (hs' : P (totalSpan earlier'))
    (he' : ¬P (totalSpan earlier' + b'.span.toNat)) : earlier = earlier' := by
  rcases List.append_eq_append_iff.mp h with ⟨between, rfl, hb⟩ | ⟨between, rfl, hb⟩
  . cases between with
    | nil => exact (List.append_nil earlier).symm
    | cons c between =>
      rw [List.cons_append] at hb
      obtain ⟨rfl, rfl⟩ := List.cons.inj hb
      refine absurd (hP _ _ ?_ ?_ hs') he
      all_goals
        simp only [totalSpan_append, totalSpan_cons]
        omega
  . cases between with
    | nil => exact List.append_nil earlier'
    | cons c between =>
      rw [List.cons_append] at hb
      obtain ⟨rfl, rfl⟩ := List.cons.inj hb
      refine absurd (hP _ _ ?_ ?_ hs) he'
      all_goals
        simp only [totalSpan_append, totalSpan_cons]
        omega

end Search

theorem length_rangesFrom (start : Nat) (blocks : List (Block β)) :
    (rangesFrom start blocks).length = blocks.length := by
  induction blocks generalizing start with
  | nil => rfl
  | cons b blocks ih => rw [rangesFrom, List.length_cons, ih, List.length_cons]

theorem length_ranges (blocks : List (Block β)) : (ranges blocks).length = blocks.length :=
  length_rangesFrom 0 blocks

end Block

open Instruction

section Blocks

variable {α β : Type} [Number α] {t : StepTimes α} {step : TimeStep}

def HasTicks (t : StepTimes α) (step : TimeStep) (range : Nat × Nat) (x : Instruction α) : Prop :=
  x.length = step.ticksBetween (t.bound range.1) (t.bound range.2)

/--
The waveform of a lane whose steps have been checked: one waveform for each block, end to end.
-/
structure PlaysBlocks (t : StepTimes α) (step : TimeStep) (lane : String) (blocks : List (Block β))
    (kind : ScalarKind) (y : Instruction α) : Prop where
  checked : Block.checkSpan (α := α) lane blocks t.size = .ok ()
  exists_join : ∃ xs, List.Forall₂ (fun range x => x.Typed (.scalar kind) ∧ HasTicks t step range x)
    (Block.ranges blocks) xs ∧ y = join (.scalar kind) xs

theorem PlaysBlocks.typed {lane : String} {blocks : List (Block β)} {kind : ScalarKind}
    {y : Instruction α} (h : PlaysBlocks t step lane blocks kind y) : y.Typed (.scalar kind) := by
  obtain ⟨xs, hxs, rfl⟩ := h.exists_join
  exact typed_join (Outcome.forall_mem_of_forall₂ (hxs.imp fun _ _ h => h.1))

theorem joinBlocks_eq_ok {kind : ScalarKind} {xs : List (Instruction α)} {y : Instruction α}
    (hxs : ∀ x ∈ xs, x.Typed (.scalar kind)) (h : joinBlocks (.scalar kind) xs = .ok y) :
    y = join (.scalar kind) xs := by
  unfold joinBlocks at h
  split at h
  . next he =>
    cases h
    rw [List.isEmpty_iff.mp he]
    rfl
  . have hplay := Outcome.mapError_eq_ok_iff.mp h
    exact ((play_eq_ok_iff_join hxs).mp hplay).2.2

/--
Joining blocks fails only if they are too long together.
-/
theorem joinBlocks_of_lt {kind : ScalarKind} {xs : List (Instruction α)}
    (hxs : ∀ x ∈ xs, x.Typed (.scalar kind)) (hl : totalLength xs < wordModulus) :
    joinBlocks (.scalar kind) xs = .ok (join (.scalar kind) xs) := by
  unfold joinBlocks
  split
  . next he =>
    rw [List.isEmpty_iff.mp he]
    rfl
  . next he =>
    apply Outcome.mapError_eq_ok_iff.mpr
    apply (play_eq_ok_iff_join hxs).mpr
    exact ⟨fun h => he (List.isEmpty_iff.mpr h), hl, rfl⟩

theorem forall₂_ranges {γ : Type} {R : Nat × Nat → γ → Prop} {values : List β}
    {ranges : List (Nat × Nat)} {xs : List γ} (hl : ranges.length = values.length)
    (h : List.Forall₂ (fun block x => R block.2 x) (values.zip ranges) xs) :
    List.Forall₂ R ranges xs := by
  rw [← List.map_snd_zip (by omega : ranges.length ≤ values.length)]
  exact List.forall₂_map_left_iff.mpr h

theorem playsBlocks_of_joinBlocks {lane : String} {blocks : List (Block β)} {kind : ScalarKind}
    {xs : List (Instruction α)} {y : Instruction α}
    (hc : Block.checkSpan (α := α) lane blocks t.size = .ok ())
    (hxs : List.Forall₂ (fun range x => x.Typed (.scalar kind) ∧ HasTicks t step range x)
      (Block.ranges blocks) xs)
    (h : joinBlocks (.scalar kind) xs = .ok y) : PlaysBlocks t step lane blocks kind y :=
  ⟨hc, xs, hxs, joinBlocks_eq_ok (Outcome.forall_mem_of_forall₂ (hxs.imp fun _ _ h => h.1)) h⟩

/--
The ticks of consecutive blocks add up.
-/
theorem sum_ticksBetween_rangesFrom (ht : t.TicksInOrder step) {start : Nat}
    {blocks : List (Block β)} (hs : start + Block.totalSpan blocks ≤ t.size) :
    ((Block.rangesFrom start blocks).map fun range =>
        step.ticksBetween (t.bound range.1) (t.bound range.2)).sum
      = step.ticksBetween (t.bound start) (t.bound (start + Block.totalSpan blocks)) := by
  induction blocks generalizing start with
  | nil =>
    rw [Block.totalSpan, Nat.add_zero, TimeStep.ticksBetween, Nat.sub_self]
    rfl
  | cons b blocks ih =>
    rw [Block.totalSpan_cons, ← Nat.add_assoc] at hs ⊢
    rw [Block.rangesFrom, List.map_cons, List.sum_cons, ih hs]
    apply step.ticksBetween_add
    . exact ht _ _ (by omega) (by omega)
    . exact ht _ _ (by omega) (by omega)

theorem totalLength_of_hasTicks {ranges : List (Nat × Nat)} {xs : List (Instruction α)}
    (h : List.Forall₂ (HasTicks t step) ranges xs) :
    totalLength xs
      = (ranges.map fun range => step.ticksBetween (t.bound range.1) (t.bound range.2)).sum := by
  induction h with
  | nil => rfl
  | cons hx _ ih => rw [totalLength, ih, hx, List.map_cons, List.sum_cons]

theorem totalLength_of_rangesFrom (ht : t.TicksInOrder step) {start : Nat}
    {blocks : List (Block β)} {xs : List (Instruction α)}
    (hs : start + Block.totalSpan blocks ≤ t.size)
    (h : List.Forall₂ (HasTicks t step) (Block.rangesFrom start blocks) xs) :
    totalLength xs
      = step.ticksBetween (t.bound start) (t.bound (start + Block.totalSpan blocks)) := by
  rw [totalLength_of_hasTicks h, sum_ticksBetween_rangesFrom ht hs]

theorem sum_ticksBetween_ranges (ht : t.TicksInOrder step) {blocks : List (Block β)}
    (hn : Block.totalSpan blocks = t.size) :
    ((Block.ranges blocks).map fun range =>
        step.ticksBetween (t.bound range.1) (t.bound range.2)).sum
      = step.ticksBetween (t.bound 0) (t.bound t.size) := by
  rw [Block.ranges, sum_ticksBetween_rangesFrom ht (by omega), Nat.zero_add, hn]

theorem totalLength_of_ranges (ht : t.TicksInOrder step) {lane : String} {blocks : List (Block β)}
    {xs : List (Instruction α)} (hc : Block.checkSpan (α := α) lane blocks t.size = .ok ())
    (h : List.Forall₂ (HasTicks t step) (Block.ranges blocks) xs) :
    totalLength xs = step.ticksBetween (t.bound 0) (t.bound t.size) := by
  rw [totalLength_of_hasTicks h, sum_ticksBetween_ranges ht (Block.totalSpan_of_checkSpan hc)]

end Blocks

theorem PlaysBlocks.length_eq_ticksBetween {α β : Type} [Number α] {t : StepTimes α}
    {step : TimeStep} (ht : t.TicksInOrder step) {lane : String} {blocks : List (Block β)}
    {kind : ScalarKind} {y : Instruction α} (h : PlaysBlocks t step lane blocks kind y) :
    y.length = step.ticksBetween (t.bound 0) (t.bound t.size) := by
  obtain ⟨xs, hxs, rfl⟩ := h.exists_join
  rw [length_join, totalLength_of_ranges ht h.checked (hxs.imp fun _ _ h => h.2)]

theorem PlaysBlocks.length_eq {β : Type} {t : StepTimes Exact} {step : TimeStep} (ht : t.Ordered)
    {lane : String} {blocks : List (Block β)} {kind : ScalarKind} {y : Instruction Exact}
    (h : PlaysBlocks t step lane blocks kind y) :
    y.length = step.ticksBetween Number.zero t.duration := by
  rw [h.length_eq_ticksBetween (ht.ticksInOrder step), ht.bound_zero, ht.bound_size]

section Lanes

variable {α : Type} {t : StepTimes α} {step : TimeStep} {lane : String} {y : Instruction α}

theorem CameraLane.playsBlocks_trigger [Number α] {blocks : List (Block (Option Picture))}
    (h : trigger lane blocks t step = .ok y) : PlaysBlocks t step lane blocks .bool y := by
  obtain ⟨_, hc, h⟩ := Outcome.bind_eq_ok_iff.mp h
  obtain ⟨xs, hxs, h⟩ := Outcome.bind_eq_ok_iff.mp h
  rw [Outcome.mapM_eq_ok_iff] at hxs
  refine playsBlocks_of_joinBlocks hc (forall₂_ranges (Block.length_ranges blocks) ?_) h
  apply hxs.imp
  rintro ⟨block, start, stop⟩ x hx
  dsimp only at hx
  split at hx
  . contradiction
  . cases hx
    exact ⟨typed_level _ _, length_level _ _⟩
  . cases hx
    exact ⟨typed_level _ _, length_level _ _⟩

variable [Number α] [Kernel α] {scope : Namespace α}

theorem DigitalLane.playsBlocks_compile {blocks : List (Block DigitalValue)}
    (h : compile lane blocks t scope step = .ok y) : PlaysBlocks t step lane blocks .bool y := by
  obtain ⟨_, hc, h⟩ := Outcome.bind_eq_ok_iff.mp h
  obtain ⟨xs, hxs, h⟩ := Outcome.bind_eq_ok_iff.mp h
  rw [Outcome.mapM_eq_ok_iff] at hxs
  refine playsBlocks_of_joinBlocks hc (forall₂_ranges (Block.length_ranges blocks) ?_) h
  apply hxs.imp
  rintro ⟨block, start, stop⟩ x hx
  obtain ⟨value, _, hx⟩ := Outcome.bind_eq_ok_iff.mp hx
  cases hx
  exact ⟨typed_level _ _, length_level _ _⟩

namespace AnalogLane

variable {c : Context α} {start stop : Nat}

theorem Context.expression_ok {e : Expression} (h : c.expression start stop e = .ok y) :
    y.Typed .float ∧ HasTicks c.times c.timeStep (start, stop) y := by
  obtain ⟨compiled, _, h⟩ := Outcome.bind_eq_ok_iff.mp h
  split at h
  . obtain ⟨times, htimes, h⟩ := Outcome.bind_eq_ok_iff.mp h
    obtain ⟨values, hv, h⟩ := Outcome.bind_eq_ok_iff.mp h
    cases h
    have hl := (Outcome.mapM_eq_ok_iff.mp hv).length_eq
    have hticks := (Outcome.mapM_eq_ok_iff.mp htimes).length_eq
    refine ⟨typed_pattern (Pattern.wellFormed_ofFloats _), ?_⟩
    rw [HasTicks, length_pattern, Pattern.ofFloats, ← hl, ← hticks, List.length_range']
  . obtain ⟨value, _, h⟩ := Outcome.bind_eq_ok_iff.mp h
    obtain ⟨x, _, h⟩ := Outcome.bind_eq_ok_iff.mp h
    cases h
    exact ⟨typed_hold _ _, length_hold _ _⟩

theorem Context.ramp_ok {previousStart : Nat} {previous next : Expression}
    (h : c.ramp previousStart start stop previous next = .ok y) :
    y.Typed .float ∧ HasTicks c.times c.timeStep (start, stop) y := by
  obtain ⟨v₀, _, h⟩ := Outcome.bind_eq_ok_iff.mp h
  obtain ⟨v₁, _, h⟩ := Outcome.bind_eq_ok_iff.mp h
  dsimp only at h
  split at h
  . next hle =>
    cases h
    refine ⟨typed_empty _, ?_⟩
    rw [HasTicks, TimeStep.ticksBetween, Nat.sub_eq_zero_of_le hle]
    rfl
  . obtain ⟨a, _, h⟩ := Outcome.bind_eq_ok_iff.mp h
    obtain ⟨b, _, h⟩ := Outcome.bind_eq_ok_iff.mp h
    cases h
    exact ⟨typed_linear _ _ _, length_linear _ _ _⟩

/--
The waveform of a block of the steps from `start` up to but not including `stop`, between the values
of the blocks beside it.
-/
inductive Context.Compiles (c : Context α) (previous : Option (AnalogValue × Nat))
    (next : Option (AnalogValue × Nat × Nat)) (start stop : Nat) :
    AnalogValue → Instruction α → Prop
  | expression {e : Expression} {x : Instruction α} (h : c.expression start stop e = .ok x) :
      c.Compiles previous next start stop (.expression e) x
  | ramp {before after : Expression} {previousStart : Nat} {range : Nat × Nat} {x : Instruction α}
      (hp : previous = some (.expression before, previousStart))
      (hn : next = some (.expression after, range))
      (h : c.ramp previousStart start stop before after = .ok x) :
      c.Compiles previous next start stop .ramp x

theorem Context.blocks_cons_ok {previous : Option (AnalogValue × Nat)} {value : AnalogValue}
    {rest : List (AnalogValue × Nat × Nat)} {xs : List (Instruction α)}
    (h : c.blocks previous ((value, start, stop) :: rest) = .ok xs) :
    ∃ x ys, c.Compiles previous rest.head? start stop value x
      ∧ c.blocks (some (value, start)) rest = .ok ys ∧ xs = x :: ys := by
  unfold blocks at h
  dsimp only at h
  split at h
  . obtain ⟨x, hx, h⟩ := Outcome.bind_eq_ok_iff.mp h
    obtain ⟨ys, hys, h⟩ := Outcome.bind_eq_ok_iff.mp h
    cases h
    exact ⟨x, ys, .expression hx, hys, rfl⟩
  . split at h
    . next hnext =>
      obtain ⟨x, hx, h⟩ := Outcome.bind_eq_ok_iff.mp h
      obtain ⟨ys, hys, h⟩ := Outcome.bind_eq_ok_iff.mp h
      cases h
      exact ⟨x, ys, .ramp rfl hnext hx, hys, rfl⟩
    . obtain ⟨x, hx, h⟩ := Outcome.bind_eq_ok_iff.mp h
      contradiction

theorem Context.Compiles.hasTicks {previous : Option (AnalogValue × Nat)}
    {next : Option (AnalogValue × Nat × Nat)} {value : AnalogValue} {x : Instruction α}
    (h : c.Compiles previous next start stop value x) :
    x.Typed .float ∧ HasTicks c.times c.timeStep (start, stop) x := by
  cases h with
  | expression h => exact expression_ok h
  | ramp _ _ h => exact ramp_ok h

theorem Context.blocks_ok {previous : Option (AnalogValue × Nat)}
    {values : List (AnalogValue × Nat × Nat)} {xs : List (Instruction α)}
    (h : c.blocks previous values = .ok xs) :
    List.Forall₂ (fun value x => x.Typed .float ∧ HasTicks c.times c.timeStep value.2 x) values
      xs := by
  induction values generalizing previous xs with
  | nil =>
    cases h
    exact .nil
  | cons value rest ih =>
    obtain ⟨x, ys, hx, hys, rfl⟩ := blocks_cons_ok h
    exact .cons hx.hasTicks (ih hys)

theorem playsBlocks_compile {blocks : List (Block AnalogValue)} {unit : Option PhysicalUnit}
    (h : compile lane blocks t unit scope step = .ok y) :
    PlaysBlocks t step lane blocks .float y := by
  obtain ⟨_, hc, h⟩ := Outcome.bind_eq_ok_iff.mp h
  obtain ⟨xs, hxs, h⟩ := Outcome.bind_eq_ok_iff.mp h
  refine playsBlocks_of_joinBlocks hc (forall₂_ranges ?_ (Context.blocks_ok hxs)) h
  rw [Block.length_ranges, List.length_map]

end AnalogLane

end Lanes

end Waveplan
