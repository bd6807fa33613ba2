import Waveplan.Number.Double
import Waveplan.Proofs.Instruction.Stack

/-!
This module contains the rows of an instruction, the samples that it is written out as. An index
reads one of them and a slice keeps some of them, both counted from either end.
-/

namespace Waveplan

variable {α : Type} [Number α]

theorem Column.scalars_eq (c : Column α) : c.scalars = (List.range c.length).map c.get := by
  apply List.ext_getElem
  . simp
  . intro i h₁ h₂
    rw [length_scalars] at h₁
    cases c with
    | bool values =>
      have hi : i < values.length := h₁
      simp [scalars, get, hi]
    | float values =>
      have hi : i < values.length := h₁
      simp [scalars, get, hi]

namespace Pattern

theorem foldr_scalars_eq {columns : List (Column α)} {n : Nat}
    (h : ∀ c ∈ columns, c.length = n) :
    columns.foldr (fun c rows => List.zipWith List.cons c.scalars rows) (List.replicate n [])
      = (List.range n).map fun i => columns.map (·.get i) := by
  induction columns with
  | nil => simp
  | cons c columns ih =>
    obtain ⟨hc, h⟩ := List.forall_mem_cons.mp h
    rw [List.foldr_cons, ih h, c.scalars_eq, hc, List.zipWith_map, List.zipWith_self]
    rfl

variable {p : Pattern α}

theorem samples_eq (hp : p.WellFormed) : p.samples = (List.range p.length).map p.sample := by
  simp only [samples, foldr_scalars_eq hp.lengths, List.map_map]
  rfl

end Pattern

namespace Instruction

/--
The tick that an index means, negative indices counting from the end.
-/
def tickOf (length : Nat) (index : Int) : Int := if index < 0 then index + length else index

/--
That an index is a signed machine word.
-/
def IsWord (index : Int) : Prop := -wordModulus ≤ 2 * index ∧ 2 * index < wordModulus

instance (index : Int) : Decidable (IsWord index) := inferInstanceAs (Decidable (_ ∧ _))

/--
That an index counts from the end of an instruction whose length is no signed machine word.
-/
def CountsFromFarEnd (length : Nat) (index : Int) : Prop := index < 0 ∧ signedBound ≤ length

instance (length : Nat) (index : Int) : Decidable (CountsFromFarEnd length index) :=
  inferInstanceAs (Decidable (_ ∧ _))

/--
That adding an index to a length, which is read as a signed machine word, ends the program.
-/
def Overflows (length : Nat) (index : Int) : Prop :=
  CountsFromFarEnd length index ∧ index + length < signedBound

instance (length : Nat) (index : Int) : Decidable (Overflows length index) :=
  inferInstanceAs (Decidable (_ ∧ _))

/--
That an index means a tick of an instruction.
-/
def IsIndex (length : Nat) (index : Int) : Prop :=
  -length ≤ index ∧ index < length ∧ ¬CountsFromFarEnd length index

/--
That an index means a tick of an instruction or the one after its last.
-/
def IsBound (length : Nat) (index : Int) : Prop :=
  -length ≤ index ∧ index ≤ length ∧ ¬CountsFromFarEnd length index

instance (length : Nat) (index : Int) : Decidable (IsIndex length index) :=
  inferInstanceAs (Decidable (_ ∧ _))

instance (length : Nat) (index : Int) : Decidable (IsBound length index) :=
  inferInstanceAs (Decidable (_ ∧ _))

/--
Why there is no tick at an index.
-/
def indexError (length : Nat) (index : Int) : InstructionError :=
  if Overflows length index then .overflow else .indexOutOfBounds index length

/--
Why an index is no bound of a slice.
-/
def boundError (length : Nat) (index : Int) : InstructionError :=
  if Overflows length index then .overflow else .sliceOutOfBounds index length

section Indices

variable {length : Nat} {index : Int}

theorem resolveIndex_eq_tickOf (hi : -wordModulus ≤ 2 * (index + length))
    (h : ¬CountsFromFarEnd length index) :
    resolveIndex length index = .ok (tickOf length index) := by
  unfold resolveIndex tickOf
  split
  . next hneg =>
    have hl : length < signedBound := Nat.lt_of_not_le fun hl => h ⟨hneg, hl⟩
    rw [Word.toSigned_of_lt hl, Word.checkedSigned_eq_ok_iff]
    unfold wordModulus at hi
    unfold signedBound at hl ⊢
    omega
  . rfl

/--
An index that counts from a far end either ends the program or means a tick before the first one.
-/
theorem resolveIndex_of_countsFromFarEnd (hl : length < wordModulus)
    (h : CountsFromFarEnd length index) (hi : IsWord index) :
    resolveIndex length index = if Overflows length index then .error .overflow
      else .ok (index + length - wordModulus) := by
  obtain ⟨hneg, hfar⟩ := h
  have hlo := hi.1
  have hsum : index + Word.toSigned length = index + length - wordModulus := by
    rw [Word.toSigned_of_le hfar hl]
    omega
  have hiff : Overflows length index ↔ index + length < signedBound :=
    ⟨And.right, fun h => ⟨⟨hneg, hfar⟩, h⟩⟩
  rw [resolveIndex, if_pos hneg, hsum, Word.checkedSigned]
  simp only [hiff]
  unfold signedBound wordModulus at *
  split
  . rw [if_neg (by omega)]
  . rw [if_pos (by omega)]
    rfl

/--
What is not within `n` ticks of the beginning or within the length of the end is recognized as such.
-/
theorem resolveIndex_out_of_range {n : Nat} (hl : length < wordModulus) (hi : IsWord index)
    (h : ¬(-length ≤ index ∧ index < n ∧ ¬CountsFromFarEnd length index)) :
    if Overflows length index then resolveIndex length index = .error .overflow
      else ∃ k, resolveIndex length index = .ok k ∧ (k < 0 ∨ n ≤ k) := by
  by_cases hfar : CountsFromFarEnd length index
  . rw [resolveIndex_of_countsFromFarEnd hl hfar hi]
    split
    . rfl
    . have := hfar.1
      exact ⟨_, rfl, .inl (by omega)⟩
  . rw [if_neg fun h => hfar h.1, resolveIndex_eq_tickOf (by have := hi.1; omega) hfar]
    have hr : index < -length ∨ n ≤ index := by
      by_contra hc
      exact h ⟨by omega, by omega, hfar⟩
    refine ⟨_, rfl, ?_⟩
    unfold tickOf
    split <;> omega

theorem IsBound.tickOf_nonneg (h : IsBound length index) : 0 ≤ tickOf length index := by
  have := h.1
  unfold tickOf
  split <;> omega

theorem IsBound.tickOf_le (h : IsBound length index) : tickOf length index ≤ length := by
  have := h.2.1
  unfold tickOf
  split <;> omega

theorem IsIndex.tickOf_eq (h : IsIndex length index) : tickOf length index = index % length := by
  obtain ⟨hlo, hlt, _⟩ := h
  unfold tickOf
  split
  . rw [← Int.add_emod_right, Int.emod_eq_of_lt]
    . omega
    . omega
  . rw [Int.emod_eq_of_lt]
    . omega
    . omega

end Indices

variable {x y : Instruction α}

theorem samples_toPattern (hx : x.Normal) :
    x.toPattern.samples = (List.range x.length).map x.sampleAt := by
  rw [Pattern.samples_eq (wellFormed_toPattern hx), length_toPattern hx]
  apply List.map_congr_left
  intro i hi
  exact sample_toPattern hx (List.mem_range.mp hi)

theorem get_of_isIndex (hx : x.Normal) {i : Int} (h : IsIndex x.length i) :
    x.get i = .ok (x.toPattern.sample (i % x.length).toNat) := by
  have hpos : (0 : Int) < x.length := by
    have := h.1
    have := h.2.1
    omega
  have hlt := Int.emod_lt_of_pos i hpos
  have hnonneg := Int.emod_nonneg i (by omega : (x.length : Int) ≠ 0)
  rw [get, resolveIndex_eq_tickOf (by have := h.1; omega) h.2.2, h.tickOf_eq, sample_toPattern hx (by omega)]
  exact if_neg (by omega)

theorem get_of_not_isIndex (hl : x.length < wordModulus) {i : Int} (hi : IsWord i)
    (h : ¬IsIndex x.length i) : x.get i = .error (indexError x.length i) := by
  have hout := resolveIndex_out_of_range hl hi h
  unfold get indexError
  split at hout
  . next ho =>
    rw [hout, if_pos ho]
    rfl
  . next ho =>
    obtain ⟨k, hk, hout⟩ := hout
    rw [hk, if_neg ho]
    exact if_pos hout

/--
An instruction is written out as the rows of its ticks, and an index reads the row of the tick that
it means. Nothing is counted from the end of an instruction whose length is no signed machine word.
-/
theorem get_eq_row (hx : x.Normal) (hl : x.length < wordModulus) {i : Int} (hi : IsWord i) :
    x.toPattern.length = x.length
      ∧ x.toPattern.samples = (List.range x.length).map x.toPattern.sample
      ∧ x.get i = if IsIndex x.length i then .ok (x.toPattern.sample (i % x.length).toNat)
        else .error (indexError x.length i) := by
  refine ⟨length_toPattern hx, ?_, ?_⟩
  . rw [Pattern.samples_eq (wellFormed_toPattern hx), length_toPattern hx]
  . split
    . next h => exact get_of_isIndex hx h
    . next h => exact get_of_not_isIndex hl hi h

/--
Two plateaus that are played twice, and a ramp.
-/
def plateausThenRamp : Instruction Float :=
  concatenated [repeated 2 (pattern (.ofFloats [5, 6])), ramp ⟨.float, [0], [4], 4⟩]

theorem normal_plateausThenRamp : plateausThenRamp.Normal := by
  have hp : (repeated 2 (pattern (.ofFloats [5, 6])) : Instruction Float).Normal :=
    normal_repeated.mpr ⟨by decide, by decide, by simp,
      normal_pattern.mpr (Pattern.wellFormed_ofFloats _)⟩
  have hr : (ramp ⟨.float, [0], [4], 4⟩ : Instruction Float).Normal :=
    normal_ramp.mpr ⟨⟨rfl, rfl, rfl⟩, by decide⟩
  exact normal_concatenated_pair ⟨hp, by decide, rfl, by simp⟩ ⟨hr, by decide, rfl, by simp⟩
    (by simp [isPattern])

/--
The second sample of the ramp, read from the end, and no sample after the last tick.
-/
theorem get_plateausThenRamp :
    plateausThenRamp.get (-3) = .ok ⟨[.float (Ramp.valueAt 0 4 4 1)]⟩
      ∧ plateausThenRamp.get 8 = .error (.indexOutOfBounds 8 8) := by
  constructor
  . rw [(get_eq_row normal_plateausThenRamp (by decide) (by decide)).2.2]
    rfl
  . rw [(get_eq_row normal_plateausThenRamp (by decide) (by decide)).2.2]
    rfl

/--
A switch that is on for more ticks than signed machine words can count.
-/
def longSwitch : Instruction Float := repeated (2 ^ 63 + 1) (pattern (.ofBools [true]))

theorem normal_longSwitch : longSwitch.Normal :=
  normal_repeated.mpr ⟨by decide, by decide, by simp,
    normal_pattern.mpr (Pattern.wellFormed_ofBools _)⟩

/--
The last tick of a long instruction is no tick when it is counted from the end.
-/
theorem get_last_longSwitch :
    longSwitch.Normal ∧ longSwitch.length = 2 ^ 63 + 1
      ∧ longSwitch.get (-1) = .error (.indexOutOfBounds (-1) (2 ^ 63 + 1)) :=
  ⟨normal_longSwitch, rfl, get_of_not_isIndex (by decide) (by decide) (by decide)⟩

section Slices

variable {Q : Ramp α → Prop} {start stop : Nat}

/--
The rows from one bound up to but not including another, none if the second is not after the first.
-/
def rowsBetween {β : Type} (rows : List β) (i j : Int) : List β :=
  (rows.take (tickOf rows.length j).toNat).drop (tickOf rows.length i).toNat

omit [Number α] in
theorem sliceBound_of_isBound {i : Int} (h : IsBound x.length i) :
    x.sliceBound i = .ok (tickOf x.length i).toNat := by
  have hnonneg := h.tickOf_nonneg
  have hle := h.tickOf_le
  rw [sliceBound, resolveIndex_eq_tickOf (by have := h.1; omega) h.2.2]
  exact if_neg (by omega)

omit [Number α] in
theorem sliceBound_of_not_isBound (hl : x.length < wordModulus) {i : Int} (hi : IsWord i)
    (h : ¬IsBound x.length i) : x.sliceBound i = .error (boundError x.length i) := by
  have hout := resolveIndex_out_of_range (n := x.length + 1) hl hi
    fun h' => h ⟨h'.1, by have := h'.2.1; omega, h'.2.2⟩
  unfold sliceBound boundError
  split at hout
  . next ho =>
    rw [hout, if_pos ho]
    rfl
  . next ho =>
    obtain ⟨k, hk, hout⟩ := hout
    rw [hk, if_neg ho]
    exact if_pos (by omega)

theorem isPiece_empty (h : stop ≤ start) :
    IsPiece x start stop (pattern (.empty x.sampleType)) where
  typed := typed_empty _
  length := by
    rw [Nat.sub_eq_zero_of_le h]
    rfl
  ramps _ _ := rampsSatisfy_pattern _
  sampleAt _ _ i hi := by omega

theorem IsPiece.samples (hx : x.Normal) (hQ : IsDivisible Q) (hr : x.RampsSatisfy Q)
    (hs : stop ≤ x.length) (h : IsPiece x start stop y) :
    y.toPattern.samples = (x.toPattern.samples.take stop).drop start := by
  rw [samples_toPattern h.typed.normal, samples_toPattern hx, h.length]
  apply List.ext_getElem
  . simp [hs]
  . intro i h₁ h₂
    have hi : i < stop - start := by simpa using h₁
    simpa using h.sampleAt hQ hr i hi

/--
Bounds within an instruction have a slice, which plays the ticks between them.
-/
theorem exists_slice (hx : x.Normal) {i j : Int} (hi : IsBound x.length i)
    (hj : IsBound x.length j) :
    ∃ y, x.slice i j = .ok y
      ∧ IsPiece x (tickOf x.length i).toNat (tickOf x.length j).toNat y := by
  have hle := hj.tickOf_le
  unfold slice sliceBy
  rw [if_neg (by simp), sliceBound_of_isBound hi, sliceBound_of_isBound hj]
  simp only [bind, Except.bind]
  split
  . next h => exact ⟨_, rfl, isPiece_empty h⟩
  . next h => exact ⟨_, rfl, isPiece_sub hx (by omega) (by omega)⟩

theorem IsPiece.samples_slice (hx : x.Normal) (hQ : IsDivisible Q) (hr : x.RampsSatisfy Q)
    {i j : Int} (hj : IsBound x.length j)
    (h : IsPiece x (tickOf x.length i).toNat (tickOf x.length j).toNat y) :
    y.toPattern.samples = rowsBetween x.toPattern.samples i j := by
  have hle := hj.tickOf_le
  have hn : x.toPattern.samples.length = x.length := by simp [samples_toPattern hx]
  rw [h.samples hx hQ hr (by omega), rowsBetween, hn]

/--
A slice of an instruction without ramps is written out as the rows between its bounds, whatever
nodes of the tree the bounds lie in. Whether it fails only depends on the length.
-/
theorem sliceBy_eq_rows (hx : x.Normal) (hr : ∀ r, ¬IsNode (ramp r) x)
    (hl : x.length < wordModulus) {i j : Int} (hi : IsWord i) (hj : IsWord j) (step : Int) :
    (step ≠ 1 → x.sliceBy i j step = .error (.unsupportedSliceStep step))
      ∧ (step = 1 → ¬IsBound x.length i →
        x.sliceBy i j step = .error (boundError x.length i))
      ∧ (step = 1 → IsBound x.length i → ¬IsBound x.length j →
        x.sliceBy i j step = .error (boundError x.length j))
      ∧ (step = 1 → IsBound x.length i → IsBound x.length j →
        ∃ y, x.sliceBy i j step = .ok y ∧ y.sampleType = x.sampleType
          ∧ y.toPattern.samples = rowsBetween x.toPattern.samples i j) := by
  refine ⟨fun h => if_pos h, ?_, ?_, ?_⟩
  . rintro rfl hi'
    unfold sliceBy
    rw [if_neg (by simp), sliceBound_of_not_isBound hl hi hi']
    rfl
  . rintro rfl hi' hj'
    unfold sliceBy
    rw [if_neg (by simp), sliceBound_of_isBound hi', sliceBound_of_not_isBound hl hj hj']
    rfl
  . rintro rfl hi' hj'
    obtain ⟨y, hy, hp⟩ := exists_slice hx hi' hj'
    exact ⟨y, hy, hp.typed.sampleType, hp.samples_slice hx isDivisible_false hr hj'⟩

/--
A switch that is on at every other tick.
-/
def blinkingSwitch : Instruction Float := repeated 4 (pattern (.ofBools [true, false]))

/--
The switch cut from its second tick to two ticks before its end, and three cuts that fail.
-/
theorem sliceBy_blinkingSwitch :
    (∃ y, blinkingSwitch.sliceBy (-7) 6 1 = .ok y ∧ y.sampleType = .bool
        ∧ y.toPattern.samples = [⟨[.bool false]⟩, ⟨[.bool true]⟩, ⟨[.bool false]⟩,
          ⟨[.bool true]⟩, ⟨[.bool false]⟩])
      ∧ blinkingSwitch.sliceBy (-7) 6 2 = .error (.unsupportedSliceStep 2)
      ∧ blinkingSwitch.sliceBy (-9) 9 1 = .error (.sliceOutOfBounds (-9) 8)
      ∧ blinkingSwitch.sliceBy (-7) 9 1 = .error (.sliceOutOfBounds 9 8) := by
  have hx : blinkingSwitch.Normal := normal_repeated.mpr
    ⟨by decide, by decide, by simp, normal_pattern.mpr (Pattern.wellFormed_ofBools _)⟩
  have hr : blinkingSwitch.RampsSatisfy fun _ => False :=
    rampsSatisfy_repeated.mpr (rampsSatisfy_pattern _)
  have h (i j : Int) (hi : IsWord i) (hj : IsWord j) (step : Int) :=
    sliceBy_eq_rows hx hr (by decide) hi hj step
  refine ⟨?_, ?_, ?_, ?_⟩
  . exact (h (-7) 6 (by decide) (by decide) 1).2.2.2 rfl (by decide) (by decide)
  . exact (h (-7) 6 (by decide) (by decide) 2).1 (by decide)
  . exact (h (-9) 9 (by decide) (by decide) 1).2.1 rfl (by decide)
  . exact (h (-7) 9 (by decide) (by decide) 1).2.2.1 rfl (by decide) (by decide)

/--
A long instruction cannot be cut before its last tick when that one is counted from the end.
-/
theorem slice_before_last_longSwitch :
    longSwitch.Normal ∧ (∀ r, ¬IsNode (ramp r) longSwitch) ∧ longSwitch.length = 2 ^ 63 + 1
      ∧ longSwitch.sliceBy 0 (-1) 1 = .error (.sliceOutOfBounds (-1) (2 ^ 63 + 1)) := by
  refine ⟨normal_longSwitch, rampsSatisfy_repeated.mpr (rampsSatisfy_pattern _), rfl, ?_⟩
  rw [sliceBy, if_neg (by simp), sliceBound_of_isBound (by decide),
    sliceBound_of_not_isBound (by decide) (by decide) (by decide)]
  rfl

end Slices

end Instruction

end Waveplan
