import Waveplan.Proofs.Exact
import Waveplan.Proofs.Instruction.Columns
import Waveplan.Proofs.Instruction.Rows

/-!
This module contains instructions that are cut several times, and that no cut moves a ramp of exact
numbers: neither one that is asked for, nor one that is made to stack a ramp upon other shapes.
-/

namespace Waveplan.Instruction

section Cuts

variable {α : Type} [Number α]

/--
Cut an instruction, what that leaves, and so on.
-/
def sliceAll (x : Instruction α) (cuts : List (Int × Int)) :
    Except InstructionError (Instruction α) :=
  cuts.foldlM (fun y cut => y.slice cut.1 cut.2) x

/--
What a list of cuts leaves of a list of rows.
-/
def rowsLeft {β : Type} (rows : List β) (cuts : List (Int × Int)) : List β :=
  cuts.foldl (fun rows cut => rowsBetween rows cut.1 cut.2) rows

/--
That every cut lies within what the cuts before it leave of so many ticks.
-/
def AreBounds : Nat → List (Int × Int) → Prop
  | _, [] => True
  | length, (i, j) :: cuts =>
    IsBound length i ∧ IsBound length j
      ∧ AreBounds ((tickOf length j).toNat - (tickOf length i).toNat) cuts

theorem exists_sliceAll {Q : Ramp α → Prop} (hQ : IsDivisible Q) {x : Instruction α}
    {cuts : List (Int × Int)} (hx : x.Normal) (hr : x.RampsSatisfy Q)
    (h : AreBounds x.length cuts) :
    ∃ y, x.sliceAll cuts = .ok y ∧ y.Typed x.sampleType
      ∧ y.toPattern.samples = rowsLeft x.toPattern.samples cuts := by
  induction cuts generalizing x with
  | nil => exact ⟨x, rfl, hx.typed, rfl⟩
  | cons cut cuts ih =>
    obtain ⟨i, j⟩ := cut
    obtain ⟨hi, hj, h⟩ := h
    obtain ⟨y, hy, hp⟩ := exists_slice hx hi hj
    -- what one cut leaves is again in normal form, with ramps that can be divided
    rw [← hp.length] at h
    obtain ⟨z, hz, hty, hs⟩ := ih hp.typed.normal (hp.ramps hQ hr) h
    refine ⟨z, ?_, hp.typed.sampleType ▸ hty, ?_⟩
    . rw [sliceAll, List.foldlM_cons, hy]
      exact hz
    . rw [hs, hp.samples_slice hx hQ hr hj]
      rfl

end Cuts

/--
Ramps of exact numbers keep their values, however often they are cut, and whether they are cut or
written out to be stacked.
-/
theorem sliceAll_stack_exact {a : Instruction Exact} (ha : a.Normal) :
    (∀ cuts, AreBounds a.length cuts →
      ∃ y, a.sliceAll cuts = .ok y ∧ y.sampleType = a.sampleType
        ∧ y.toPattern.samples = rowsLeft a.toPattern.samples cuts)
      ∧ ∀ (b : Instruction Exact) (l r : List Field), b.Normal → a.length = b.length →
        a.sampleType = .record l → b.sampleType = .record r → SampleType.AreDisjoint l r →
        ∃ s, stack a b = .ok s ∧ s.toPattern
          = ⟨.record (l ++ r), a.toPattern.columns ++ b.toPattern.columns, a.toPattern.length⟩ := by
  refine ⟨fun cuts h => ?_, fun b l r hb hl hta htb hd => ?_⟩
  . obtain ⟨y, hy, hty, hs⟩ := exists_sliceAll isDivisible_exact ha (fun _ _ => trivial) h
    exact ⟨y, hy, hty.sampleType, hs⟩
  . have ht : a.sampleType.merge b.sampleType = .ok (.record (l ++ r)) := by
      rw [hta, htb, SampleType.merge_record hd]
    obtain ⟨s, hs, hst⟩ := exists_stack ha hb hl ht
    exact ⟨s, hs, hst.columns isDivisible_exact ha hb (fun _ _ => trivial) (fun _ _ => trivial)
      hl ht⟩

/--
A ramp of the numbers of its ticks.
-/
def countUp (name : String) (length : Nat) : Instruction Exact :=
  ramp ⟨.named name .float, [Number.ofNat 0], [Number.ofNat length], length⟩

theorem normal_countUp (name : String) {length : Nat} (h : 0 < length) :
    (countUp name length).Normal := normal_ramp.mpr ⟨⟨rfl, rfl, rfl⟩, h⟩

theorem toPattern_countUp (name : String) {length : Nat} (h : 0 < length) :
    (countUp name length).toPattern
      = ⟨.named name .float, [.float ((List.range length).map Number.ofNat)], length⟩ := by
  have hv (i : Nat) : Ramp.valueAt (Number.ofNat 0) (Number.ofNat length) length i
      = (Number.ofNat i : Exact) := by
    have : (length : ℚ) ≠ 0 := by positivity
    apply Exact.toRat_inj.mp
    rw [Ramp.toRat_valueAt, Exact.toRat_ofNat, Exact.toRat_ofNat, Exact.toRat_ofNat]
    field_simp
    simp
  simp [countUp, toPattern, Ramp.toPattern, hv]

/--
A ramp that is played twice and cut twice, and stacked upon one that is as long as both.
-/
theorem sliceAll_stack_countUp :
    (∃ y, (repeated 2 (countUp "a" 2)).sliceAll [(1, -1), (-2, 1)] = .ok y
        ∧ y.toPattern.samples = [⟨[.float (Number.ofNat 1)]⟩])
      ∧ ∃ s, stack (repeated 2 (countUp "a" 2)) (countUp "b" 4) = .ok s
        ∧ s.toPattern.columns
          = [.float ([0, 1, 0, 1].map Number.ofNat), .float ([0, 1, 2, 3].map Number.ofNat)] := by
  have ha : (repeated 2 (countUp "a" 2)).Normal :=
    normal_repeated.mpr ⟨by decide, by decide, by simp [countUp], normal_countUp _ (by decide)⟩
  obtain ⟨hslice, hstack⟩ := sliceAll_stack_exact ha
  obtain ⟨y, hy, _, hrows⟩ := hslice [(1, -1), (-2, 1)]
    ⟨by decide, by decide, by decide, by decide, trivial⟩
  obtain ⟨s, hs, hp⟩ := hstack (countUp "b" 4) [⟨"a", .float⟩] [⟨"b", .float⟩]
    (normal_countUp _ (by decide)) rfl rfl rfl (by simp [SampleType.AreDisjoint])
  refine ⟨⟨y, hy, ?_⟩, s, hs, ?_⟩
  . rw [hrows, toPattern, toPattern_countUp _ (by decide)]
    rfl
  . rw [hp, toPattern, toPattern_countUp _ (by decide), toPattern_countUp _ (by decide)]
    rfl

/--
A ramp that is longer than what signed machine words can count.
-/
def longRamp : Instruction Exact :=
  ramp ⟨.float, [Number.ofNat 0], [Number.ofNat (2 ^ 63 + 4096)], 2 ^ 63 + 4096⟩

theorem slice_longRamp :
    longRamp.Normal ∧ longRamp.length = 2 ^ 63 + 4096
      ∧ longRamp.slice 0 (-4096) = .error (.sliceOutOfBounds (-4096) (2 ^ 63 + 4096)) := by
  refine ⟨normal_ramp.mpr ⟨⟨rfl, rfl, rfl⟩, by decide⟩, rfl, ?_⟩
  rw [slice, sliceBy, if_neg (by simp), sliceBound_of_isBound (by decide),
    sliceBound_of_not_isBound (by decide) (by decide) (by decide)]
  rfl

end Waveplan.Instruction
