import Waveplan.Proofs.Instruction.Channel

/-!
This module contains that an instruction in normal form, written out as a pattern, has the samples
that are read off its tree. Instructions that play the same are therefore the same once they are
written out.
-/

namespace Waveplan

variable {α : Type} [Number α]

theorem Ramp.sample_toPattern {r : Ramp α} {i : Nat} (h : i < r.length) :
    r.toPattern.sample i = r.sample i := by
  simp only [Pattern.sample, toPattern, sample, valuesAt, List.map_zipWith, Sample.mk.injEq]
  congr 1
  funext a b
  simp [Column.get, h]

namespace Instruction

theorem wellFormed_concat_toPattern {t : SampleType} {xs : List (Instruction α)}
    (h : ∀ x ∈ xs, x.toPattern.WellFormed ∧ x.toPattern.sampleType = t
      ∧ x.toPattern.length = x.length ∧ ∀ i < x.length, x.toPattern.sample i = x.sampleAt i) :
    (Pattern.concat t (xs.map toPattern)).WellFormed
      ∧ (Pattern.concat t (xs.map toPattern)).length = totalLength xs
      ∧ ∀ i < totalLength xs,
        (Pattern.concat t (xs.map toPattern)).sample i = sampleAtParts xs i := by
  induction xs with
  | nil => exact ⟨Pattern.wellFormed_empty t, rfl, by simp [totalLength]⟩
  | cons x xs ih =>
    obtain ⟨⟨hw, ht, hl, hs⟩, h⟩ := List.forall_mem_cons.mp h
    obtain ⟨ihw, ihl, ihs⟩ := ih h
    have htt : x.toPattern.sampleType = (Pattern.concat t (xs.map toPattern)).sampleType := by
      rw [ht, Pattern.sampleType_concat]
    rw [List.map_cons, Pattern.concat_cons]
    refine ⟨Pattern.wellFormed_append hw ihw htt, ?_, ?_⟩
    . rw [totalLength, Pattern.append, hl, ihl]
    . intro i hi
      rw [totalLength] at hi
      rw [Pattern.sample_append hw ihw htt, sampleAtParts, hl]
      split
      . next h => exact hs i h
      . exact ihs _ (by omega)

theorem toPattern_spec {x : Instruction α} (hx : x.Normal) :
    x.toPattern.WellFormed ∧ x.toPattern.sampleType = x.sampleType
      ∧ x.toPattern.length = x.length ∧ ∀ i < x.length, x.toPattern.sample i = x.sampleAt i := by
  induction x with
  | pattern p =>
    rw [toPattern, length_pattern]
    exact ⟨normal_pattern.mp hx, rfl, rfl, fun _ _ => by rw [sampleAt]⟩
  | ramp r =>
    simp only [toPattern, sampleAt, length_ramp]
    exact ⟨Ramp.wellFormed_toPattern (normal_ramp.mp hx).1, rfl, rfl,
      fun _ => Ramp.sample_toPattern⟩
  | concatenated xs ih =>
    obtain ⟨_, _, hparts⟩ := normal_concatenated.mp hx
    have h : ∀ x ∈ xs, x.toPattern.WellFormed ∧ x.toPattern.sampleType = headType xs
        ∧ x.toPattern.length = x.length
        ∧ ∀ i < x.length, x.toPattern.sample i = x.sampleAt i := by
      intro x hm
      obtain ⟨hw, ht, hl, hs⟩ := ih x hm (hparts x hm).normal
      exact ⟨hw, ht.trans (hparts x hm).sampleType, hl, hs⟩
    obtain ⟨hw, hl, hs⟩ := wellFormed_concat_toPattern h
    rw [toPattern, toPatterns_eq]
    refine ⟨hw, Pattern.sampleType_concat _ _, by rw [hl, length_concatenated], ?_⟩
    intro i hi
    rw [length_concatenated] at hi
    rw [sampleAt]
    exact hs i hi
  | repeated n body ih =>
    obtain ⟨_, hpos, _, hbody⟩ := normal_repeated.mp hx
    obtain ⟨hw, ht, hl, hs⟩ := ih hbody
    rw [toPattern]
    refine ⟨Pattern.wellFormed_tile hw n, ht, ?_, ?_⟩
    . rw [Pattern.tile, hl, length_repeated, Nat.mul_comm]
    . intro i hi
      rw [length_repeated] at hi
      rw [Pattern.sample_tile hw (by rwa [hl]), sampleAt, hl]
      exact hs _ (Nat.mod_lt i hpos)

section Normal

variable {x y : Instruction α} (hx : x.Normal)

include hx

theorem wellFormed_toPattern : x.toPattern.WellFormed := (toPattern_spec hx).1

theorem sampleType_toPattern : x.toPattern.sampleType = x.sampleType := (toPattern_spec hx).2.1

theorem length_toPattern : x.toPattern.length = x.length := (toPattern_spec hx).2.2.1

theorem sample_toPattern {i : Nat} (hi : i < x.length) :
    x.toPattern.sample i = x.sampleAt i := (toPattern_spec hx).2.2.2 i hi

theorem toPattern_eq (hy : y.Normal) (ht : x.sampleType = y.sampleType)
    (hl : x.length = y.length) (h : ∀ i < x.length, x.sampleAt i = y.sampleAt i) :
    x.toPattern = y.toPattern := by
  apply Pattern.ext_sample (wellFormed_toPattern hx) (wellFormed_toPattern hy)
  . rw [sampleType_toPattern hx, sampleType_toPattern hy, ht]
  . rw [length_toPattern hx, length_toPattern hy, hl]
  . intro i hi
    rw [length_toPattern hx] at hi
    rw [sample_toPattern hx hi, sample_toPattern hy (hl ▸ hi), h i hi]

theorem toPattern_eq_iff (hy : y.Normal) (ht : x.sampleType = y.sampleType)
    (hl : x.length = y.length) :
    x.toPattern = y.toPattern ↔ ∀ i < x.length, x.sampleAt i = y.sampleAt i := by
  refine ⟨fun h i hi => ?_, toPattern_eq hx hy ht hl⟩
  rw [← sample_toPattern hx hi, h, sample_toPattern hy (hl ▸ hi)]

theorem toPattern_relabel {t : SampleType} (ht : t.kinds = x.sampleType.kinds) :
    (x.relabel t).toPattern = x.toPattern.relabel t := by
  have hty := typed_relabel hx ht
  have hk : t.kinds = x.toPattern.sampleType.kinds := by rw [sampleType_toPattern hx, ht]
  have hw := Pattern.wellFormed_relabel (wellFormed_toPattern hx) hk
  apply Pattern.ext_sample (wellFormed_toPattern hty.normal) hw
  . rw [sampleType_toPattern hty.normal, hty.sampleType]
    rfl
  . rw [length_toPattern hty.normal, length_relabel, ← length_toPattern hx]
    rfl
  . intro i hi
    rw [length_toPattern hty.normal] at hi
    rw [sample_toPattern hty.normal hi, sampleAt_relabel, Pattern.sample_relabel]
    rw [length_relabel] at hi
    rw [sample_toPattern hx hi]

end Normal

end Instruction

end Waveplan
