import Waveplan.Proofs.Instruction.Regroup
import Waveplan.Proofs.Instruction.Rows

/-!
This module contains repetition as an action of the counts: repeating twice is repeating by the
product, whatever is repeated. Repetitions and tilings are written out as the same copies, end to
end.
-/

namespace Waveplan

variable {α : Type} [Number α]

theorem Pattern.samples_tile {p : Pattern α} (hp : p.WellFormed) (n : Nat) :
    (p.tile n).samples = (List.replicate n p.samples).flatten := by
  have hl : p.samples.length = p.length := by simp [samples_eq hp]
  have hlt : (p.tile n).length = n * p.length := Nat.mul_comm _ _
  rw [samples_eq (wellFormed_tile hp n), hlt]
  apply List.ext_getElem?
  intro i
  by_cases hi : i < n * p.length
  . have hm := Nat.mod_lt i (Nat.pos_of_mul_pos_left (Nat.zero_lt_of_lt hi))
    rw [getElem?_flatten_replicate (by rwa [hl]), hl, samples_eq hp, List.getElem?_map,
      List.getElem?_map, List.getElem?_range hi, List.getElem?_range hm, Option.map_some,
      Option.map_some, sample_tile hp hi]
  . rw [List.getElem?_eq_none (by simpa using hi), List.getElem?_eq_none (by simpa [hl] using hi)]

namespace Instruction

variable {x y : Instruction α} {m n : Nat}

section Action

omit [Number α]

@[simp]
theorem sampleType_times (x : Instruction α) (n : Nat) : (x.times n).sampleType = x.sampleType := by
  unfold times
  split
  . rfl
  . split
    . rfl
    . cases x <;> rfl

theorem times_eq_empty (h : n = 0 ∨ x.length = 0) : x.times n = pattern (.empty x.sampleType) := by
  rw [times.eq_def, if_pos h]

theorem times_one_of_length_ne_zero (h : x.length ≠ 0) : x.times 1 = x := by
  rw [times.eq_def, if_neg (by omega), if_pos rfl]

theorem times_repeated {body : Instruction α} (hn : n ≠ 0) (hl : (repeated m body).length ≠ 0) :
    (repeated m body).times n = repeated (m * n) body := by
  by_cases h₁ : n = 1
  . rw [h₁, times_one_of_length_ne_zero hl, Nat.mul_one]
  . rw [times.eq_def, if_neg (by omega), if_neg h₁]

/--
Repetitions of a repetition are multiplied, counts of zero and one included.
-/
theorem times_times (x : Instruction α) (m n : Nat) : (x.times m).times n = x.times (m * n) := by
  by_cases h₀ : m = 0 ∨ n = 0 ∨ x.length = 0
  . have hx : n = 0 ∨ (x.times m).length = 0 := by
      rw [length_times, Nat.mul_eq_zero]
      tauto
    rw [times_eq_empty hx, sampleType_times, times_eq_empty (by rw [Nat.mul_eq_zero]; tauto)]
  . obtain ⟨hm, hn, hl⟩ : m ≠ 0 ∧ n ≠ 0 ∧ x.length ≠ 0 := by tauto
    by_cases hx : ∃ k body, x = repeated k body
    . obtain ⟨k, body, rfl⟩ := hx
      have hkm : (repeated (k * m) body).length ≠ 0 := by
        rw [← times_repeated hm hl, length_times]
        exact Nat.mul_ne_zero hm hl
      rw [times_repeated hm hl, times_repeated hn hkm, times_repeated (Nat.mul_ne_zero hm hn) hl,
        Nat.mul_assoc]
    . have hx : ∀ k body, x ≠ repeated k body := fun k body h => hx ⟨k, body, h⟩
      by_cases h₁ : m = 1
      . rw [h₁, times_one_of_length_ne_zero hl, Nat.one_mul]
      . have h₂ : 2 ≤ m * n := Nat.le_trans (by omega) (Nat.le_mul_of_pos_right m (by omega))
        have hlm : (repeated m x).length ≠ 0 := Nat.mul_ne_zero hm hl
        rw [times_of_ne_repeated (by omega) hl hx, times_repeated hn hlm,
          times_of_ne_repeated h₂ hl hx]

end Action

theorem times_one (hx : x.Normal) : x.times 1 = x := by
  by_cases hl : x.length = 0
  . rw [times_eq_empty (.inr hl), ← eq_empty_of_isEmpty hx (by simpa [isEmpty] using hl)]
  . exact times_one_of_length_ne_zero hl

theorem tile_one (hx : x.Normal) : x.tile 1 = x := join_singleton hx.typed

/--
That an instruction plays another one `n` times in a row.
-/
structure PlaysCopies (n : Nat) (x y : Instruction α) : Prop where
  normal : y.Normal
  sampleType : y.sampleType = x.sampleType
  length : y.length = n * x.length
  /-- In every channel the values are written `n` times. -/
  toPattern : y.toPattern = x.toPattern.tile n
  samples : y.toPattern.samples = (List.replicate n x.toPattern.samples).flatten

theorem IsCopy.playsCopies {copy : Instruction α → Nat → Instruction α} (h : IsCopy copy)
    (hx : x.Normal) (n : Nat) : PlaysCopies n x (copy x n) := by
  obtain ⟨hn, ht⟩ := h.typed hx.typed n
  have hw := wellFormed_toPattern hx
  have hp : (copy x n).toPattern = x.toPattern.tile n := by
    apply Pattern.ext_sample (wellFormed_toPattern hn) (Pattern.wellFormed_tile hw n)
    . exact (sampleType_toPattern hn).trans (ht.trans (sampleType_toPattern hx).symm)
    . rw [length_toPattern hn, h.length, Pattern.tile, length_toPattern hx, Nat.mul_comm]
    . intro i hi
      rw [length_toPattern hn] at hi
      have hlt : i < n * x.length := by rwa [h.length] at hi
      have hm := Nat.mod_lt i (Nat.pos_of_mul_pos_left (Nat.zero_lt_of_lt hlt))
      rw [sample_toPattern hn hi, h.sampleAt hx hlt,
        Pattern.sample_tile hw (by rwa [length_toPattern hx]), length_toPattern hx,
        sample_toPattern hx hm]
  exact ⟨hn, ht, h.length x n, hp, by rw [hp, Pattern.samples_tile hw]⟩

/--
Repetition is an action of the counts, and repetitions and tilings play copies, none of them and
copies of empty instructions included.
-/
theorem times_tile_exact (hx : x.Normal) :
    (∀ m n, (x.times m).times n = x.times (m * n)) ∧ x.times 1 = x ∧ x.tile 1 = x
      ∧ ∀ n, PlaysCopies n x (x.times n) ∧ PlaysCopies n x (x.tile n) :=
  ⟨times_times x, times_one hx, tile_one hx,
    fun n => ⟨isCopy_times.playsCopies hx n, isCopy_tile.playsCopies hx n⟩⟩

/--
Six times the plateaus and the ramp, and two copies of them in one concatenation.
-/
theorem times_tile_exact_plateausThenRamp :
    (plateausThenRamp.times 2).times 3 = repeated 6 plateausThenRamp
      ∧ (plateausThenRamp.tile 2).length = 16
      ∧ (plateausThenRamp.tile 2).toPattern.samples
        = plateausThenRamp.toPattern.samples ++ plateausThenRamp.toPattern.samples := by
  obtain ⟨htimes, _, _, hcopies⟩ := times_tile_exact normal_plateausThenRamp
  refine ⟨htimes 2 3, (hcopies 2).2.length, ?_⟩
  rw [(hcopies 2).2.samples]
  simp

end Instruction

end Waveplan
