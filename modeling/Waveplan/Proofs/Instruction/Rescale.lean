import Waveplan.Proofs.Calibration.Samples

/-!
This module contains instructions that play the same values in another unit: as long as each other,
and at every tick apart by one factor.
-/

namespace Waveplan

theorem Ramp.valueAt_mul (a b k : Exact) (n i : Nat) :
    valueAt (a * k) (b * k) n i = valueAt a b n i * k := by
  apply Exact.toRat_inj.mp
  simp only [Exact.toRat_mul, toRat_valueAt]
  ring

/--
The sample in a unit that the factor converts to.
-/
def Sample.rescale (k : Exact) (s : Sample Exact) : Sample Exact :=
  ⟨s.values.map fun value => .float (value.toFloat * k)⟩

theorem Sample.rescale_float (k v : Exact) :
    rescale k ⟨[.float v]⟩ = ⟨[.float (v * k)]⟩ := rfl

namespace Instruction

/--
That an instruction of floats is another one, rescaled by a factor.
-/
structure Rescaled (k : Exact) (x y : Instruction Exact) : Prop where
  typed : x.Typed .float
  typed_right : y.Typed .float
  length : y.length = x.length
  sampleAt : ∀ i < x.length, y.sampleAt i = (x.sampleAt i).rescale k

variable {k : Exact} {x y : Instruction Exact} {xs ys : List (Instruction Exact)}

theorem rescaled_hold (k v : Exact) (n : Nat) :
    Rescaled k (hold (.float v) n) (hold (.float (v * k)) n) where
  typed := typed_hold _ _
  typed_right := typed_hold _ _
  length := by rw [length_hold, length_hold]
  sampleAt i hi := by
    rw [length_hold] at hi
    rw [sampleAt_hold _ hi, sampleAt_hold _ hi, Sample.rescale_float]

theorem rescaled_linear (k a b : Exact) (n : Nat) :
    Rescaled k (linear a b n) (linear (a * k) (b * k) n) where
  typed := typed_linear _ _ _
  typed_right := typed_linear _ _ _
  length := by rw [length_linear, length_linear]
  sampleAt i hi := by
    rw [length_linear] at hi
    rw [sampleAt_linear _ _ hi, sampleAt_linear _ _ hi, Sample.rescale_float, Ramp.valueAt_mul]

theorem sampleAt_ofFloats {vs : List Exact} {i : Nat} (h : i < vs.length) :
    (pattern (.ofFloats vs)).sampleAt i = ⟨[.float vs[i]]⟩ := by
  simp [Instruction.sampleAt, Pattern.ofFloats, Pattern.sample, Column.get, h]

theorem rescaled_ofFloats (k : Exact) (vs : List Exact) :
    Rescaled k (pattern (.ofFloats vs)) (pattern (.ofFloats (vs.map (· * k)))) where
  typed := typed_pattern (Pattern.wellFormed_ofFloats _)
  typed_right := typed_pattern (Pattern.wellFormed_ofFloats _)
  length := by simp [Pattern.ofFloats]
  sampleAt i hi := by
    have hi : i < vs.length := by simpa [Pattern.ofFloats] using hi
    rw [sampleAt_ofFloats hi, sampleAt_ofFloats (by rwa [List.length_map]), Sample.rescale_float,
      List.getElem_map]

theorem rescaled_empty (k : Exact) : Rescaled k (pattern (.empty .float)) (pattern (.empty .float))
    where
  typed := typed_empty _
  typed_right := typed_empty _
  length := rfl
  sampleAt _ hi := absurd hi (Nat.not_lt_zero _)

theorem Rescaled.times (h : Rescaled k x y) (n : Nat) : Rescaled k (x.times n) (y.times n) where
  typed := typed_times h.typed n
  typed_right := typed_times h.typed_right n
  length := by rw [length_times, length_times, h.length]
  sampleAt i hi := by
    rw [length_times] at hi
    have hpos : 0 < x.length := Nat.pos_of_ne_zero fun hz => by simp [hz] at hi
    rw [sampleAt_times hi, sampleAt_times (by rwa [h.length]), h.length]
    exact h.sampleAt _ (Nat.mod_lt i hpos)

theorem typed_of_rescaled (h : List.Forall₂ (Rescaled k) xs ys) :
    (∀ x ∈ xs, x.Typed .float) ∧ (∀ y ∈ ys, y.Typed .float)
      ∧ totalLength ys = totalLength xs := by
  have hxs : List.Forall₂ (fun x _ => x.Typed .float) xs ys := h.imp fun _ _ h => h.typed
  obtain ⟨hys, hl⟩ := typed_of_forall₂ (h.imp fun _ _ h => ⟨h.typed_right, h.length⟩)
  exact ⟨Outcome.forall_mem_of_forall₂ hxs.flip, hys, hl⟩

theorem rescaled_join (h : List.Forall₂ (Rescaled k) xs ys) :
    Rescaled k (join .float xs) (join .float ys) := by
  obtain ⟨hxs, hys, hl⟩ := typed_of_rescaled h
  refine ⟨typed_join hxs, typed_join hys, by rw [length_join, length_join, hl], fun i hi => ?_⟩
  rw [length_join] at hi
  rw [sampleAt_join hxs hi, sampleAt_join hys (by rwa [hl])]
  exact sampleAtParts_of_forall₂ (h.imp fun _ _ h => ⟨h.length, h.sampleAt⟩) hi

theorem agree_concatenate (h : List.Forall₂ (Rescaled k) xs ys) :
    Outcome.Agree (Rescaled k) (concatenate xs) (concatenate ys) := by
  obtain ⟨hxs, hys, _⟩ := typed_of_rescaled h
  cases h with
  | nil => exact .error
  | cons hx h =>
    rw [(concatenate_eq_ok_iff fun x hm => (hxs x hm).sampleType).mpr ⟨List.cons_ne_nil _ _, rfl⟩,
      (concatenate_eq_ok_iff fun y hm => (hys y hm).sampleType).mpr ⟨List.cons_ne_nil _ _, rfl⟩]
    exact .ok (rescaled_join (.cons hx h))

theorem Rescaled.agree_fit (h : Rescaled k x y) : Outcome.Agree (Rescaled k) x.fit y.fit := by
  rw [fit_eq h.typed.normal, fit_eq h.typed_right.normal]
  exact .ite (by rw [h.length]) (.ok h) .error

theorem agree_play (h : List.Forall₂ (Rescaled k) xs ys) :
    Outcome.Agree (Rescaled k) (play xs) (play ys) :=
  (agree_concatenate h).bind fun _ _ hxy => hxy.agree_fit

theorem Rescaled.agree_get (h : Rescaled k x y) (index : Int) :
    Outcome.Agree (fun s t => ∃ v, s = ⟨[.float v]⟩ ∧ t = ⟨[.float (v * k)]⟩) (x.get index)
      (y.get index) := by
  unfold get
  rw [h.length]
  refine .bind_same fun i _ => ?_
  split
  . exact .error
  . next hi =>
    have hi : i.toNat < x.length := by omega
    obtain ⟨v, hv⟩ := exists_sampleAt_eq h.typed hi
    rw [h.sampleAt _ hi, hv]
    exact .ok ⟨v, rfl, rfl⟩

end Instruction

end Waveplan
