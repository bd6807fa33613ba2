import Waveplan.Proofs.Calibration.Jump

/-!
This module contains that a calibration stays between the smallest and the largest measured output.
An interpolated value is the output of an extreme point, or on the line through two points with
different inputs. A piece of a ramp is drawn between two interpolated values, so that it stays
between them although the value after its last tick does not have to.
-/

namespace Waveplan.Calibration

open Instruction

variable {c : Calibration Exact} {x : Exact} {p q : Exact × Exact}

/--
That a value is between the smallest and the largest output of some points.
-/
def InRange (points : List (Exact × Exact)) (y : Exact) : Prop :=
  (∃ p ∈ points, p.2.toRat ≤ y.toRat) ∧ ∃ p ∈ points, y.toRat ≤ p.2.toRat

instance (points : List (Exact × Exact)) (y : Exact) : Decidable (InRange points y) :=
  inferInstanceAs (Decidable (_ ∧ _))

section InRange

variable {points : List (Exact × Exact)} {u v w : Exact}

theorem inRange_of_mem (h : p ∈ points) : InRange points p.2 :=
  ⟨⟨p, h, le_refl _⟩, ⟨p, h, le_refl _⟩⟩

theorem inRange_congr {points' : List (Exact × Exact)} (h : points.Perm points') (y : Exact) :
    InRange points y ↔ InRange points' y := by
  simp only [InRange, h.mem_iff]

theorem InRange.chord {t : ℚ} (hu : InRange points u) (hv : InRange points v) (h₀ : 0 ≤ t)
    (h₁ : t ≤ 1) (hw : w.toRat = u.toRat + t * (v.toRat - u.toRat)) : InRange points w := by
  wlog h : u.toRat ≤ v.toRat generalizing u v t
  . exact this hv hu (sub_nonneg.mpr h₁) (sub_le_self 1 h₀) (by rw [hw]; ring) (le_of_not_ge h)
  obtain ⟨⟨p, hp, hpu⟩, _⟩ := hu
  obtain ⟨_, ⟨q, hq, hvq⟩⟩ := hv
  have hnonneg := mul_nonneg h₀ (sub_nonneg.mpr h)
  have hle := mul_le_of_le_one_left (sub_nonneg.mpr h) h₁
  exact ⟨⟨p, hp, by linarith⟩, ⟨q, hq, by linarith⟩⟩

end InRange

section Line

theorem lineThrough_of_ne (h : p.1 ≠ q.1) (x : Exact) :
    lineThrough p q x = p.2 + (x - p.1) * (q.2 - p.2) / (q.1 - p.1) :=
  if_neg fun he => h (Exact.beq_iff.mp he).symm

theorem ne_of_toRat_lt {u v : Exact} (h : u.toRat < v.toRat) : u ≠ v :=
  fun he => ne_of_lt h (Exact.toRat_inj.mpr he)

theorem toRat_lineThrough (h : p.1.toRat < q.1.toRat) (x : Exact) :
    (lineThrough p q x).toRat = p.2.toRat
      + (x.toRat - p.1.toRat) / (q.1.toRat - p.1.toRat) * (q.2.toRat - p.2.toRat) := by
  rw [lineThrough_of_ne (ne_of_toRat_lt h)]
  simp only [Exact.toRat_add, Exact.toRat_div, Exact.toRat_mul, Exact.toRat_sub]
  rw [mul_div_right_comm]

theorem lineThrough_mono {y : Exact} (h : p.1.toRat < q.1.toRat) (hpq : p.2.toRat ≤ q.2.toRat)
    (hxy : x.toRat ≤ y.toRat) : (lineThrough p q x).toRat ≤ (lineThrough p q y).toRat := by
  have hinput := sub_pos.mpr h
  have houtput := sub_nonneg.mpr hpq
  rw [toRat_lineThrough h, toRat_lineThrough h]
  gcongr

end Line

theorem interpolate_eq_above_of_lt (hc : c.Ascending)
    (hx : ∃ r ∈ c.points, r.1.toRat < x.toRat) : c.interpolate x = c.above x x := by
  obtain ⟨r, hr, hlt⟩ := hx
  apply interpolate_eq_above hc
  intro s hs
  obtain ⟨rest, hpoints⟩ := List.head?_eq_some_iff.mp hs
  unfold Ascending at hc
  rw [hpoints] at hc hr
  exact ne_of_toRat_lt (lt_of_le_of_lt (first_le hc r hr) hlt)

/--
That two neighbouring points are the ones around an input: the last point that is not above it and
the first one above it.
-/
structure Surrounds (c : Calibration Exact) (p q : Exact × Exact) (x : Exact) : Prop where
  adjacent : ∃ low high, c.points = low ++ [p] ++ q :: high
  le : p.1.toRat ≤ x.toRat
  lt : x.toRat < q.1.toRat

namespace Surrounds

variable (h : c.Surrounds p q x)

include h

theorem left_mem : p ∈ c.points := by
  obtain ⟨low, high, hpoints⟩ := h.adjacent
  simp [hpoints]

theorem right_mem : q ∈ c.points := by
  obtain ⟨low, high, hpoints⟩ := h.adjacent
  simp [hpoints]

theorem inputs_lt : p.1.toRat < q.1.toRat := lt_of_le_of_lt h.le h.lt

theorem exists_split (hc : c.Ascending) :
    ∃ low high, c.points = low ++ [p] ++ q :: high
      ∧ (∀ r ∈ low ++ [p], Number.le r.1 x) ∧ ∀ r ∈ q :: high, !Number.le r.1 x := by
  obtain ⟨low, high, hpoints⟩ := h.adjacent
  unfold Ascending at hc
  rw [hpoints] at hc
  obtain ⟨hlow, hhigh, _⟩ := List.pairwise_append.mp hc
  refine ⟨low, high, hpoints, fun r hr => ?_, fun r hr => ?_⟩
  . exact Exact.le_iff.mpr (le_trans (le_last hlow r hr) h.le)
  . exact Exact.not_le_iff.mpr (lt_of_lt_of_le h.lt (first_le hhigh r hr))

theorem above_eq (hc : c.Ascending) : c.above x = lineThrough p q := by
  obtain ⟨low, high, hpoints, hlow, hhigh⟩ := h.exists_split hc
  have hle : (c.points.filter fun r => Number.le r.1 x) = low ++ [p] := by
    rw [hpoints, List.filter_append, List.filter_eq_self.mpr hlow,
      List.filter_eq_nil_iff.mpr (by simpa using hhigh), List.append_nil]
  have hnot : (c.points.filter fun r => !Number.le r.1 x) = q :: high := by
    rw [hpoints, List.filter_append, List.filter_eq_self.mpr hhigh,
      List.filter_eq_nil_iff.mpr (by simpa using hlow), List.nil_append]
  rw [above, hle, hnot, List.getLast?_concat, List.head?_cons]
  rfl

theorem interpolate_eq (hc : c.Ascending) (hx : ∃ r ∈ c.points, r.1.toRat < x.toRat) :
    c.interpolate x = lineThrough p q x := by
  rw [interpolate_eq_above_of_lt hc hx, h.above_eq hc]

end Surrounds

theorem exists_surrounds (hc : c.Ascending) (hlt : ∃ r ∈ c.points, r.1.toRat < x.toRat)
    (hgt : ∃ r ∈ c.points, x.toRat < r.1.toRat) : ∃ p q, c.Surrounds p q x := by
  obtain ⟨r, hr, hlt⟩ := hlt
  obtain ⟨s, hs, hgt⟩ := hgt
  have hsplit := filter_le_append x hc
  have hr : r ∈ c.points.filter fun p => Number.le p.1 x :=
    List.mem_filter.mpr ⟨hr, Exact.le_iff.mpr (le_of_lt hlt)⟩
  have hs : s ∈ c.points.filter fun p => !Number.le p.1 x :=
    List.mem_filter.mpr ⟨hs, Exact.not_le_iff.mpr hgt⟩
  obtain ⟨low, p, hlow⟩ := (List.eq_nil_or_concat' _).resolve_left (List.ne_nil_of_mem hr)
  obtain ⟨q, high, hhigh⟩ := List.exists_cons_of_ne_nil (List.ne_nil_of_mem hs)
  have hp : p ∈ c.points.filter fun p => Number.le p.1 x := by simp [hlow]
  have hq : q ∈ c.points.filter fun p => !Number.le p.1 x := by simp [hhigh]
  exact ⟨p, q, ⟨low, high, by rw [← hsplit, hlow, hhigh]⟩,
    Exact.le_iff.mp (List.mem_filter.mp hp).2, Exact.not_le_iff.mp (List.mem_filter.mp hq).2⟩

theorem interpolate_of_last_le (hc : c.Ascending) {rest : List (Exact × Exact)}
    (hpoints : c.points = rest ++ [p]) (hx : p.1.toRat ≤ x.toRat)
    (hlt : ∃ r ∈ c.points, r.1.toRat < x.toRat) : c.interpolate x = p.2 := by
  have hle : ∀ r ∈ c.points, Number.le r.1 x := by
    intro r hr
    unfold Ascending at hc
    rw [hpoints] at hc hr
    exact Exact.le_iff.mpr (le_trans (le_last hc r hr) hx)
  rw [interpolate_eq_above_of_lt hc hlt, above, List.filter_eq_self.mpr hle,
    List.filter_eq_nil_iff.mpr (by simpa using hle), hpoints, List.getLast?_concat]
  rfl

/--
Where an input is among the measured ones, and which output it has there.
-/
inductive Reading (c : Calibration Exact) (x : Exact) : Prop where
  | first (p : Exact × Exact) (rest : List (Exact × Exact)) (hpoints : c.points = p :: rest)
    (hx : ∀ r ∈ c.points, x.toRat ≤ r.1.toRat) (he : c.interpolate x = p.2)
  | last (rest : List (Exact × Exact)) (p : Exact × Exact) (hpoints : c.points = rest ++ [p])
    (hlt : ∃ r ∈ c.points, r.1.toRat < x.toRat) (hx : ∀ r ∈ c.points, r.1.toRat ≤ x.toRat)
    (he : c.interpolate x = p.2)
  | inside (p q : Exact × Exact) (h : c.Surrounds p q x)
    (hlt : ∃ r ∈ c.points, r.1.toRat < x.toRat) (he : c.interpolate x = lineThrough p q x)

theorem reading (hc : c.Ascending) (hne : c.points ≠ []) (x : Exact) : c.Reading x := by
  by_cases hlt : ∃ r ∈ c.points, r.1.toRat < x.toRat
  . by_cases hgt : ∃ r ∈ c.points, x.toRat < r.1.toRat
    . obtain ⟨p, q, h⟩ := exists_surrounds hc hlt hgt
      exact .inside p q h hlt (h.interpolate_eq hc hlt)
    . simp only [not_exists, not_and, not_lt] at hgt
      obtain ⟨rest, p, hpoints⟩ := (List.eq_nil_or_concat' _).resolve_left hne
      have hp := hgt p (by simp [hpoints])
      exact .last rest p hpoints hlt hgt (interpolate_of_last_le hc hpoints hp hlt)
  . simp only [not_exists, not_and, not_lt] at hlt
    obtain ⟨p, rest, hpoints⟩ := List.exists_cons_of_ne_nil hne
    have hp := hlt p (by simp [hpoints])
    exact .first p rest hpoints hlt (interpolate_of_le_first hpoints hp)

theorem inRange_interpolate (hc : c.Ascending) (hne : c.points ≠ []) (x : Exact) :
    InRange c.points (c.interpolate x) := by
  cases reading hc hne x with
  | first p rest hpoints _ he =>
    rw [he]
    exact inRange_of_mem (by simp [hpoints])
  | last rest p hpoints _ _ he =>
    rw [he]
    exact inRange_of_mem (by simp [hpoints])
  | inside p q h _ he =>
    have hpos := sub_pos.mpr h.inputs_lt
    rw [he]
    exact (inRange_of_mem h.left_mem).chord (inRange_of_mem h.right_mem)
      (div_nonneg (sub_nonneg.mpr h.le) (le_of_lt hpos))
      ((div_le_one hpos).mpr (sub_le_sub_right (le_of_lt h.lt) _)) (toRat_lineThrough h.inputs_lt x)

section Monotone

variable (hc : c.Ascending) (hm : c.outputs.Pairwise fun u v => u.toRat ≤ v.toRat)

include hm

theorem pairwise_outputs : c.points.Pairwise fun p q => p.2.toRat ≤ q.2.toRat :=
  List.pairwise_map.mp hm

theorem Surrounds.outputs_le (h : c.Surrounds p q x) : p.2.toRat ≤ q.2.toRat := by
  obtain ⟨low, high, hpoints⟩ := h.adjacent
  have hm := pairwise_outputs hm
  rw [hpoints] at hm
  exact (List.pairwise_append.mp hm).2.2 p (by simp) q (by simp)

include hc

theorem output_le_interpolate {r : Exact × Exact} (hr : r ∈ c.points) (hrx : r.1.toRat ≤ x.toRat)
    (hlt : ∃ s ∈ c.points, s.1.toRat < x.toRat) : r.2.toRat ≤ (c.interpolate x).toRat := by
  have hpairwise := pairwise_outputs hm
  cases reading hc (List.ne_nil_of_mem hr) x with
  | first _ _ _ hx _ =>
    obtain ⟨s, hs, hlt⟩ := hlt
    exact absurd (hx s hs) (not_le.mpr hlt)
  | last rest p hpoints _ _ he =>
    rw [hpoints] at hpairwise hr
    rw [he]
    exact le_last hpairwise r hr
  | inside p q h _ he =>
    obtain ⟨low, high, hpoints, _, hhigh⟩ := h.exists_split hc
    rw [hpoints] at hpairwise hr
    -- the inputs from the right point on are above `x`
    have hr : r ∈ low ++ [p] := (List.mem_append.mp hr).resolve_right fun hr =>
      absurd hrx (not_le.mpr (Exact.not_le_iff.mp (hhigh r hr)))
    calc r.2.toRat ≤ p.2.toRat := le_last (List.pairwise_append.mp hpairwise).1 r hr
      _ = (lineThrough p q p.1).toRat := by rw [lineThrough_left p q (ne_of_toRat_lt h.inputs_lt)]
      _ ≤ (lineThrough p q x).toRat := lineThrough_mono h.inputs_lt (h.outputs_le hm) h.le
      _ = (c.interpolate x).toRat := by rw [he]

theorem interpolate_mono (hne : c.points ≠ []) {x y : Exact} (hxy : x.toRat ≤ y.toRat) :
    (c.interpolate x).toRat ≤ (c.interpolate y).toRat := by
  have hy : (∃ r ∈ c.points, r.1.toRat < x.toRat) → ∃ r ∈ c.points, r.1.toRat < y.toRat :=
    fun ⟨r, hr, hlt⟩ => ⟨r, hr, lt_of_lt_of_le hlt hxy⟩
  cases reading hc hne x with
  | first p rest hpoints _ he =>
    obtain ⟨⟨r, hr, hle⟩, _⟩ := inRange_interpolate hc hne y
    have hpairwise := pairwise_outputs hm
    rw [hpoints] at hpairwise hr
    rw [he]
    exact le_trans (first_le hpairwise r hr) hle
  | last rest p hpoints hlt hx he =>
    have hp : p ∈ c.points := by simp [hpoints]
    rw [he]
    exact output_le_interpolate hc hm hp (le_trans (hx p hp) hxy) (hy hlt)
  | inside p q h hlt he =>
    have hle := h.outputs_le hm
    rw [he]
    by_cases hyq : y.toRat < q.1.toRat
    -- either no measured input is between `x` and `y`, or the right point is
    . have h' : c.Surrounds p q y := ⟨h.adjacent, le_trans h.le hxy, hyq⟩
      rw [h'.interpolate_eq hc (hy hlt)]
      exact lineThrough_mono h.inputs_lt hle hxy
    . calc (lineThrough p q x).toRat ≤ (lineThrough p q q.1).toRat :=
          lineThrough_mono h.inputs_lt hle (le_of_lt h.lt)
        _ = q.2.toRat := by rw [lineThrough_right]
        _ ≤ (c.interpolate y).toRat :=
          output_le_interpolate hc hm h.right_mem (not_lt.mp hyq) (hy hlt)

end Monotone

section Apply

variable (hc : c.Ascending) (hne : c.points ≠ [])

include hc hne

theorem inRange_sampleAt_piece (a b : Exact) {n start stop : Nat} (h : start < stop) :
    ∀ i < stop - start, ∃ v, (c.piece a b n start stop).sampleAt i = ⟨[.float v]⟩
      ∧ InRange c.points v := by
  intro i hi
  have hfirst := inRange_interpolate hc hne (rampValue a b n start)
  unfold piece
  dsimp only
  split
  . have : i = 0 := by omega
    subst this
    exact ⟨_, rfl, hfirst⟩
  . have hlast := inRange_interpolate hc hne (rampValue a b n (stop - 1))
    -- only the value after the last tick, which the ramp is stored with, is not on the chord
    refine ⟨_, sampleAt_linear _ _ hi, hfirst.chord hlast
      (t := (i : ℚ) / (stop - start - 1 : Nat)) (by positivity) ?_ ?_⟩
    . apply div_le_one_of_le₀ _ (Nat.cast_nonneg _)
      exact_mod_cast Nat.le_sub_one_of_lt hi
    . rw [toRat_valueAt_chord _ _ (by omega), mul_div_right_comm]

theorem inRange_sampleAt_applyRamp {a b : Exact} {n : Nat} {y : Instruction Exact}
    (hy : c.applyRamp a b n = .ok y) :
    ∀ i < n, ∃ v, y.sampleAt i = ⟨[.float v]⟩ ∧ InRange c.points v := by
  intro k hk
  by_cases hab : a = b
  . subst hab
    cases (c.applyRamp_self a n).symm.trans hy
    exact ⟨_, sampleAt_hold _ hk, inRange_interpolate hc hne a⟩
  . cases (c.applyRamp_of_ne hab n).symm.trans hy
    obtain ⟨cut, hcut, hs, he⟩ :=
      (isPartition_exact c a b n).exists_mem_intervals (Nat.zero_le k) hk
    obtain ⟨i, rfl⟩ := Nat.exists_eq_add_of_le hs
    have hi : i < cut.2 - cut.1 := by omega
    rw [sampleAt_join_pieces c a b n cut hcut i hi]
    exact inRange_sampleAt_piece hc hne a b (start_lt_of_mem_cuts hcut) i hi

theorem exists_apply_inRange {x : Instruction Exact} (hx : x.Normal) (hw : x.width = 1) :
    ∃ y, c.apply x = .ok y ∧ y.length = x.length
      ∧ ∀ i < x.length, ∃ v, y.sampleAt i = ⟨[.float v]⟩ ∧ InRange c.points v := by
  obtain ⟨z, hz, _⟩ := exists_asType_float hx hw
  obtain ⟨ht, hl⟩ := typed_asType hx hz
  obtain ⟨y, hy, hly, hs⟩ := exists_applyFloat_rel (c := c)
    (R := fun _ t => ∃ v, t = ⟨[.float v]⟩ ∧ InRange c.points v)
    (fun v => ⟨_, rfl, inRange_interpolate hc hne v⟩)
    (fun _ _ _ _ hy => inRange_sampleAt_applyRamp hc hne hy) ht
  rw [hl] at hly hs
  exact ⟨y, (apply_of_asType hz).trans hy, hly, hs⟩

end Apply

/--
What a calibration gives for measured points: for every input an output in their range, without
dividing by zero, and only such outputs for every instruction of one channel.
-/
structure StaysInRange (points : List (Exact × Exact)) (c : Calibration Exact) : Prop where
  perm : c.points.Perm points
  ascending : c.Ascending
  interpolate : ∀ x, InRange points (c.interpolate x)
  /-- Up to the first input nothing is divided. -/
  first : ∀ x p rest, c.points = p :: rest → x.toRat ≤ p.1.toRat → c.interpolate x = p.2
  /-- From the last input on nothing is divided either. -/
  last : ∀ x p rest, c.points = rest ++ [p] → p.1.toRat ≤ x.toRat →
    (∃ r ∈ c.points, r.1.toRat < x.toRat) → c.interpolate x = p.2
  /-- The two inputs around any other one are not equal. -/
  line : ∀ x, (∃ r ∈ c.points, r.1.toRat < x.toRat) → (∃ r ∈ c.points, x.toRat < r.1.toRat) →
    ∃ p q, c.Surrounds p q x ∧ p.1 ≠ q.1
      ∧ c.interpolate x = p.2 + (x - p.1) * (q.2 - p.2) / (q.1 - p.1)
  at_point : ∀ p ∈ points, (∀ q ∈ points, q.1 = p.1 → q.2 = p.2) → c.interpolate p.1 = p.2
  mono : (c.outputs.Pairwise fun u v => u.toRat ≤ v.toRat) →
    ∀ x y, x.toRat ≤ y.toRat → (c.interpolate x).toRat ≤ (c.interpolate y).toRat
  apply : ∀ x : Instruction Exact, x.Normal → x.width = 1 →
    ∃ y, c.apply x = .ok y ∧ y.length = x.length
      ∧ ∀ i < x.length, ∃ v, y.sampleAt i = ⟨[.float v]⟩ ∧ InRange points v

theorem points_ne_nil {points : List (Exact × Exact)} (h : ofPoints points = .ok c) :
    c.points ≠ [] := by
  have hl := (perm_points h).length_eq
  unfold ofPoints at h
  split at h
  . contradiction
  . intro he
    rw [he, List.length_nil] at hl
    omega

/--
A calibration never leaves the range of the outputs that it was made of.
-/
theorem staysInRange {points : List (Exact × Exact)} (h : ofPoints points = .ok c) :
    StaysInRange points c where
  perm := perm_points h
  ascending := ascending_ofPoints h
  interpolate x := (inRange_congr (perm_points h) _).mp
    (inRange_interpolate (ascending_ofPoints h) (points_ne_nil h) x)
  first _ _ _ hpoints hx := interpolate_of_le_first hpoints hx
  last _ _ _ hpoints hx hlt := interpolate_of_last_le (ascending_ofPoints h) hpoints hx hlt
  line x hlt hgt := by
    have hc := ascending_ofPoints h
    obtain ⟨p, q, hs⟩ := exists_surrounds hc hlt hgt
    have hne := ne_of_toRat_lt hs.inputs_lt
    exact ⟨p, q, hs, hne, (hs.interpolate_eq hc hlt).trans (lineThrough_of_ne hne x)⟩
  at_point p hp hq := by
    have hmem (r : Exact × Exact) := (perm_points h).mem_iff (a := r)
    obtain ⟨q, hqm, he, hi⟩ := exists_interpolate_eq (ascending_ofPoints h) ((hmem p).mpr hp)
    rw [hi, hq q ((hmem q).mp hqm) he]
  mono hm _ _ := interpolate_mono (ascending_ofPoints h) hm (points_ne_nil h)
  apply x hx hw := by
    simp only [← inRange_congr (perm_points h)]
    exact exists_apply_inRange (ascending_ofPoints h) (points_ne_nil h) hx hw

/--
A fall from the jump on, which is calibrated in one piece.
-/
def fall : Instruction Exact := .ramp ⟨.float, [Number.ofNat 2], [Number.ofNat 0], 4⟩

theorem normal_fall : fall.Normal := normal_ramp.mpr ⟨⟨rfl, rfl, rfl⟩, by decide⟩

/--
The value after the last tick, if the first tick is at 10 and the last one at 1/2.
-/
def fallStop : Exact :=
  Number.ofNat 10
    + Number.ofNat 4 * (Number.ofNat 1 / Number.ofNat 2 - Number.ofNat 10) / Number.ofNat 3

theorem apply_fall :
    jump.apply fall = .ok (.ramp ⟨.float, [Number.ofNat 10], [fallStop], 4⟩) := by
  have hcuts : jump.cuts (Number.ofNat 2) (Number.ofNat 0) 4 = [0, 4] :=
    cuts_eq (l := [0, 0, 0, 0, 4, 4]) (by decide) (by decide +kernel)
  have hfirst : jump.interpolate (rampValue (Number.ofNat 2) (Number.ofNat 0) 4 0)
      = Number.ofNat 10 := by decide +kernel
  have hlast : jump.interpolate (rampValue (Number.ofNat 2) (Number.ofNat 0) 4 3)
      = Number.ofNat 1 / Number.ofNat 2 := by decide +kernel
  have hpiece : jump.piece (Number.ofNat 2) (Number.ofNat 0) 4 0 4
      = .linear (Number.ofNat 10) fallStop 4 := by
    rw [piece, hfirst, hlast]
    exact if_neg (by decide)
  rw [fall, apply_ramp, applyRamp_of_ne _ (by decide), pieces, hcuts]
  change Except.ok (join .float [jump.piece (Number.ofNat 2) (Number.ofNat 0) 4 0 4]) = _
  rw [hpiece]
  rfl

/--
The value that the fall is stored with is out of the range, and none of its ticks is.
-/
theorem staysInRange_fall :
    ∃ y, jump.apply fall = .ok y ∧ y = .ramp ⟨.float, [Number.ofNat 10], [fallStop], 4⟩
      ∧ ¬InRange jump.points fallStop
      ∧ ∀ i < 4, ∃ v, y.sampleAt i = ⟨[.float v]⟩ ∧ InRange jump.points v := by
  have h := staysInRange (ofPoints_points (c := jump) (by decide) (by decide))
  obtain ⟨y, hy, _, hs⟩ := h.apply fall normal_fall rfl
  exact ⟨y, hy, Except.ok.inj (hy.symm.trans apply_fall), by decide +kernel, hs⟩

end Waveplan.Calibration
