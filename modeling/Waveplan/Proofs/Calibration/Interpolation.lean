import Mathlib.Data.List.Nodup
import Waveplan.Proofs.Exact

/-!
This module contains the interpolation between measured points of exact numbers. Points that share
an input make the output jump: there the lines on both sides do not meet, and the interpolation
takes the output of one of the points.
-/

namespace Waveplan.Calibration

variable {c : Calibration Exact} {x : Exact}

theorem perm_points {points : List (Exact × Exact)} (h : ofPoints points = .ok c) :
    c.points.Perm points := by
  unfold ofPoints at h
  split at h
  . contradiction
  . split at h
    . contradiction
    . cases h
      exact List.mergeSort_perm _ _

section Ends

variable {f : Exact × Exact → ℚ} {p : Exact × Exact} {l : List (Exact × Exact)}

theorem first_le (h : (p :: l).Pairwise fun r s => f r ≤ f s) : ∀ r ∈ p :: l, f p ≤ f r := by
  intro r hr
  rcases List.mem_cons.mp hr with rfl | hr
  . exact le_refl _
  . exact (List.pairwise_cons.mp h).1 r hr

theorem le_last (h : (l ++ [p]).Pairwise fun r s => f r ≤ f s) : ∀ r ∈ l ++ [p], f r ≤ f p := by
  intro r hr
  rcases List.mem_append.mp hr with hr | hr
  . exact (List.pairwise_append.mp h).2.2 r hr p List.mem_cons_self
  . rw [List.mem_singleton.mp hr]

end Ends

/--
The inputs of the points ascend. Some of them can be equal.
-/
def Ascending (c : Calibration Exact) : Prop :=
  c.points.Pairwise fun p q => p.1.toRat ≤ q.1.toRat

theorem ascending_ofPoints {points : List (Exact × Exact)} (h : ofPoints points = .ok c) :
    c.Ascending := by
  unfold ofPoints at h
  split at h
  . contradiction
  . split at h
    . contradiction
    . cases h
      have := @List.pairwise_mergeSort (Exact × Exact) (fun p q => Number.totalLe p.1 q.1)
        (fun p q r h₁ h₂ => by
          rw [Exact.totalLe_iff] at h₁ h₂ ⊢
          exact le_trans h₁ h₂)
        (fun p q => by
          rw [Bool.or_eq_true, Exact.totalLe_iff, Exact.totalLe_iff]
          exact le_total _ _)
        points
      exact this.imp Exact.totalLe_iff.mp

instance (c : Calibration Exact) : Decidable c.Ascending :=
  inferInstanceAs (Decidable (c.points.Pairwise fun p q => p.1.toRat ≤ q.1.toRat))

theorem ofPoints_points (hl : 2 ≤ c.points.length) (hc : c.Ascending) :
    ofPoints c.points = .ok c := by
  have hsort : c.points.mergeSort (fun p q => Number.totalLe p.1 q.1) = c.points :=
    List.mergeSort_of_pairwise (hc.imp Exact.totalLe_iff.mpr)
  have hfind : (c.points.find? fun (x, y) => !Number.isFinite x || !Number.isFinite y) = none :=
    List.find?_eq_none.mpr fun _ _ => Bool.false_ne_true
  rw [ofPoints, if_neg (by omega), hfind, hsort]

theorem interpolate_of_le_first {p : Exact × Exact} {rest : List (Exact × Exact)}
    (hpoints : c.points = p :: rest) (hx : x.toRat ≤ p.1.toRat) : c.interpolate x = p.2 := by
  rw [interpolate, hpoints]
  exact if_pos (Exact.le_iff.mpr hx)

section Line

theorem lineThrough_left (p q : Exact × Exact) (h : p.1 ≠ q.1) : lineThrough p q p.1 = p.2 := by
  rw [lineThrough, if_neg (fun he => h (Exact.beq_iff.mp he).symm)]
  apply Exact.toRat_inj.mp
  simp

theorem lineThrough_right (p q : Exact × Exact) : lineThrough p q q.1 = q.2 := by
  rw [lineThrough]
  split
  . rfl
  . next h =>
    have h : q.1.toRat - p.1.toRat ≠ 0 := by
      intro he
      exact h (Exact.beq_iff.mpr (Exact.toRat_inj.mp (sub_eq_zero.mp he)))
    apply Exact.toRat_inj.mp
    simp only [Exact.toRat_add, Exact.toRat_div, Exact.toRat_mul, Exact.toRat_sub]
    rw [mul_div_cancel_left₀ _ h, add_sub_cancel]

/--
The line between a point and the next one, which is level before the first point and after the last
one.
-/
def between (p q : Option (Exact × Exact)) (x : Exact) : Exact :=
  match p, q with
  | none, none => Number.zero
  | none, some q => q.2
  | some p, none => p.2
  | some p, some q => lineThrough p q x

theorem exists_between_eq (p q : Option (Exact × Exact)) :
    ∃ u v : ℚ, ∀ x, (between p q x).toRat = u + v * x.toRat := by
  match p, q with
  | none, none => exact ⟨0, 0, fun x => by rw [between, Exact.toRat_zero]; ring⟩
  | none, some q => exact ⟨q.2.toRat, 0, fun x => by rw [between]; ring⟩
  | some p, none => exact ⟨p.2.toRat, 0, fun x => by rw [between]; ring⟩
  | some p, some q =>
    unfold between lineThrough
    dsimp only
    split
    . exact ⟨q.2.toRat, 0, fun x => by ring⟩
    . refine ⟨p.2.toRat - p.1.toRat * (q.2.toRat - p.2.toRat) / (q.1.toRat - p.1.toRat),
        (q.2.toRat - p.2.toRat) / (q.1.toRat - p.1.toRat), fun x => ?_⟩
      simp only [Exact.toRat_add, Exact.toRat_div, Exact.toRat_mul, Exact.toRat_sub]
      ring

end Line

/--
The line that is followed from an input on upwards: from the last point up to the input to the first
point above it.
-/
def above (c : Calibration Exact) (x : Exact) : Exact → Exact :=
  between (c.points.filter fun p => Number.le p.1 x).getLast?
    (c.points.filter fun p => !Number.le p.1 x).head?

/--
The line that is followed from an input on downwards: from the first point from the input on to the
last point below it.
-/
def below (c : Calibration Exact) (x : Exact) : Exact → Exact :=
  between (c.points.filter fun p => Number.lt p.1 x).getLast?
    (c.points.filter fun p => !Number.lt p.1 x).head?

theorem above_congr {y : Exact}
    (h : ∀ p ∈ c.points, p.1.toRat ≤ x.toRat ↔ p.1.toRat ≤ y.toRat) : c.above x = c.above y := by
  have hle : ∀ p ∈ c.points, Number.le p.1 x = Number.le p.1 y := by
    intro p hp
    rw [Bool.eq_iff_iff, Exact.le_iff, Exact.le_iff, h p hp]
  rw [above, above, List.filter_congr hle, List.filter_congr fun p hp => congrArg _ (hle p hp)]

theorem below_congr {y : Exact}
    (h : ∀ p ∈ c.points, x.toRat ≤ p.1.toRat ↔ y.toRat ≤ p.1.toRat) : c.below x = c.below y := by
  have hlt : ∀ p ∈ c.points, Number.lt p.1 x = Number.lt p.1 y := by
    intro p hp
    rw [Bool.eq_iff_iff, Exact.lt_iff, Exact.lt_iff, ← not_le, ← not_le, h p hp]
  rw [below, below, List.filter_congr hlt, List.filter_congr fun p hp => congrArg _ (hlt p hp)]

theorem filter_append_filter_not {β : Type} {f : β → Bool} {l : List β}
    (h : l.Pairwise fun a b => f b → f a) : (l.filter f) ++ (l.filter fun a => !f a) = l := by
  induction l with
  | nil => rfl
  | cons a l ih =>
    obtain ⟨ha, h⟩ := List.pairwise_cons.mp h
    by_cases hf : f a
    . rw [List.filter_cons_of_pos hf, List.filter_cons_of_neg (by simp [hf]), List.cons_append,
        ih h]
    . have hnot : ∀ b ∈ l, ¬f b := fun b hb hfb => hf (ha b hb hfb)
      rw [List.filter_cons_of_neg hf, List.filter_cons_of_pos (by simpa using hf),
        List.filter_eq_nil_iff.mpr hnot, List.nil_append, List.filter_eq_self.mpr]
      simpa using hnot

/--
Points with ascending inputs are the ones up to an input, and then the ones above it.
-/
theorem filter_le_append (x : Exact) {l : List (Exact × Exact)}
    (h : l.Pairwise fun p q => p.1.toRat ≤ q.1.toRat) :
    (l.filter fun p => Number.le p.1 x) ++ (l.filter fun p => !Number.le p.1 x) = l :=
  filter_append_filter_not (h.imp fun h hle => Exact.le_iff.mpr (le_trans h (Exact.le_iff.mp hle)))

theorem interpolateFrom_append (p q : Exact × Exact) {low : List (Exact × Exact)}
    (high : List (Exact × Exact)) (hl : ∀ r ∈ low, Number.le r.1 x) (hq : ¬Number.le q.1 x) :
    interpolateFrom p (low ++ q :: high) x = lineThrough (low.getLastD p) q x := by
  induction low generalizing p with
  | nil =>
    cases high with
    | nil => rfl
    | cons r rest => rw [List.nil_append, interpolateFrom, if_neg hq, List.getLastD_nil]
  | cons r low ih =>
    obtain ⟨hr, hl⟩ := List.forall_mem_cons.mp hl
    have ih := ih r hl
    cases low with
    | nil =>
      rw [List.cons_append, List.nil_append, interpolateFrom, if_pos hr]
      exact ih
    | cons s low =>
      rw [List.cons_append, List.cons_append, interpolateFrom, if_pos hr]
      exact ih

theorem interpolate_of_split {p : Exact × Exact} {low high : List (Exact × Exact)}
    (h : c.points = p :: (low ++ high)) (hp : ¬Number.le x p.1)
    (hl : ∀ r ∈ low, Number.le r.1 x) (hh : ∀ r ∈ high, ¬Number.le r.1 x) :
    c.interpolate x = between (some (low.getLastD p)) high.head? x := by
  rw [interpolate, h]
  dsimp only
  rw [if_neg hp]
  cases high with
  | nil =>
    rw [List.append_nil, if_pos]
    . rfl
    . rcases List.mem_cons.mp (@List.getLastD_mem_cons _ low p) with he | hm
      . rw [he, Exact.le_iff]
        exact le_of_not_ge fun hle => hp (Exact.le_iff.mpr hle)
      . exact hl _ hm
  | cons q high =>
    rw [if_neg]
    . exact interpolateFrom_append p q high hl (hh q List.mem_cons_self)
    . apply hh
      grind

/--
Below the first point and on it the output of the first point is taken, whichever points share its
input.
-/
theorem interpolate_eq_above (hc : c.Ascending) (hx : ∀ p ∈ c.points.head?, p.1 ≠ x) :
    c.interpolate x = c.above x x := by
  unfold Ascending at hc
  cases hp : c.points with
  | nil => simp [interpolate, above, between, hp]
  | cons p rest =>
    rw [hp] at hc hx
    have hne : p.1.toRat ≠ x.toRat := hx p rfl
    by_cases hle : Number.le x p.1
    . have hlt := lt_of_le_of_ne (Exact.le_iff.mp hle) hne.symm
      have hall : ∀ q ∈ p :: rest, !Number.le q.1 x := fun q hq =>
        Exact.not_le_iff.mpr (lt_of_lt_of_le hlt (first_le hc q hq))
      rw [interpolate_of_le_first hp (le_of_lt hlt), above, hp,
        List.filter_eq_nil_iff.mpr (by simpa using hall), List.filter_eq_self.mpr hall]
      rfl
    . have hpx : Number.le p.1 x := by
        rw [Exact.le_iff] at hle ⊢
        exact le_of_not_ge hle
      have happend := filter_le_append x (List.pairwise_cons.mp hc).2
      rw [interpolate_of_split (hp.trans (congrArg (p :: ·) happend.symm)) hle
        (fun r hr => (List.mem_filter.mp hr).2)
        (fun r hr => by simpa using (List.mem_filter.mp hr).2),
        above, hp, List.filter_cons, List.filter_cons, if_pos hpx, if_neg (by simp [hpx]),
        List.getLast?_cons, ← List.getLastD_eq_getLast?]

section Input

variable {p : Exact × Exact}

theorem exists_above_eq (hc : c.Ascending) (hp : p ∈ c.points) :
    ∃ q ∈ c.points, q.1 = p.1 ∧ c.above p.1 p.1 = q.2 := by
  have hmem : p ∈ c.points.filter fun q => Number.le q.1 p.1 :=
    List.mem_filter.mpr ⟨hp, Exact.le_iff.mpr (le_refl _)⟩
  obtain ⟨low, q, hlow⟩ := (List.eq_nil_or_concat' _).resolve_left (List.ne_nil_of_mem hmem)
  have hq : q ∈ c.points.filter fun q => Number.le q.1 p.1 := by simp [hlow]
  obtain ⟨hq, hle⟩ := List.mem_filter.mp hq
  -- the last of the points up to the input is at the input
  have heq : q.1 = p.1 := by
    apply Exact.toRat_inj.mp
    apply le_antisymm (Exact.le_iff.mp hle)
    have := hc.filter fun q => Number.le q.1 p.1
    rw [hlow] at this hmem
    exact le_last this p hmem
  refine ⟨q, hq, heq, ?_⟩
  rw [above, hlow, List.getLast?_concat]
  cases hhigh : (c.points.filter fun q => !Number.le q.1 p.1).head? with
  | none => rfl
  | some r =>
    have hr : ¬Number.le r.1 p.1 := by
      simpa using (List.mem_filter.mp (List.mem_of_head? hhigh)).2
    rw [between, ← heq, lineThrough_left]
    intro he
    rw [← he, heq, Exact.le_iff] at hr
    exact hr (le_refl _)

theorem exists_below_eq (hc : c.Ascending) (hp : p ∈ c.points) :
    ∃ q ∈ c.points, q.1 = p.1 ∧ c.below p.1 p.1 = q.2 := by
  have hmem : p ∈ c.points.filter fun q => !Number.lt q.1 p.1 :=
    List.mem_filter.mpr ⟨hp, Exact.not_lt_iff.mpr (le_refl _)⟩
  obtain ⟨q, high, hhigh⟩ := List.exists_cons_of_ne_nil (List.ne_nil_of_mem hmem)
  have hq : q ∈ c.points.filter fun q => !Number.lt q.1 p.1 := by simp [hhigh]
  obtain ⟨hq, hlt⟩ := List.mem_filter.mp hq
  -- the first of the points from the input on is at the input
  have heq : q.1 = p.1 := by
    apply Exact.toRat_inj.mp
    apply le_antisymm
    . have := hc.filter fun q => !Number.lt q.1 p.1
      rw [hhigh] at this hmem
      exact first_le this p hmem
    . exact Exact.not_lt_iff.mp hlt
  refine ⟨q, hq, heq, ?_⟩
  rw [below, hhigh, List.head?_cons]
  cases (c.points.filter fun q => Number.lt q.1 p.1).getLast? with
  | none => rfl
  | some r => rw [between, ← heq, lineThrough_right]

theorem exists_interpolate_eq (hc : c.Ascending) (hp : p ∈ c.points) :
    ∃ q ∈ c.points, q.1 = p.1 ∧ c.interpolate p.1 = q.2 := by
  by_cases hfirst : ∀ q ∈ c.points.head?, q.1 ≠ p.1
  . rw [interpolate_eq_above hc hfirst]
    exact exists_above_eq hc hp
  . simp only [not_forall, not_not] at hfirst
    obtain ⟨q, hq, he⟩ := hfirst
    obtain ⟨rest, hpoints⟩ := List.head?_eq_some_iff.mp hq
    refine ⟨q, List.mem_of_head? hq, he, ?_⟩
    exact interpolate_of_le_first hpoints (by rw [he])

end Input

/--
All points at an input have one output, so that the lines on both sides meet there.
-/
def IsContinuousAt (c : Calibration Exact) (x : Exact) : Prop :=
  ∀ p ∈ c.points, ∀ q ∈ c.points, p.1 = x → q.1 = x → p.2 = q.2

theorem isContinuousAt_of_nodup (h : c.inputs.Nodup) (x : Exact) : c.IsContinuousAt x := by
  intro p hp q hq hpx hqx
  rw [List.inj_on_of_nodup_map h hp hq (hpx.trans hqx.symm)]

theorem isContinuousAt_of_ne (h : ∀ p ∈ c.points, p.1 ≠ x) : c.IsContinuousAt x :=
  fun p hp _ _ hpx => absurd hpx (h p hp)

theorem above_eq_below_of_ne (h : ∀ p ∈ c.points, p.1 ≠ x) : c.above x = c.below x := by
  have hle : ∀ p ∈ c.points, Number.le p.1 x = Number.lt p.1 x := by
    intro p hp
    rw [Bool.eq_iff_iff, Exact.le_iff, Exact.lt_iff]
    exact (Ne.le_iff_lt (h p hp))
  rw [above, below, List.filter_congr hle, List.filter_congr fun p hp => congrArg _ (hle p hp)]

/--
The line that a ramp from `a` to `b` follows from an input on.
-/
def onward (c : Calibration Exact) (a b x : Exact) : Exact :=
  if Number.lt a b then c.above x x else c.below x x

theorem interpolate_eq_onward (hc : c.Ascending) (hx : c.IsContinuousAt x) (a b : Exact) :
    c.interpolate x = c.onward a b x := by
  unfold onward
  by_cases h : ∃ p ∈ c.points, p.1 = x
  . obtain ⟨p, hp, rfl⟩ := h
    obtain ⟨q, hq, hqx, hi⟩ := exists_interpolate_eq hc hp
    split
    . obtain ⟨r, hr, hrx, ha⟩ := exists_above_eq hc hp
      rw [hi, ha, hx q hq r hr hqx hrx]
    . obtain ⟨r, hr, hrx, hb⟩ := exists_below_eq hc hp
      rw [hi, hb, hx q hq r hr hqx hrx]
  . simp only [not_exists, not_and] at h
    rw [above_eq_below_of_ne h, ite_self, ← above_eq_below_of_ne h]
    exact interpolate_eq_above hc fun p hp => h p (List.mem_of_head? hp)

end Waveplan.Calibration
