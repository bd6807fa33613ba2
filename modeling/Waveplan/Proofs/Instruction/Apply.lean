import Waveplan.Proofs.Instruction.EndToEnd

/-!
This module contains that a function on patterns is applied to the leaves of an instruction. It
fails where it fails on a leaf, and where parts do not fit together any more. A function that maps
samples one by one maps the samples that the instruction is written out as.
-/

namespace Waveplan

section Recast

variable {α : Type} [Number α] {t : SampleType}

/--
The values of a sample, each converted to the kind of a channel.
-/
def Sample.recast (t : SampleType) (v : Sample α) : Sample α :=
  ⟨List.zipWith Scalar.cast v.values t.kinds⟩

theorem Column.get_cast (c : Column α) (k : ScalarKind) {i : Nat} (h : i < c.length) :
    (c.cast k).get i = (c.get i).cast k := by
  cases c <;> cases k <;> simp_all [cast, get, length, Scalar.cast, Scalar.toBool, Scalar.toFloat]

theorem Pattern.sample_recast {p : Pattern α} (hp : p.WellFormed) {i : Nat} (h : i < p.length) :
    (p.recast t).sample i = (p.sample i).recast t := by
  rw [sample, recast, sample, Sample.recast, List.map_zipWith, List.zipWith_map_left]
  congr 1
  apply List.ext_getElem
  . simp
  . intro j h₁ h₂
    simp only [List.length_zipWith] at h₁
    simp only [List.getElem_zipWith]
    exact Column.get_cast _ _ (by rw [hp.lengths _ (List.getElem_mem _)]; exact h)

end Recast

namespace Instruction

variable {α : Type} [Number α] {s t : SampleType} {x y : Instruction α}
  {f : Pattern α → Except InstructionError (Pattern α)}

section Leaves

/--
That a pattern is a leaf of a tree, ramps being written out.
-/
def IsLeaf (p : Pattern α) (x : Instruction α) : Prop :=
  IsNode (pattern p) x ∨ ∃ r, IsNode (ramp r) x ∧ p = r.toPattern

theorem isLeaf_pattern {p q : Pattern α} : IsLeaf p (pattern q) ↔ p = q := by
  simp [IsLeaf, isNode_pattern]

theorem isLeaf_ramp {p : Pattern α} {r : Ramp α} : IsLeaf p (ramp r) ↔ p = r.toPattern := by
  simp [IsLeaf, isNode_ramp]

theorem isLeaf_concatenated {p : Pattern α} {xs : List (Instruction α)} :
    IsLeaf p (concatenated xs) ↔ ∃ x ∈ xs, IsLeaf p x := by
  simp only [IsLeaf, isNode_concatenated, reduceCtorEq, false_or]
  constructor
  . rintro (⟨x, hx, h⟩ | ⟨r, ⟨x, hx, h⟩, hp⟩)
    . exact ⟨x, hx, .inl h⟩
    . exact ⟨x, hx, .inr ⟨r, h, hp⟩⟩
  . rintro ⟨x, hx, h | ⟨r, h, hp⟩⟩
    . exact .inl ⟨x, hx, h⟩
    . exact .inr ⟨r, ⟨x, hx, h⟩, hp⟩

theorem isLeaf_repeated {p : Pattern α} {n : Nat} {body : Instruction α} :
    IsLeaf p (repeated n body) ↔ IsLeaf p body := by
  simp [IsLeaf, isNode_repeated]

end Leaves

section Success

/--
That a function keeps the length of every leaf, and leaves the parts of every concatenation with a
common type.
-/
structure IsApplicable (f : Pattern α → Except InstructionError (Pattern α))
    (x : Instruction α) : Prop where
  leaves : ∀ p, IsLeaf p x → ∃ q, f p = .ok q ∧ q.length = p.length
  parts : ∀ xs ys, IsNode (concatenated xs) x → xs.mapM (·.apply f) = .ok ys →
    ∃ t : SampleType, t.IsCommon (ys.map sampleType)

theorem isApplicable_pattern {p : Pattern α} :
    IsApplicable f (pattern p) ↔ ∃ q, f p = .ok q ∧ q.length = p.length := by
  constructor
  . intro h
    exact h.leaves p (isLeaf_pattern.mpr rfl)
  . intro h
    refine ⟨fun q hq => ?_, fun zs ys hz => ?_⟩
    . rwa [isLeaf_pattern.mp hq]
    . exact absurd (isNode_pattern.mp hz) (by simp)

theorem isApplicable_ramp {r : Ramp α} : IsApplicable f (ramp r)
    ↔ ∃ q, f r.toPattern = .ok q ∧ q.length = r.toPattern.length := by
  constructor
  . intro h
    exact h.leaves r.toPattern (isLeaf_ramp.mpr rfl)
  . intro h
    refine ⟨fun q hq => ?_, fun zs ys hz => ?_⟩
    . rwa [isLeaf_ramp.mp hq]
    . exact absurd (isNode_ramp.mp hz) (by simp)

theorem isApplicable_concatenated {xs : List (Instruction α)} :
    IsApplicable f (concatenated xs) ↔ (∀ x ∈ xs, IsApplicable f x)
      ∧ ∀ ys, xs.mapM (·.apply f) = .ok ys → ∃ t : SampleType, t.IsCommon (ys.map sampleType) := by
  constructor
  . rintro ⟨hl, hp⟩
    refine ⟨fun x hx => ⟨fun p h => hl p (isLeaf_concatenated.mpr ⟨x, hx, h⟩), ?_⟩,
      fun ys => hp xs ys .self⟩
    exact fun zs ys h => hp zs ys (.part hx h)
  . rintro ⟨hxs, hp⟩
    constructor
    . intro p h
      obtain ⟨x, hx, h⟩ := isLeaf_concatenated.mp h
      exact (hxs x hx).leaves p h
    . intro zs ys h
      rcases isNode_concatenated.mp h with h | ⟨x, hx, h⟩
      . cases h
        exact hp ys
      . exact (hxs x hx).parts zs ys h

theorem isApplicable_repeated {n : Nat} {body : Instruction α} :
    IsApplicable f (repeated n body) ↔ IsApplicable f body := by
  constructor
  . rintro ⟨hl, hp⟩
    exact ⟨fun p h => hl p (isLeaf_repeated.mpr h), fun zs ys h => hp zs ys (.body n h)⟩
  . rintro ⟨hl, hp⟩
    refine ⟨fun p h => hl p (isLeaf_repeated.mp h), fun zs ys h => ?_⟩
    rcases isNode_repeated.mp h with h | h
    . contradiction
    . exact hp zs ys h

omit [Number α] in
theorem exists_applyPattern_iff {p : Pattern α} :
    (∃ y, applyPattern f p = .ok y) ↔ ∃ q, f p = .ok q ∧ q.length = p.length := by
  simp only [applyPattern, Outcome.bind_eq_ok_iff]
  constructor
  . rintro ⟨y, q, hq, h⟩
    split at h
    . next hl => exact ⟨q, hq, hl⟩
    . contradiction
  . rintro ⟨q, hq, hl⟩
    exact ⟨_, q, hq, if_pos hl⟩

theorem normal_of_mapM_apply (hf : ∀ p q, p.WellFormed → f p = .ok q → q.WellFormed)
    {xs ys : List (Instruction α)} (hx : (concatenated xs).Normal)
    (h : xs.mapM (·.apply f) = .ok ys) : ys ≠ [] ∧ ∀ y ∈ ys, y.Normal := by
  rw [Outcome.mapM_eq_ok_iff] at h
  refine ⟨ne_nil_of_forall₂ hx h, ?_⟩
  exact (normal_of_forall₂ (Outcome.forall₂_imp_of_mem h fun x hm y hy =>
    normal_apply hf (hx.typed.part hm).normal hy)).1

theorem exists_apply_iff (hf : ∀ p q, p.WellFormed → f p = .ok q → q.WellFormed) (hx : x.Normal) :
    (∃ y, x.apply f = .ok y) ↔ IsApplicable f x := by
  induction x with
  | pattern p => rw [apply, exists_applyPattern_iff, isApplicable_pattern]
  | ramp r => rw [apply, exists_applyPattern_iff, isApplicable_ramp]
  | concatenated xs ih =>
    have ih (x) (hm : x ∈ xs) := ih x hm (hx.typed.part hm).normal
    simp only [isApplicable_concatenated, apply, applyAll_eq, Outcome.bind_eq_ok_iff]
    constructor
    . rintro ⟨y, ys, hys, h⟩
      obtain ⟨_, hn⟩ := normal_of_mapM_apply hf hx hys
      obtain ⟨_, t, ht, _⟩ := (concatenate_eq_ok_iff_isCommon hn).mp h
      refine ⟨fun x hm => ?_, fun zs hzs => ?_⟩
      . exact (ih x hm).mp (Outcome.exists_mapM_eq_ok_iff.mp ⟨ys, hys⟩ x hm)
      . cases hys.symm.trans hzs
        exact ⟨t, ht⟩
    . rintro ⟨hxs, hp⟩
      obtain ⟨ys, hys⟩ := Outcome.exists_mapM_eq_ok_iff.mpr fun x hm => (ih x hm).mpr (hxs x hm)
      obtain ⟨t, ht⟩ := hp ys hys
      obtain ⟨hne, hn⟩ := normal_of_mapM_apply hf hx hys
      exact ⟨_, ys, hys, (concatenate_eq_ok_iff_isCommon hn).mpr ⟨hne, t, ht, rfl⟩⟩
  | repeated n body ih =>
    rw [isApplicable_repeated, ← ih hx.typed.body.normal]
    simp only [apply, Outcome.map_eq_ok_iff]
    constructor
    . rintro ⟨_, y, hy, _⟩
      exact ⟨y, hy⟩
    . rintro ⟨y, hy⟩
      exact ⟨_, y, hy, rfl⟩

omit [Number α] in
theorem not_exists_keep_iff {p : Pattern α} : (¬∃ q, f p = .ok q ∧ q.length = p.length)
    ↔ (∃ e, f p = .error e) ∨ ∃ q, f p = .ok q ∧ q.length ≠ p.length := by
  cases f p <;> simp

theorem apply_eq_error_iff (hf : ∀ p q, p.WellFormed → f p = .ok q → q.WellFormed)
    (hx : x.Normal) : (∃ e, x.apply f = .error e)
      ↔ (∃ p, IsLeaf p x
          ∧ ((∃ e, f p = .error e) ∨ ∃ q, f p = .ok q ∧ q.length ≠ p.length))
        ∨ ∃ xs ys, IsNode (concatenated xs) x ∧ xs.mapM (·.apply f) = .ok ys
          ∧ ¬∃ t : SampleType, t.IsCommon (ys.map sampleType) := by
  simp only [Outcome.exists_eq_error_iff (x := x.apply f), exists_apply_iff hf hx,
    ← not_exists_keep_iff]
  constructor
  . intro h
    by_contra hn
    rw [not_or] at hn
    obtain ⟨hl, hp⟩ := hn
    refine h ⟨fun p hpx => ?_, fun xs ys hxs hys => ?_⟩
    . by_contra hq
      exact hl ⟨p, hpx, hq⟩
    . by_contra ht
      exact hp ⟨xs, ys, hxs, hys, ht⟩
  . rintro (⟨p, hpx, hq⟩ | ⟨xs, ys, hxs, hys, ht⟩) h
    . exact hq (h.leaves p hpx)
    . exact ht (h.parts xs ys hxs hys)

end Success

section Samplewise

variable {g : Sample α → Option (Sample α)}

/--
That a function maps samples of type `s` one by one to samples of type `t`. Where this is not
possible for one of the samples, the function fails on the whole pattern.
-/
def IsSamplewise (s t : SampleType) (g : Sample α → Option (Sample α))
    (f : Pattern α → Except InstructionError (Pattern α)) : Prop :=
  ∀ p, p.WellFormed → p.sampleType = s → ∀ q, f p = .ok q ↔ q.WellFormed ∧ q.sampleType = t
    ∧ q.length = p.length ∧ ∀ i < p.length, g (p.sample i) = some (q.sample i)

/--
An instruction whose samples are the ones of another, each mapped by a function.
-/
structure IsMapped (t : SampleType) (g : Sample α → Option (Sample α)) (x y : Instruction α) :
    Prop where
  typed : y.Typed t
  length : y.length = x.length
  sampleAt : ∀ i < x.length, g (x.sampleAt i) = some (y.sampleAt i)

theorem IsMapped.toPattern_eq {z : Instruction α} (hy : IsMapped t g x y) (hz : IsMapped t g x z) :
    y.toPattern = z.toPattern := by
  apply Instruction.toPattern_eq hy.typed.normal hz.typed.normal
    (hy.typed.sampleType.trans hz.typed.sampleType.symm) (hy.length.trans hz.length.symm)
  intro i hi
  rw [hy.length] at hi
  exact Option.some.inj ((hy.sampleAt i hi).symm.trans (hz.sampleAt i hi))

theorem IsSamplewise.eq_ok_iff (hg : IsSamplewise s t g f) (hx : x.Typed s) {q : Pattern α} :
    f x.toPattern = .ok q ↔ IsMapped t g x (pattern q) := by
  have hl := length_toPattern hx.normal
  rw [hg x.toPattern (wellFormed_toPattern hx.normal)
    ((sampleType_toPattern hx.normal).trans hx.sampleType), hl]
  constructor
  . rintro ⟨hw, ht, hlq, hs⟩
    refine ⟨⟨normal_pattern.mpr hw, ht⟩, hlq, fun i hi => ?_⟩
    rw [← sample_toPattern hx.normal hi]
    exact hs i hi
  . rintro ⟨⟨hw, ht⟩, hlq, hs⟩
    refine ⟨normal_pattern.mp hw, ht, hlq, fun i hi => ?_⟩
    rw [sample_toPattern hx.normal hi]
    exact hs i hi

theorem isMapped_applyPattern (hg : IsSamplewise s t g f) (hx : x.Typed s)
    (h : applyPattern f x.toPattern = .ok y) : IsMapped t g x y := by
  obtain ⟨q, hq, h⟩ := Outcome.bind_eq_ok_iff.mp h
  have hm := (hg.eq_ok_iff hx).mp hq
  have hl : q.length = x.toPattern.length := hm.length.trans (length_toPattern hx.normal).symm
  rw [if_pos hl] at h
  cases h
  exact hm

theorem isMapped_apply (hg : IsSamplewise s t g f) (hx : x.Typed s) (h : x.apply f = .ok y) :
    IsMapped t g x y := by
  induction x generalizing y with
  | pattern p =>
    rw [apply] at h
    exact isMapped_applyPattern hg hx h
  | ramp r =>
    rw [apply] at h
    exact isMapped_applyPattern hg hx h
  | concatenated xs ih =>
    rw [apply, applyAll_eq] at h
    obtain ⟨ys, hys, h⟩ := Outcome.bind_eq_ok_iff.mp h
    have hall : List.Forall₂ (IsMapped t g) xs ys := Outcome.forall₂_imp_of_mem
      (Outcome.mapM_eq_ok_iff.mp hys) fun x hm y hy => ih x hm (hx.part hm) hy
    obtain ⟨hty, hl⟩ := typed_of_forall₂ (hall.imp fun _ _ h => ⟨h.typed, h.length⟩)
    rw [concatenate_of_typed (ne_nil_of_forall₂ hx.normal hall) hty] at h
    cases h
    refine ⟨typed_join hty, by rw [length_join, hl, length_concatenated], fun i hi => ?_⟩
    rw [length_concatenated] at hi
    rw [sampleAt_join hty (hl ▸ hi), sampleAt]
    exact sampleAtParts_rel_of_forall₂ (R := fun a b => g a = some b)
      (hall.imp fun _ _ h => ⟨h.length, h.sampleAt⟩) hi
  | repeated n body ih =>
    obtain ⟨_, hpos, _, _⟩ := normal_repeated.mp hx.normal
    rw [apply] at h
    obtain ⟨z, hz, rfl⟩ := Outcome.map_eq_ok_iff.mp h
    obtain ⟨ht, hl, hs⟩ := ih hx.body hz
    refine ⟨typed_times ht n, by rw [length_times, hl, length_repeated], fun i hi => ?_⟩
    rw [length_repeated, ← hl] at hi
    rw [sampleAt_times hi, sampleAt, hl]
    exact hs _ (Nat.mod_lt i hpos)

/--
Every node is played from some tick on, so that its image is a part of the image of the whole.
-/
theorem IsMapped.exists_slice {q : Pattern α} (h : IsMapped t g x (pattern q)) (hx : x.Normal)
    (hy : IsNode y x) :
    ∃ start, IsMapped t g y (pattern (q.slice start (start + y.length))) := by
  obtain ⟨start, hle, hs⟩ := exists_start_of_isNode hx hy
  have hl : q.length = x.length := h.length
  have hw : (q.slice start (start + y.length)).WellFormed :=
    Pattern.wellFormed_slice (normal_pattern.mp h.typed.normal) (by omega)
  refine ⟨start, ⟨normal_pattern.mpr hw, h.typed.sampleType⟩, ?_, fun i hi => ?_⟩
  . rw [length_pattern, Pattern.slice, Nat.add_sub_cancel_left]
  . rw [← hs i hi, h.sampleAt (start + i) (by omega), Instruction.sampleAt,
      Instruction.sampleAt, Pattern.sample_slice q (by omega)]

theorem IsMapped.isApplicable (hg : IsSamplewise s t g f) (hx : x.Typed s) {q : Pattern α}
    (h : IsMapped t g x (pattern q)) : IsApplicable f x := by
  have hnode (y) (hy : IsNode y x) :
      ∃ r, f y.toPattern = .ok r ∧ r.length = y.toPattern.length := by
    have hty := typed_of_isNode hx hy
    obtain ⟨start, hm⟩ := h.exists_slice hx.normal hy
    exact ⟨_, (hg.eq_ok_iff hty).mpr hm, hm.length.trans (length_toPattern hty.normal).symm⟩
  constructor
  . rintro p (hp | ⟨r, hr, rfl⟩)
    . exact hnode (pattern p) hp
    . exact hnode (ramp r) hr
  . intro zs ys hz hys
    have htz := typed_of_isNode hx hz
    have hall : List.Forall₂ (IsMapped t g) zs ys := Outcome.forall₂_imp_of_mem
      (Outcome.mapM_eq_ok_iff.mp hys) fun z hm y hy => isMapped_apply hg (htz.part hm) hy
    obtain ⟨hty, _⟩ := typed_of_forall₂ (hall.imp fun _ _ h => ⟨h.typed, h.length⟩)
    exact ⟨t, isCommon_of_typed (ne_nil_of_forall₂ htz.normal hall) hty⟩

theorem apply_toPattern_iff (hf : ∀ p q, p.WellFormed → f p = .ok q → q.WellFormed)
    (hx : x.Typed s) (hg : IsSamplewise s t g f) {q : Pattern α} :
    f x.toPattern = .ok q ↔ ∃ y, x.apply f = .ok y ∧ y.toPattern = q := by
  rw [hg.eq_ok_iff hx]
  constructor
  . intro h
    obtain ⟨y, hy⟩ := (exists_apply_iff hf hx.normal).mpr (h.isApplicable hg hx)
    exact ⟨y, hy, (isMapped_apply hg hx hy).toPattern_eq h⟩
  . rintro ⟨y, hy, rfl⟩
    obtain ⟨hty, hl, hs⟩ := isMapped_apply hg hx hy
    refine ⟨⟨normal_pattern.mpr (wellFormed_toPattern hty.normal), ?_⟩, ?_, fun i hi => ?_⟩
    . exact (sampleType_toPattern hty.normal).trans hty.sampleType
    . exact (length_toPattern hty.normal).trans hl
    . rw [sampleAt, sample_toPattern hty.normal (hl ▸ hi)]
      exact hs i hi

/--
How a function is applied to an instruction.
-/
structure IsAppliedToLeaves (f : Pattern α → Except InstructionError (Pattern α))
    (x : Instruction α) : Prop where
  length {y : Instruction α} : x.apply f = .ok y → y.length = x.length
  /-- It fails on a leaf, does not keep the length of one, or leaves parts without common type. -/
  error_iff : (∃ e, x.apply f = .error e)
    ↔ (∃ p, IsLeaf p x ∧ ((∃ e, f p = .error e) ∨ ∃ q, f p = .ok q ∧ q.length ≠ p.length))
      ∨ ∃ xs ys, IsNode (concatenated xs) x ∧ xs.mapM (·.apply f) = .ok ys
        ∧ ¬∃ t : SampleType, t.IsCommon (ys.map sampleType)
  toPattern_iff {t : SampleType} {g : Sample α → Option (Sample α)} :
    IsSamplewise x.sampleType t g f →
    ∀ q, f x.toPattern = .ok q ↔ ∃ y, x.apply f = .ok y ∧ y.toPattern = q

/--
A function that gives patterns is applied to the leaves of the tree alone.
-/
theorem isAppliedToLeaves (hf : ∀ p q, p.WellFormed → f p = .ok q → q.WellFormed)
    (hx : x.Normal) : IsAppliedToLeaves f x where
  length h := (normal_apply hf hx h).2
  error_iff := apply_eq_error_iff hf hx
  toPattern_iff hg _ := apply_toPattern_iff hf hx.typed hg

end Samplewise

section Cast

/--
A cast is samplewise.
-/
theorem isSamplewise_cast (h : s.width = t.width) :
    IsSamplewise s t (fun v : Sample α => some (v.recast t)) (·.cast t) := by
  rintro p hp rfl q
  have hcast := Pattern.cast_eq_ok h
  have hw := Pattern.wellFormed_cast hp hcast
  dsimp only
  rw [hcast]
  constructor
  . intro hq
    cases hq
    exact ⟨hw, rfl, rfl, fun i hi => by rw [Pattern.sample_recast hp hi]⟩
  . rintro ⟨hq, ht, hl, hs⟩
    refine congrArg Except.ok (Pattern.ext_sample hw hq ht.symm hl.symm fun i hi => ?_)
    have hi : i < p.length := hi
    rw [Pattern.sample_recast hp hi]
    exact Option.some.inj (hs i hi)

/--
A voltage that is switched on and off twice, and then rises.
-/
def voltagePulses : Instruction Float :=
  concatenated [repeated 2 (pattern (.ofFloats [5, 0])), ramp ⟨.float, [0], [4], 4⟩]

theorem normal_voltagePulses : voltagePulses.Normal := by
  have hp : (repeated 2 (pattern (.ofFloats [5, 0])) : Instruction Float).Normal :=
    normal_repeated.mpr ⟨by decide, by decide, by simp,
      normal_pattern.mpr (Pattern.wellFormed_ofFloats _)⟩
  have hr : (ramp ⟨.float, [0], [4], 4⟩ : Instruction Float).Normal :=
    normal_ramp.mpr ⟨⟨rfl, rfl, rfl⟩, by decide⟩
  exact normal_concatenated_pair ⟨hp, by decide, rfl, by simp⟩ ⟨hr, by decide, rfl, by simp⟩
    (by simp [isPattern])

/--
Whether there is a voltage is found at every tick, the ramp included. A function that drops the last
tick of a pattern cannot be applied.
-/
theorem isAppliedToLeaves_voltagePulses :
    (∃ y, voltagePulses.apply (·.cast .bool) = .ok y ∧ y.length = 8
      ∧ voltagePulses.toPattern.cast .bool = .ok y.toPattern)
      ∧ ∃ e, voltagePulses.apply (fun p => .ok (p.slice 0 (p.length - 1))) = .error e := by
  constructor
  . have h := isAppliedToLeaves (f := (·.cast .bool))
      (fun p q hp hq => Pattern.wellFormed_cast hp hq) normal_voltagePulses
    have hw := sampleType_toPattern normal_voltagePulses
    have hcast := Pattern.cast_eq_ok (p := voltagePulses.toPattern) (t := .bool)
      (by rw [hw]; rfl)
    obtain ⟨y, hy, hp⟩ := (h.toPattern_iff (isSamplewise_cast rfl) _).mp hcast
    exact ⟨y, hy, h.length hy, by rw [hcast, hp]⟩
  . have h := isAppliedToLeaves (f := fun p => .ok (p.slice 0 (p.length - 1)))
      (fun p q hp hq => Except.ok.inj hq ▸ Pattern.wellFormed_slice hp (Nat.sub_le _ _))
      normal_voltagePulses
    have hleaf : IsNode (pattern (.ofFloats [5, 0])) voltagePulses :=
      .part List.mem_cons_self (.body 2 .self)
    exact h.error_iff.mpr (.inl ⟨_, .inl hleaf, .inr ⟨_, rfl, by decide⟩⟩)

end Cast

end Instruction

end Waveplan
