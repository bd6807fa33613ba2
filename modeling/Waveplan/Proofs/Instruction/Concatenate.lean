import Waveplan.Proofs.Instruction.Join

/-!
This module contains the instructions that are cast to a type, concatenated, held or ramped: they
are in normal form, have that type, and last as long as their operands.
-/

namespace Waveplan

theorem Ramp.wellFormed_of_cast {α : Type} {r s : Ramp α} {t : SampleType} (hr : r.WellFormed)
    (h : r.cast t = .ok s) : s.WellFormed ∧ s.sampleType = t ∧ s.length = r.length := by
  obtain ⟨_, hw, h⟩ := Outcome.bind_eq_ok_iff.mp h
  have hw := SampleType.checkCast_eq_ok_iff.mp hw
  split at h
  . next ht =>
    cases h
    exact ⟨⟨ht, hr.start.trans hw, hr.stop.trans hw⟩, rfl, rfl⟩
  . contradiction

theorem Ramp.wellFormed_ofEnds {α : Type} {r : Ramp α} {t : SampleType} {start stop : List α}
    {n : Nat} (h : ofEnds t start stop n = .ok r) : r.WellFormed ∧ r.length = n := by
  unfold ofEnds at h
  split at h
  . contradiction
  . next ht =>
    split at h
    . contradiction
    . next hs =>
      split at h
      . contradiction
      . next he =>
        cases h
        exact ⟨⟨by simpa using ht, not_not.mp hs, not_not.mp he⟩, rfl⟩

namespace Instruction

variable {α : Type}

theorem typed_of_forall₂ {t : SampleType} {xs ys : List (Instruction α)}
    (h : List.Forall₂ (fun x y => y.Typed t ∧ y.length = x.length) xs ys) :
    (∀ y ∈ ys, y.Typed t) ∧ totalLength ys = totalLength xs := by
  induction h with
  | nil => exact ⟨by simp, rfl⟩
  | cons hy _ ih =>
    rw [List.forall_mem_cons, totalLength, totalLength, ih.2, hy.2]
    exact ⟨⟨hy.1, ih.1⟩, rfl⟩

theorem totalLength_mul_of_forall₂ {n : Nat} {xs ys : List (Instruction α)}
    (h : List.Forall₂ (fun x y => y.length = x.length * n) xs ys) :
    totalLength ys = totalLength xs * n := by
  induction h with
  | nil => simp [totalLength]
  | cons hy _ ih => rw [totalLength, totalLength, hy, ih, Nat.add_mul]

theorem normal_of_forall₂ {xs ys : List (Instruction α)}
    (h : List.Forall₂ (fun x y => y.Normal ∧ y.length = x.length) xs ys) :
    (∀ y ∈ ys, y.Normal) ∧ totalLength ys = totalLength xs := by
  induction h with
  | nil => exact ⟨by simp, rfl⟩
  | cons hy _ ih =>
    rw [List.forall_mem_cons, totalLength, totalLength, ih.2, hy.2]
    exact ⟨⟨hy.1, ih.1⟩, rfl⟩

variable [Number α]

theorem sourceAtParts_of_forall₂ {R : Source α → Source α → Prop} {xs ys : List (Instruction α)}
    (h : List.Forall₂ (fun x y => y.length = x.length
      ∧ ∀ i < x.length, R (x.sourceAt i) (y.sourceAt i)) xs ys)
    {i : Nat} (hi : i < totalLength xs) : R (sourceAtParts xs i) (sourceAtParts ys i) := by
  induction h generalizing i with
  | nil => simp [totalLength] at hi
  | cons hxy _ ih =>
    rw [totalLength] at hi
    rw [sourceAtParts, sourceAtParts, hxy.1]
    split
    . next h => exact hxy.2 i h
    . exact ih (by omega)

theorem sampleAtParts_rel_of_forall₂ {R : Sample α → Sample α → Prop}
    {xs ys : List (Instruction α)}
    (h : List.Forall₂ (fun x y => y.length = x.length
      ∧ ∀ i < x.length, R (x.sampleAt i) (y.sampleAt i)) xs ys)
    {i : Nat} (hi : i < totalLength xs) : R (sampleAtParts xs i) (sampleAtParts ys i) := by
  simp only [sampleAt_eq, sampleAtParts_eq] at h ⊢
  exact sourceAtParts_of_forall₂ (R := fun s t => R s.value t.value) h hi

theorem sampleAtParts_of_forall₂ {f : Sample α → Sample α} {xs ys : List (Instruction α)}
    (h : List.Forall₂ (fun x y => y.length = x.length
      ∧ ∀ i < x.length, y.sampleAt i = f (x.sampleAt i)) xs ys)
    {i : Nat} (hi : i < totalLength xs) : sampleAtParts ys i = f (sampleAtParts xs i) :=
  sampleAtParts_rel_of_forall₂ (R := fun s t => t = f s) h hi

theorem asType_eq_self {x : Instruction α} {t : SampleType} (h : x.sampleType = t) :
    x.asType t = .ok x := by
  rw [asType.eq_def, if_pos h]

theorem typed_asType {x y : Instruction α} {t : SampleType} (hx : x.Normal)
    (h : x.asType t = .ok y) : y.Typed t ∧ y.length = x.length := by
  induction x generalizing y with
  | pattern p =>
    rw [asType] at h
    split at h
    . next ht =>
      cases h
      exact ⟨⟨hx, ht⟩, rfl⟩
    . obtain ⟨q, hq, rfl⟩ := Outcome.map_eq_ok_iff.mp h
      have hw := Pattern.wellFormed_cast (normal_pattern.mp hx) hq
      obtain ⟨_, _, hq⟩ := Outcome.bind_eq_ok_iff.mp hq
      cases hq
      exact ⟨typed_pattern hw, by simp⟩
  | ramp r =>
    rw [asType] at h
    split at h
    . next ht =>
      cases h
      exact ⟨⟨hx, ht⟩, rfl⟩
    . obtain ⟨s, hs, rfl⟩ := Outcome.map_eq_ok_iff.mp h
      obtain ⟨hr, hl⟩ := normal_ramp.mp hx
      obtain ⟨hw, ht, hn⟩ := Ramp.wellFormed_of_cast hr hs
      exact ⟨⟨normal_ramp.mpr ⟨hw, hn ▸ hl⟩, ht⟩, by simp [hn]⟩
  | concatenated xs ih =>
    rw [asType] at h
    split at h
    . next ht =>
      cases h
      exact ⟨⟨hx, ht⟩, rfl⟩
    . obtain ⟨ys, hys, rfl⟩ := Outcome.map_eq_ok_iff.mp h
      rw [asTypeAll_eq, Outcome.mapM_eq_ok_iff] at hys
      obtain ⟨_, _, hparts⟩ := normal_concatenated.mp hx
      obtain ⟨ht, hl⟩ := typed_of_forall₂ (Outcome.forall₂_imp_of_mem hys
        fun x hm y hy => ih x hm (hparts x hm).normal hy)
      exact ⟨typed_join ht, by simpa using hl⟩
  | repeated n body ih =>
    rw [asType] at h
    split at h
    . next ht =>
      cases h
      exact ⟨⟨hx, ht⟩, rfl⟩
    . obtain ⟨z, hz, rfl⟩ := Outcome.map_eq_ok_iff.mp h
      obtain ⟨_, _, _, hbody⟩ := normal_repeated.mp hx
      obtain ⟨ht, hl⟩ := ih hbody hz
      exact ⟨typed_times ht n, by simp [hl]⟩

theorem typed_concatenate {xs : List (Instruction α)} {y : Instruction α}
    (hxs : ∀ x ∈ xs, x.Normal) (h : concatenate xs = .ok y) :
    ∃ t, commonType xs = .ok t ∧ y.Typed t ∧ y.length = totalLength xs := by
  obtain ⟨t, ht, h⟩ := Outcome.bind_eq_ok_iff.mp h
  obtain ⟨ys, hys, h⟩ := Outcome.bind_eq_ok_iff.mp h
  cases h
  rw [asTypeAll_eq, Outcome.mapM_eq_ok_iff] at hys
  obtain ⟨htyped, hl⟩ := typed_of_forall₂ (Outcome.forall₂_imp_of_mem hys
    fun x hm y hy => typed_asType (hxs x hm) hy)
  exact ⟨t, ht, typed_join htyped, by simpa using hl⟩

theorem normal_concatenate {xs : List (Instruction α)} {y : Instruction α}
    (hxs : ∀ x ∈ xs, x.Normal) (h : concatenate xs = .ok y) : y.Normal := by
  obtain ⟨_, _, hy, _⟩ := typed_concatenate hxs h
  exact hy.normal

theorem length_concatenate {xs : List (Instruction α)} {y : Instruction α}
    (hxs : ∀ x ∈ xs, x.Normal) (h : concatenate xs = .ok y) : y.length = totalLength xs := by
  obtain ⟨_, _, _, hl⟩ := typed_concatenate hxs h
  exact hl

section Words

omit [Number α]

variable {x y : Instruction α} {xs : List (Instruction α)}

theorem countTicksFrom_eq (h : ∀ x ∈ xs, x.countTicks = Word.checked x.length) {start : Nat}
    (hs : start < wordModulus) :
    countTicksFrom start xs = Word.checked (start + totalLength xs) := by
  induction xs generalizing start with
  | nil => exact (Word.checked_of_lt hs).symm
  | cons x xs ih =>
    obtain ⟨hx, hxs⟩ := List.forall_mem_cons.mp h
    have hstop : (x.countTicks >>= fun ticks => Word.checked (start + ticks))
        = Word.checked (start + x.length) := by
      rw [hx, Word.checked_bind_checked (Nat.le_add_left _ _)]
    have hcons : countTicksFrom start (x :: xs)
        = (Word.checked (start + x.length) >>= fun stop => countTicksFrom stop xs) := by
      rw [← hstop, countTicksFrom, bind_assoc]
    rw [hcons, totalLength, ← Nat.add_assoc]
    rcases Nat.lt_or_ge (start + x.length) wordModulus with hlt | hle
    . rw [Word.checked_of_lt hlt]
      exact ih hxs hlt
    . rw [Word.checked_of_le hle, Word.checked_of_le (Nat.le_trans hle (Nat.le_add_right _ _))]
      rfl

/--
Counting in machine words gives the length, or overflows if the length is no word.
-/
theorem countTicks_eq (hx : x.Normal) : x.countTicks = Word.checked x.length := by
  induction x with
  | pattern p => rfl
  | ramp r => rfl
  | concatenated xs ih =>
    obtain ⟨_, _, hxs⟩ := normal_concatenated.mp hx
    rw [countTicks, countTicksFrom_eq (fun x hm => ih x hm (hxs x hm).1) (by decide), length,
      Nat.zero_add]
  | repeated n body ih =>
    obtain ⟨hn, _, _, hbody⟩ := normal_repeated.mp hx
    rw [countTicks, ih hbody, length]
    exact Word.checked_bind_checked (Nat.le_mul_of_pos_left _ (by omega))

theorem fit_eq (hx : x.Normal) :
    x.fit = if x.length < wordModulus then .ok x else .error .overflow := by
  rw [fit, countTicks_eq hx, Word.checked]
  split <;> rfl

theorem fit_eq_ok_iff (hx : x.Normal) : x.fit = .ok y ↔ x.length < wordModulus ∧ x = y := by
  rw [fit_eq hx]
  split <;> simp [*]

theorem fit_of_lt (hx : x.Normal) (h : x.length < wordModulus) : x.fit = .ok x := by
  rw [fit_eq hx, if_pos h]

theorem fit_of_le (hx : x.Normal) (h : wordModulus ≤ x.length) : x.fit = .error .overflow := by
  rw [fit_eq hx, if_neg (Nat.not_lt_of_le h)]

end Words

theorem play_eq_ok_iff_fits {xs : List (Instruction α)} (hxs : ∀ x ∈ xs, x.Normal)
    {y : Instruction α} : play xs = .ok y ↔ concatenate xs = .ok y ∧ y.length < wordModulus := by
  rw [play, Outcome.bind_eq_ok_iff]
  constructor
  . rintro ⟨x, hx, h⟩
    obtain ⟨hl, rfl⟩ := (fit_eq_ok_iff (normal_concatenate hxs hx)).mp h
    exact ⟨hx, hl⟩
  . rintro ⟨hy, hl⟩
    exact ⟨y, hy, fit_of_lt (normal_concatenate hxs hy) hl⟩

section OneType

variable {kind : ScalarKind} {xs : List (Instruction α)}

omit [Number α] in
theorem commonType_eq_ok (hne : xs ≠ []) (hxs : ∀ x ∈ xs, x.sampleType = .scalar kind) :
    commonType xs = .ok (.scalar kind) := by
  cases xs with
  | nil => contradiction
  | cons x xs =>
    obtain ⟨hx, hrest⟩ := List.forall_mem_cons.mp hxs
    rw [commonType, hx]
    clear hne hxs
    induction xs with
    | nil => rfl
    | cons y ys ih =>
      obtain ⟨hy, hys⟩ := List.forall_mem_cons.mp hrest
      rw [List.foldlM_cons, hy, SampleType.promote, ScalarKind.promote_self]
      exact ih hys

/--
Instructions of one type are joined as they are.
-/
theorem concatenate_eq_ok_iff (hxs : ∀ x ∈ xs, x.sampleType = .scalar kind) {y : Instruction α} :
    concatenate xs = .ok y ↔ xs ≠ [] ∧ y = join (.scalar kind) xs := by
  have hcast : asTypeAll xs (.scalar kind) = .ok xs := by
    rw [asTypeAll_eq, Outcome.mapM_eq_ok_iff, List.forall₂_same]
    intro x hx
    exact asType_eq_self (hxs x hx)
  cases xs with
  | nil => exact ⟨fun h => by contradiction, fun h => absurd rfl h.1⟩
  | cons x rest =>
    rw [concatenate, commonType_eq_ok (List.cons_ne_nil _ _) hxs, Outcome.bind_eq_ok_iff]
    simp only [Except.ok.injEq, Outcome.bind_eq_ok_iff, exists_eq_left', hcast, ne_eq,
      reduceCtorEq, not_false_eq_true, true_and]
    exact eq_comm

theorem play_eq_ok_iff_join (hxs : ∀ x ∈ xs, x.Typed (.scalar kind)) {y : Instruction α} :
    play xs = .ok y ↔ xs ≠ [] ∧ totalLength xs < wordModulus ∧ y = join (.scalar kind) xs := by
  rw [play_eq_ok_iff_fits fun x hx => (hxs x hx).normal,
    concatenate_eq_ok_iff fun x hx => (hxs x hx).sampleType]
  constructor
  . rintro ⟨⟨hne, rfl⟩, hl⟩
    exact ⟨hne, by rwa [length_join] at hl, rfl⟩
  . rintro ⟨hne, hl, rfl⟩
    exact ⟨⟨hne, rfl⟩, by rwa [length_join]⟩

theorem play_of_le (hne : xs ≠ []) (hxs : ∀ x ∈ xs, x.Typed (.scalar kind))
    (h : wordModulus ≤ totalLength xs) : play xs = .error .overflow := by
  rw [play, (concatenate_eq_ok_iff fun x hx => (hxs x hx).sampleType).mpr ⟨hne, rfl⟩]
  exact fit_of_le (typed_join hxs).normal (by rwa [length_join])

end OneType

section Leaves

omit [Number α]

theorem typed_hold (value : Scalar α) (n : Nat) : (hold value n).Typed (.scalar value.kind) := by
  apply typed_times
  cases value with
  | bool b => exact typed_pattern (Pattern.wellFormed_ofBools [b])
  | float x => exact typed_pattern (Pattern.wellFormed_ofFloats [x])

@[simp]
theorem length_hold (value : Scalar α) (n : Nat) : (hold value n).length = n := by
  cases value <;> simp [hold, Pattern.ofBools, Pattern.ofFloats]

theorem typed_level (value : Bool) (n : Nat) : (level value n : Instruction α).Typed .bool :=
  typed_hold (.bool value) n

@[simp]
theorem length_level (value : Bool) (n : Nat) : (level value n : Instruction α).length = n :=
  length_hold (.bool value) n

theorem typed_linear (a b : α) (n : Nat) : (linear a b n).Typed .float := by
  unfold linear
  split
  . exact typed_empty .float
  . exact ⟨normal_ramp.mpr ⟨⟨rfl, rfl, rfl⟩, by dsimp; omega⟩, rfl⟩

@[simp]
theorem length_linear (a b : α) (n : Nat) : (linear a b n).length = n := by
  unfold linear
  split
  . next h => simp [Pattern.empty, h]
  . simp

end Leaves

theorem sourceAt_hold (value : Scalar α) {n i : Nat} (h : i < n) :
    (hold value n).sourceAt i = .written ⟨[value]⟩ := by
  cases value with
  | bool b =>
    rw [hold, sourceAt_times (by simpa [Pattern.ofBools] using h), length_pattern]
    simp only [Pattern.ofBools, List.length_singleton, Nat.mod_one]
    rfl
  | float x =>
    rw [hold, sourceAt_times (by simpa [Pattern.ofFloats] using h), length_pattern]
    simp only [Pattern.ofFloats, List.length_singleton, Nat.mod_one]
    rfl

theorem sampleAt_hold (value : Scalar α) {n i : Nat} (h : i < n) :
    (hold value n).sampleAt i = ⟨[value]⟩ := by
  rw [sampleAt_eq, sourceAt_hold _ h]
  rfl

theorem sampleAt_level (value : Bool) {n i : Nat} (h : i < n) :
    (level value n : Instruction α).sampleAt i = ⟨[.bool value]⟩ :=
  sampleAt_hold (.bool value) h

theorem sampleAt_linear (a b : α) {n i : Nat} (h : i < n) :
    (linear a b n).sampleAt i = ⟨[.float (Ramp.valueAt a b n i)]⟩ := by
  rw [linear, if_neg (by omega)]
  rfl

theorem normal_linearOf {t : SampleType} {start stop : Sample α} {n : Nat} {x : Instruction α}
    (h : linearOf t start stop n = .ok x) : x.Normal := by
  unfold linearOf at h
  split at h
  . split at h
    . cases h
      exact normal_empty t
    . contradiction
  . obtain ⟨r, hr, rfl⟩ := Outcome.map_eq_ok_iff.mp h
    obtain ⟨hw, hl⟩ := Ramp.wellFormed_ofEnds hr
    exact normal_ramp.mpr ⟨hw, by omega⟩

end Instruction

end Waveplan
