import Waveplan.Proofs.Instruction.Flatten
import Waveplan.Proofs.Instruction.Node
import Waveplan.Proofs.Sample.Promotion

/-!
This module contains that a cast keeps the tree: it casts the leaves and leaves every node where it
is. Casting the parts of a concatenation and putting them end to end again therefore changes
nothing but the leaves.
-/

namespace Waveplan

variable {α : Type} [Number α]

namespace Column

variable {c d : Column α}

@[simp]
theorem cast_kind (c : Column α) : c.cast c.kind = c := by
  cases c <;> rfl

@[simp]
theorem cast_empty (k l : ScalarKind) : (empty k : Column α).cast l = empty l := by
  cases k <;> cases l <;> rfl

theorem cast_tile (c : Column α) (n : Nat) (k : ScalarKind) :
    (c.tile n).cast k = (c.cast k).tile n := by
  cases c <;> cases k <;> simp [tile, cast, List.map_flatten]

theorem cast_append (h : c.kind = d.kind) (k : ScalarKind) :
    (c.append d).cast k = (c.cast k).append (d.cast k) := by
  cases c <;> cases d <;> cases k <;> simp_all [kind, append, cast]

/--
A cast in two steps is the cast in one, unless floats are read as booleans in between.
-/
theorem cast_cast {k l : ScalarKind} (h : k = .float → l = .float)
    (hc : c.kind = .float → k = .float) : (c.cast k).cast l = c.cast l := by
  cases c <;> cases k <;> cases l <;> simp_all [kind, cast]

theorem append_assoc {e : Column α} (h : c.kind = d.kind) (h' : d.kind = e.kind) :
    (c.append d).append e = c.append (d.append e) := by
  cases c <;> cases d <;> cases e <;> simp_all [kind, append]

end Column

namespace Pattern

variable {p q : Pattern α} {s t u : SampleType}

/--
The samples of a pattern as samples of another type with as many channels.
-/
def recast (t : SampleType) (p : Pattern α) : Pattern α :=
  ⟨t, List.zipWith Column.cast p.columns t.kinds, p.length⟩

theorem cast_eq_ok (h : p.sampleType.width = t.width) : p.cast t = .ok (p.recast t) := by
  rw [cast, SampleType.checkCast_eq_ok_iff.mpr h]
  rfl

theorem recast_self (hp : p.WellFormed) : p.recast p.sampleType = p := by
  have h : List.zipWith Column.cast p.columns p.sampleType.kinds = p.columns := by
    rw [← hp.kinds, List.zipWith_map_right, List.zipWith_self]
    simp
  rw [recast, h]

theorem recast_empty (h : s.width = t.width) : (empty s : Pattern α).recast t = empty t := by
  have hl : s.kinds.length = t.kinds.length := by simpa using h
  rw [empty, recast, empty, Pattern.mk.injEq]
  refine ⟨rfl, ?_, rfl⟩
  apply List.ext_getElem
  . simp [hl]
  . simp

theorem recast_tile (p : Pattern α) (n : Nat) : (p.tile n).recast t = (p.recast t).tile n := by
  simp [recast, tile, List.zipWith_map_left, List.map_zipWith, Column.cast_tile]

theorem recast_append (hp : p.WellFormed) (hq : q.WellFormed) (h : p.sampleType = q.sampleType) :
    (p.append q).recast t = (p.recast t).append (q.recast t) := by
  have hk := kind_columns_eq hp hq h
  rw [recast, append, append, Pattern.mk.injEq]
  refine ⟨rfl, ?_, rfl⟩
  apply List.ext_getElem
  . simp [recast, length_columns_eq hp hq h]
  . intro j h₁ h₂
    simp only [recast, List.getElem_zipWith]
    simp only [List.length_zipWith] at h₁
    exact Column.cast_append (hk j (by omega) (by omega)) _

theorem recast_recast (hp : p.WellFormed) (hs : p.sampleType.WidensTo s) (ht : s.WidensTo t) :
    (p.recast s).recast t = p.recast t := by
  have hw := hp.length_columns
  have hws := hs.width
  have hwt := ht.width
  rw [recast, recast, recast, Pattern.mk.injEq]
  refine ⟨rfl, ?_, rfl⟩
  apply List.ext_getElem
  . simp only [List.length_zipWith, SampleType.length_kinds]
    omega
  . intro j h₁ h₂
    simp only [List.length_zipWith, SampleType.length_kinds] at h₁
    have hjs : j < s.kinds.length := by rw [SampleType.length_kinds]; omega
    have hjt : j < t.kinds.length := by rw [SampleType.length_kinds]; omega
    have hk : p.sampleType.kinds[j]? = some p.columns[j].kind := by
      rw [← hp.kinds, List.getElem?_map, List.getElem?_eq_getElem (by omega)]
      rfl
    have hps := hs.kinds j
    have hst := ht.kinds j
    rw [hk, List.getElem?_eq_getElem hjs, Option.some.injEq, Option.some.injEq] at hps
    rw [List.getElem?_eq_getElem hjs, List.getElem?_eq_getElem hjt, Option.some.injEq,
      Option.some.injEq] at hst
    simp only [List.getElem_zipWith]
    exact Column.cast_cast hst hps

theorem wellFormed_concat {ps : List (Pattern α)}
    (hps : ∀ p ∈ ps, p.WellFormed ∧ p.sampleType = t) : (concat t ps).WellFormed := by
  induction ps with
  | nil => exact wellFormed_empty t
  | cons p ps ih =>
    obtain ⟨⟨hp, ht⟩, hps⟩ := List.forall_mem_cons.mp hps
    exact wellFormed_append hp (ih hps) (ht.trans (sampleType_concat t ps).symm)

theorem recast_concat {ps : List (Pattern α)} (hps : ∀ p ∈ ps, p.WellFormed ∧ p.sampleType = s)
    (hw : s.width = t.width) : (concat s ps).recast t = concat t (ps.map (recast t)) := by
  induction ps with
  | nil => exact recast_empty hw
  | cons p ps ih =>
    obtain ⟨⟨hp, ht⟩, hps⟩ := List.forall_mem_cons.mp hps
    have hc := wellFormed_concat hps
    rw [concat_cons, recast_append hp hc (ht.trans (sampleType_concat s ps).symm), ih hps]
    rfl

theorem append_assoc {r : Pattern α} (hp : p.WellFormed) (hq : q.WellFormed) (hr : r.WellFormed)
    (hpq : p.sampleType = q.sampleType) (hqr : q.sampleType = r.sampleType) :
    (p.append q).append r = p.append (q.append r) := by
  rw [append, append, append, append, Pattern.mk.injEq]
  refine ⟨rfl, ?_, Nat.add_assoc _ _ _⟩
  apply List.ext_getElem
  . simp only [List.length_zipWith, Nat.min_assoc]
  . intro j h₁ h₂
    simp only [List.length_zipWith] at h₁
    simp only [List.getElem_zipWith]
    exact Column.append_assoc (kind_columns_eq hp hq hpq j (by omega) (by omega))
      (kind_columns_eq hq hr hqr j (by omega) (by omega))

end Pattern

theorem Ramp.recast_toPattern {r : Ramp α} {t : SampleType} (hr : r.WellFormed)
    (hw : r.sampleType.width = t.width) (ht : t.isInterpolable) :
    r.toPattern.recast t = (r.relabel t).toPattern := by
  rw [Pattern.recast, toPattern, toPattern, Pattern.mk.injEq]
  refine ⟨rfl, ?_, rfl⟩
  have hl := hr.start
  have hl' := hr.stop
  apply List.ext_getElem
  . simp only [List.length_zipWith, SampleType.length_kinds, relabel]
    omega
  . intro j h₁ h₂
    simp only [List.length_zipWith] at h₁
    have hk : t.kinds[j] = .float := by
      rw [SampleType.isInterpolable, List.all_eq_true] at ht
      exact of_decide_eq_true (ht _ (List.getElem_mem (by omega)))
    simp [relabel, hk, Column.cast]

namespace Instruction

mutual

/--
The tree in which every leaf holds samples of type `t`.
-/
def recast (t : SampleType) : Instruction α → Instruction α
  | pattern p => pattern (p.recast t)
  | ramp r => ramp (r.relabel t)
  | concatenated xs => concatenated (recastAll t xs)
  | repeated n body => repeated n (recast t body)

def recastAll (t : SampleType) : List (Instruction α) → List (Instruction α)
  | [] => []
  | x :: xs => recast t x :: recastAll t xs

end

variable {s t u : SampleType} {x y : Instruction α} {xs : List (Instruction α)}

theorem recastAll_eq (t : SampleType) (xs : List (Instruction α)) :
    recastAll t xs = xs.map (recast t) := by
  induction xs with
  | nil => rfl
  | cons x xs ih => rw [recastAll, ih, List.map_cons]

theorem shape_recast (t : SampleType) (x : Instruction α) : (recast t x).shape = x.shape := by
  induction x with
  | pattern p => rw [recast, shape, shape]; rfl
  | ramp r => rw [recast, shape, shape]; rfl
  | concatenated xs ih =>
    rw [recast, recastAll_eq]
    exact shape_concatenated_eq (List.forall₂_map_right_iff.mpr (List.forall₂_same.mpr ih))
  | repeated n body ih => rw [recast, shape, shape, ih]

@[simp]
theorem length_recast (t : SampleType) (x : Instruction α) : (recast t x).length = x.length :=
  length_eq_of_shape_eq (shape_recast t x)

theorem recast_self (hx : x.Normal) : recast x.sampleType x = x := by
  induction x with
  | pattern p => rw [sampleType_pattern, recast, Pattern.recast_self (normal_pattern.mp hx)]
  | ramp r =>
    rw [sampleType_ramp, recast]
    rfl
  | concatenated xs ih =>
    obtain ⟨_, _, hparts⟩ := normal_concatenated.mp hx
    have h : ∀ x ∈ xs, recast (headType xs) x = x := by
      intro x hm
      rw [← (hparts x hm).sampleType]
      exact ih x hm (hparts x hm).normal
    rw [sampleType_concatenated, recast, recastAll_eq, List.map_congr_left h, List.map_id']
  | repeated n body ih =>
    obtain ⟨_, _, _, hbody⟩ := normal_repeated.mp hx
    rw [sampleType_repeated, recast, ih hbody]

/--
A cast is possible if there are as many channels and every ramp stays one of floats.
-/
theorem asType_eq_ok (hx : x.Normal) (hw : x.sampleType.width = t.width)
    (hr : x.RampsSatisfy fun _ => t.isInterpolable = true) : x.asType t = .ok (recast t x) := by
  by_cases ht : x.sampleType = t
  . rw [asType_eq_self ht, ← ht, recast_self hx]
  . induction x with
    | pattern p =>
      rw [asType, if_neg ht, Pattern.cast_eq_ok hw, recast]
      rfl
    | ramp r =>
      have hi := rampsSatisfy_ramp.mp hr
      have hc := SampleType.checkCast_eq_ok_iff.mpr hw
      rw [sampleType_ramp] at hc
      rw [asType, if_neg ht, Ramp.cast, hc, recast]
      simp [bind, Except.bind, hi, Functor.map, Except.map, Ramp.relabel]
    | concatenated xs ih =>
      obtain ⟨_, _, hparts⟩ := normal_concatenated.mp hx
      have hr := rampsSatisfy_concatenated.mp hr
      have hcast : ∀ x ∈ xs, x.asType t = .ok (recast t x) := by
        intro x hm
        obtain ⟨hn, _, hs, _⟩ := hparts x hm
        exact ih x hm hn (hs ▸ hw) (hr x hm) (hs ▸ ht)
      have hall : asTypeAll xs t = .ok (xs.map (recast t)) := by
        rw [asTypeAll_eq, Outcome.mapM_eq_ok_iff, List.forall₂_map_right_iff, List.forall₂_same]
        exact hcast
      have htyped : (concatenated (xs.map (recast t))).Typed t :=
        typed_concatenated_of_shapes hx (List.forall₂_map_right_iff.mpr (List.forall₂_same.mpr
          fun x hm => ⟨(typed_asType (hparts x hm).normal (hcast x hm)).1, shape_recast t x⟩))
      rw [asType, if_neg ht, hall, recast, recastAll_eq]
      exact congrArg Except.ok (join_eq_concatenated htyped)
    | repeated n body ih =>
      obtain ⟨_, _, _, hbody⟩ := normal_repeated.mp hx
      have hcast := ih hbody hw (rampsSatisfy_repeated.mp hr) ht
      have htyped := typed_repeated_of_shape hx (typed_asType hbody hcast).1 (shape_recast t body)
      rw [asType, if_neg ht, hcast, recast, ← times_eq_repeated htyped.normal]
      rfl

theorem typed_recast (hx : x.Normal) (hw : x.sampleType.width = t.width)
    (hr : x.RampsSatisfy fun _ => t.isInterpolable = true) : (recast t x).Typed t :=
  (typed_asType hx (asType_eq_ok hx hw hr)).1

theorem toPattern_recast (hx : x.Normal) (hw : x.sampleType.width = t.width)
    (hr : x.RampsSatisfy fun _ => t.isInterpolable = true) :
    (recast t x).toPattern = x.toPattern.recast t := by
  induction x with
  | pattern p => rw [recast, toPattern, toPattern]
  | ramp r =>
    rw [recast, toPattern, toPattern]
    exact (Ramp.recast_toPattern (normal_ramp.mp hx).1 hw (rampsSatisfy_ramp.mp hr)).symm
  | concatenated xs ih =>
    obtain ⟨hl, _, hparts⟩ := normal_concatenated.mp hx
    have hr := rampsSatisfy_concatenated.mp hr
    have hcast : ∀ x ∈ xs, (recast t x).toPattern = x.toPattern.recast t := fun x hm =>
      ih x hm (hparts x hm).normal ((hparts x hm).sampleType ▸ hw) (hr x hm)
    have htyped : ∀ y ∈ xs.map (recast t), y.sampleType = t := by
      intro y hy
      obtain ⟨x, hm, rfl⟩ := List.mem_map.mp hy
      exact (typed_recast (hparts x hm).normal ((hparts x hm).sampleType ▸ hw) (hr x hm)).sampleType
    have hne : xs.map (recast t) ≠ [] := List.ne_nil_of_length_pos (by simp; omega)
    rw [recast, recastAll_eq, toPattern, toPattern, toPatterns_eq, toPatterns_eq,
      headType_eq hne htyped, Pattern.recast_concat (s := headType xs) _ hw, List.map_map,
      List.map_map]
    . exact congrArg (Pattern.concat t) (List.map_congr_left hcast)
    . intro p hp
      obtain ⟨x, hm, rfl⟩ := List.mem_map.mp hp
      have hn := (hparts x hm).normal
      exact ⟨wellFormed_toPattern hn, (sampleType_toPattern hn).trans (hparts x hm).sampleType⟩
  | repeated n body ih =>
    obtain ⟨_, _, _, hbody⟩ := normal_repeated.mp hx
    rw [recast, toPattern, toPattern, ih hbody hw (rampsSatisfy_repeated.mp hr),
      Pattern.recast_tile]

section Widening

omit [Number α] in
theorem rampsSatisfy_of_widensTo (hx : x.Normal) (h : x.sampleType.WidensTo t) :
    x.RampsSatisfy fun _ => t.isInterpolable = true := by
  induction x with
  | pattern p => exact rampsSatisfy_pattern p
  | ramp r => exact rampsSatisfy_ramp.mpr (h.isInterpolable (normal_ramp.mp hx).1.isInterpolable)
  | concatenated xs ih =>
    obtain ⟨_, _, hparts⟩ := normal_concatenated.mp hx
    refine rampsSatisfy_concatenated.mpr fun x hm => ?_
    exact ih x hm (hparts x hm).normal ((hparts x hm).sampleType ▸ h)
  | repeated n body ih =>
    obtain ⟨_, _, _, hbody⟩ := normal_repeated.mp hx
    exact rampsSatisfy_repeated.mpr (ih hbody h)

variable (hx : x.Normal) (h : x.sampleType.WidensTo t)

include hx h

theorem asType_of_widensTo : x.asType t = .ok (recast t x) :=
  asType_eq_ok hx h.width (rampsSatisfy_of_widensTo hx h)

theorem typed_recast_of_widensTo : (recast t x).Typed t :=
  typed_recast hx h.width (rampsSatisfy_of_widensTo hx h)

theorem toPattern_recast_of_widensTo : (recast t x).toPattern = x.toPattern.recast t :=
  toPattern_recast hx h.width (rampsSatisfy_of_widensTo hx h)

theorem recast_recast (hu : t.WidensTo u) : recast u (recast t x) = recast u x := by
  induction x with
  | pattern p =>
    rw [recast, recast, recast, Pattern.recast_recast (normal_pattern.mp hx) h hu]
  | ramp r =>
    rw [recast, recast, recast]
    rfl
  | concatenated xs ih =>
    obtain ⟨_, _, hparts⟩ := normal_concatenated.mp hx
    rw [recast, recast, recast, recastAll_eq, recastAll_eq, recastAll_eq, List.map_map]
    refine congrArg concatenated (List.map_congr_left fun x hm => ?_)
    exact ih x hm (hparts x hm).normal ((hparts x hm).sampleType ▸ h)
  | repeated n body ih =>
    obtain ⟨_, _, _, hbody⟩ := normal_repeated.mp hx
    rw [recast, recast, recast, ih hbody h]

end Widening

end Instruction

end Waveplan
