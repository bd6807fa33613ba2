import Waveplan.Proofs.Instruction.EndToEnd

/-!
This module contains that the tree of instructions that are put end to end depends on their order
alone: not on how they are grouped, and not on empty instructions among them.
-/

namespace Waveplan.Instruction

variable {α : Type} [Number α] {s t : SampleType} {xs ys zs : List (Instruction α)}

section Merge

/--
Put an instruction before others of which no two are patterns in a row.
-/
def prepend : Instruction α → List (Instruction α) → List (Instruction α)
  | pattern p, pattern q :: more => pattern (p.append q) :: more
  | x, xs => x :: xs

theorem mergePatterns_cons (x : Instruction α) (xs : List (Instruction α)) :
    mergePatterns (x :: xs) = prepend x (mergePatterns xs) := by
  cases x with
  | pattern p =>
    rw [mergePatterns]
    split
    . next q more h => rw [h, prepend]
    . next h =>
      rw [prepend.eq_def]
      split
      . next heq hm =>
        cases heq
        exact absurd hm (h _ _)
      . rfl
  | _ =>
    rw [mergePatterns_of_not_isPattern rfl, prepend]
    simp

theorem prepend_prepend {p q : Pattern α} (hp : IsPart t (pattern p)) (hq : IsPart t (pattern q))
    (hzs : ∀ z ∈ zs, IsPart t z) :
    prepend (pattern p) (prepend (pattern q) zs) = prepend (pattern (p.append q)) zs := by
  cases zs with
  | nil => rfl
  | cons z zs =>
    cases z with
    | pattern r =>
      have hr := hzs _ List.mem_cons_self
      have hpq := hp.sampleType.trans hq.sampleType.symm
      have hqr := hq.sampleType.trans hr.sampleType.symm
      rw [prepend, prepend, prepend, Pattern.append_assoc (normal_pattern.mp hp.normal)
        (normal_pattern.mp hq.normal) (normal_pattern.mp hr.normal) hpq hqr]
    | _ => rfl

theorem mergePatterns_append_congr (h : mergePatterns ys = mergePatterns zs) :
    mergePatterns (xs ++ ys) = mergePatterns (xs ++ zs) := by
  induction xs with
  | nil => exact h
  | cons x xs ih =>
    rw [List.cons_append, List.cons_append, mergePatterns_cons, mergePatterns_cons, ih]

theorem mergePatterns_prepend_append {x : Instruction α} (hx : IsPart t x)
    (hzs : ∀ z ∈ zs, IsPart t z) (hys : ∀ y ∈ ys, IsPart t y) :
    mergePatterns (prepend x zs ++ ys) = prepend x (mergePatterns (zs ++ ys)) := by
  rw [prepend.eq_def]
  split
  . next p q more =>
    obtain ⟨hq, hmore⟩ := List.forall_mem_cons.mp hzs
    have hrest : ∀ z ∈ more ++ ys, IsPart t z := List.forall_mem_append.mpr ⟨hmore, hys⟩
    rw [List.cons_append, List.cons_append, mergePatterns_cons, mergePatterns_cons]
    exact (prepend_prepend hx hq (isPart_of_mem_mergePatterns hrest)).symm
  . rw [List.cons_append, mergePatterns_cons]

/--
Patterns in a row can be drawn together in two steps.
-/
theorem mergePatterns_mergePatterns_append (hxs : ∀ x ∈ xs, IsPart t x)
    (hys : ∀ y ∈ ys, IsPart t y) :
    mergePatterns (mergePatterns xs ++ ys) = mergePatterns (xs ++ ys) := by
  induction xs with
  | nil => rfl
  | cons x xs ih =>
    obtain ⟨hx, hxs⟩ := List.forall_mem_cons.mp hxs
    rw [mergePatterns_cons, mergePatterns_prepend_append hx (isPart_of_mem_mergePatterns hxs) hys,
      ih hxs, List.cons_append, mergePatterns_cons]

end Merge

section Join

/--
The parts of instructions that last at least one tick.
-/
def leaves (xs : List (Instruction α)) : List (Instruction α) :=
  (xs.flatMap parts).filter fun x => !x.isEmpty

omit [Number α] in
theorem leaves_append (xs ys : List (Instruction α)) :
    leaves (xs ++ ys) = leaves xs ++ leaves ys := by
  rw [leaves, List.flatMap_append, List.filter_append, leaves, leaves]

/--
The instruction that is made up of parts of which no two can be drawn together.
-/
def ofParts (t : SampleType) : List (Instruction α) → Instruction α
  | [] => pattern (.empty t)
  | [x] => x
  | xs => concatenated xs

theorem join_eq_ofParts (t : SampleType) (xs : List (Instruction α)) :
    join t xs = ofParts t (mergePatterns (leaves xs)) := rfl

omit [Number α] in
theorem ofParts_eq_concatenated (h : 2 ≤ xs.length) : ofParts t xs = concatenated xs := by
  rw [ofParts.eq_def]
  split
  . contradiction
  . contradiction
  . rfl

omit [Number α] in
theorem isPart_of_mem_leaves (hxs : ∀ x ∈ xs, x.Typed t) : ∀ y ∈ leaves xs, IsPart t y :=
  isPart_of_mem_filter_parts hxs

theorem leaves_join (hxs : ∀ x ∈ xs, x.Typed t) :
    leaves [join t xs] = mergePatterns (leaves xs) := by
  obtain ⟨ys, hys, _, hj⟩ := join_eq t xs
  have hp : ∀ y ∈ ys, IsPart t y := by
    rw [hys]
    exact isPart_of_mem_mergePatterns (isPart_of_mem_leaves hxs)
  rw [leaves.eq_def xs, ← hys]
  rcases hj with ⟨rfl, hj⟩ | ⟨y, rfl, hj⟩ | ⟨_, hj⟩
  . rw [hj]
    simp [leaves, parts, isEmpty, Pattern.empty]
  . rw [hj]
    exact filter_parts_of_isPart hp
  . rw [hj, leaves, List.flatMap_singleton, parts, filter_of_isPart hp]

/--
Instructions can be put end to end group by group.
-/
theorem join_flatten {groups : List (List (Instruction α))}
    (h : ∀ g ∈ groups, ∀ x ∈ g, x.Typed t) :
    join t (groups.map (join t)) = join t groups.flatten := by
  rw [join_eq_ofParts, join_eq_ofParts]
  congr 1
  induction groups with
  | nil => rfl
  | cons g groups ih =>
    obtain ⟨hg, h⟩ := List.forall_mem_cons.mp h
    have hjoins : ∀ y ∈ groups.map (join t), y.Typed t := by
      intro y hy
      obtain ⟨g, hg, rfl⟩ := List.mem_map.mp hy
      exact typed_join (h g hg)
    rw [List.map_cons, ← List.singleton_append, leaves_append, leaves_join hg, List.flatten_cons,
      leaves_append, mergePatterns_mergePatterns_append (isPart_of_mem_leaves hg)
        (isPart_of_mem_leaves hjoins)]
    exact mergePatterns_append_congr (ih h)

omit [Number α] in
theorem length_pos_of_not_pattern {x : Instruction α} (hx : x.Normal) (h : !x.isPattern) :
    0 < x.length := by
  cases x with
  | pattern p => contradiction
  | ramp r =>
    rw [length_ramp]
    exact (normal_ramp.mp hx).2
  | concatenated xs =>
    obtain ⟨hl, _, hparts⟩ := normal_concatenated.mp hx
    obtain ⟨y, hy⟩ := List.exists_mem_of_length_pos (Nat.lt_of_lt_of_le Nat.two_pos hl)
    rw [length_concatenated]
    exact Nat.lt_of_lt_of_le (hparts y hy).length_pos (length_le_totalLength hy)
  | repeated n body =>
    obtain ⟨hn, hl, _⟩ := normal_repeated.mp hx
    rw [length_repeated]
    exact Nat.mul_pos (Nat.lt_of_lt_of_le Nat.two_pos hn) hl

theorem eq_empty_of_isEmpty {e : Instruction α} (he : e.Normal) (hl : e.isEmpty) :
    e = pattern (.empty e.sampleType) := by
  have hl : e.length = 0 := by simpa [isEmpty] using hl
  cases e with
  | pattern p =>
    rw [length_pattern] at hl
    exact congrArg pattern (Pattern.ext_sample (normal_pattern.mp he) (Pattern.wellFormed_empty _)
      rfl hl fun i hi => by omega)
  | _ =>
    have := length_pos_of_not_pattern he rfl
    omega

theorem join_singleton {x : Instruction α} (hx : x.Typed t) : join t [x] = x := by
  obtain ⟨hn, rfl⟩ := hx
  by_cases he : x.isEmpty
  . rw [eq_empty_of_isEmpty hn he]
    rfl
  . rw [join_eq_ofParts, leaves, List.flatMap_singleton]
    cases x with
    | concatenated xs =>
      obtain ⟨hl, ha, hparts⟩ := normal_concatenated.mp hn
      rw [parts, filter_of_isPart hparts, mergePatterns_of_arePatternsApart ha,
        ofParts_eq_concatenated hl]
    | _ =>
      rw [parts, List.filter_singleton, eq_false_of_ne_true he]
      . rfl
      . simp

/--
Empty instructions are left out.
-/
theorem join_append_cons_isEmpty {e : Instruction α} (he : e.Normal) (hl : e.isEmpty) :
    join t (xs ++ e :: ys) = join t (xs ++ ys) := by
  have hnone : leaves [e] = [] := by
    rw [eq_empty_of_isEmpty he hl]
    rfl
  rw [join_eq_ofParts, join_eq_ofParts, leaves_append, ← List.singleton_append, leaves_append,
    hnone, List.nil_append, leaves_append]

section Recast

theorem map_recast_prepend {x : Instruction α} (hx : IsPart s x) (hzs : ∀ z ∈ zs, IsPart s z) :
    (prepend x zs).map (recast t) = prepend (recast t x) (zs.map (recast t)) := by
  cases x with
  | pattern p =>
    cases zs with
    | nil => simp only [prepend, recast, List.map_cons, List.map_nil]
    | cons z zs =>
      cases z with
      | pattern q =>
        have hq := hzs _ List.mem_cons_self
        rw [prepend, List.map_cons, List.map_cons, recast, recast, recast, prepend,
          Pattern.recast_append (normal_pattern.mp hx.normal) (normal_pattern.mp hq.normal)
            (hx.sampleType.trans hq.sampleType.symm)]
      | _ => simp only [prepend, recast, List.map_cons]
  | _ => simp only [prepend, recast, List.map_cons]

theorem mergePatterns_map_recast (hxs : ∀ x ∈ xs, IsPart s x) :
    mergePatterns (xs.map (recast t)) = (mergePatterns xs).map (recast t) := by
  induction xs with
  | nil => rfl
  | cons x xs ih =>
    obtain ⟨hx, hxs⟩ := List.forall_mem_cons.mp hxs
    rw [List.map_cons, mergePatterns_cons, ih hxs, mergePatterns_cons,
      map_recast_prepend hx (isPart_of_mem_mergePatterns hxs)]

theorem leaves_map_recast (t : SampleType) (xs : List (Instruction α)) :
    leaves (xs.map (recast t)) = (leaves xs).map (recast t) := by
  have hparts (x : Instruction α) : (recast t x).parts = x.parts.map (recast t) := by
    cases x with
    | concatenated ys => rw [recast, parts, parts, recastAll_eq]
    | _ => rw [recast]; rfl
  have hempty : (fun x : Instruction α => !x.isEmpty) ∘ recast t = fun x => !x.isEmpty := by
    funext x
    simp [isEmpty]
  have hflat : (xs.map (recast t)).flatMap parts = (xs.flatMap parts).map (recast t) := by
    rw [List.flatMap_map, List.map_flatMap]
    exact List.flatMap_congr fun x _ => hparts x
  rw [leaves, leaves, hflat, List.filter_map, hempty]

theorem recast_join (hw : s.width = t.width) (hxs : ∀ x ∈ xs, x.Typed s) :
    recast t (join s xs) = join t (xs.map (recast t)) := by
  rw [join_eq_ofParts, join_eq_ofParts, leaves_map_recast,
    mergePatterns_map_recast (isPart_of_mem_leaves hxs)]
  cases mergePatterns (leaves xs) with
  | nil => rw [ofParts, recast, Pattern.recast_empty hw]; rfl
  | cons y ys =>
    cases ys with
    | nil => rfl
    | cons z zs => exact congrArg concatenated (recastAll_eq t (y :: z :: zs))

end Recast

end Join

section Concatenate

/--
What a group of instructions is concatenated to, where `t` is the type of the whole.
-/
structure IsGroup (t : SampleType) (g : List (Instruction α)) (y : Instruction α) : Prop where
  concatenate : concatenate g = .ok y
  typed : y.Typed y.sampleType
  isCommon : y.sampleType.IsCommon (g.map Instruction.sampleType)
  recast : recast t y = join t (g.map (recast t))

theorem exists_isGroup {g : List (Instruction α)} (hne : g ≠ []) (hg : ∀ x ∈ g, x.Normal)
    (ht : ∀ x ∈ g, x.sampleType.WidensTo t) : ∃ y, IsGroup t g y := by
  obtain ⟨y, hy⟩ := (exists_concatenate_iff hg hne).mpr ⟨t.names, fun x hx => (ht x hx).names⟩
  obtain ⟨_, s, hs, rfl⟩ := (concatenate_eq_ok_iff_isCommon hg).mp hy
  have hxs (x) (hx : x ∈ g) : x.sampleType.WidensTo s := hs.widensTo (List.mem_map_of_mem hx)
  have htyped : ∀ y ∈ g.map (recast s), y.Typed s := by
    intro y hy
    obtain ⟨x, hx, rfl⟩ := List.mem_map.mp hy
    exact typed_recast_of_widensTo (hg x hx) (hxs x hx)
  have hst : s.WidensTo t :=
    hs.widensTo_of_forall (by simpa using hne) (List.forall_mem_map.mpr ht)
  have hty := typed_join htyped
  refine ⟨_, hy, hty.normal.typed, by rwa [hty.sampleType], ?_⟩
  rw [recast_join hst.width htyped, List.map_map]
  exact congrArg (join t) (List.map_congr_left fun x hx => recast_recast (hg x hx) (hxs x hx) hst)

theorem concatenate_of_isGroup {groups : List (List (Instruction α))} {ys : List (Instruction α)}
    (h : List.Forall₂ (IsGroup t) groups ys) (hne : groups.flatten ≠ [])
    (hgroups : ∀ g ∈ groups, g ≠ [] ∧ ∀ x ∈ g, x.Normal)
    (ht : t.IsCommon (groups.flatten.map sampleType)) :
    concatenate ys = .ok (join t (groups.flatten.map (recast t))) := by
  have hnormal : ∀ y ∈ ys, y.Normal :=
    Outcome.forall_mem_of_forall₂ (h.imp fun _ _ hy => hy.typed.normal)
  have hys : ys ≠ [] := by
    rintro rfl
    cases h
    contradiction
  have hcommon : t.IsCommon (ys.map sampleType) := by
    rw [List.map_flatten] at ht
    refine (SampleType.isCommon_flatten_iff ?_).mp ht
    rw [List.forall₂_map_left_iff, List.forall₂_map_right_iff]
    refine (Outcome.forall₂_imp_of_mem h fun g hg y hy => ?_).flip
    exact ⟨by simpa using (hgroups g hg).1, hy.isCommon⟩
  have hrecast : ys.map (recast t) = (groups.map fun g => g.map (recast t)).map (join t) := by
    rw [List.map_map]
    clear hys hcommon hnormal hne hgroups ht
    induction h with
    | nil => rfl
    | cons hy _ ih => rw [List.map_cons, List.map_cons, hy.recast, ih]; rfl
  have htyped : ∀ g ∈ groups.map (fun g => g.map (recast t)), ∀ x ∈ g, x.Typed t := by
    intro g hg x hx
    obtain ⟨g, hmem, rfl⟩ := List.mem_map.mp hg
    obtain ⟨x, hm, rfl⟩ := List.mem_map.mp hx
    exact typed_recast_of_widensTo ((hgroups g hmem).2 x hm)
      (ht.widensTo (List.mem_map_of_mem (List.mem_flatten_of_mem hmem hm)))
  refine (concatenate_eq_ok_iff_isCommon hnormal).mpr ⟨hys, t, hcommon, ?_⟩
  rw [hrecast, join_flatten htyped, List.map_flatten]

theorem concatenate_singleton {x : Instruction α} (hx : x.Normal) : concatenate [x] = .ok x := by
  refine (concatenate_eq_ok_iff_isCommon (by simpa using hx)).mpr ⟨List.cons_ne_nil _ _, _,
    SampleType.isCommon_singleton _, ?_⟩
  rw [List.map_singleton, recast_self hx, join_singleton hx.typed]

theorem concatenate_append_cons_isEmpty {e z : Instruction α} (hxs : ∀ x ∈ xs ++ ys, x.Normal)
    (he : e.Normal) (hl : e.isEmpty) (h : concatenate (xs ++ ys) = .ok z)
    (hp : z.sampleType.promote e.sampleType = .ok z.sampleType) :
    concatenate (xs ++ e :: ys) = .ok z := by
  obtain ⟨hne, t, ht, rfl⟩ := (concatenate_eq_ok_iff_isCommon hxs).mp h
  rw [(isEndToEnd_join hxs ht).sampleType.eq ht (by simpa using hne),
    SampleType.promote_eq_ok_iff] at hp
  have hnormal : ∀ x ∈ xs ++ e :: ys, x.Normal := by
    rw [List.forall_mem_append] at hxs ⊢
    exact ⟨hxs.1, List.forall_mem_cons.mpr ⟨he, hxs.2⟩⟩
  have hcommon : t.IsCommon ((xs ++ e :: ys).map sampleType) := by
    refine (SampleType.isCommon_congr fun s => ?_).mp
      ((SampleType.isCommon_append_iff (by simpa using hne) ht).mpr hp)
    simp only [List.map_append, List.map_cons, List.mem_append, List.mem_cons, List.not_mem_nil]
    tauto
  have hte := typed_recast_of_widensTo he (hp.widensTo (by simp))
  refine (concatenate_eq_ok_iff_isCommon hnormal).mpr ⟨by simp, t, hcommon, ?_⟩
  rw [List.map_append, List.map_append, List.map_cons,
    join_append_cons_isEmpty hte.normal (by simpa [isEmpty] using hl)]

/--
Neither grouping nor empty instructions change the tree that is concatenated.
-/
theorem concatenate_regroup {α : Type} [Number α] :
    (∀ (groups : List (List (Instruction α))) (z : Instruction α),
      (∀ g ∈ groups, g ≠ [] ∧ ∀ x ∈ g, x.Normal) → concatenate groups.flatten = .ok z →
        ∃ ys, groups.mapM concatenate = .ok ys ∧ concatenate ys = .ok z)
      ∧ (∀ x : Instruction α, x.Normal → concatenate [x] = .ok x)
      ∧ ∀ (before after : List (Instruction α)) (e z : Instruction α),
        (∀ x ∈ before ++ after, x.Normal) → e.Normal → e.isEmpty →
        concatenate (before ++ after) = .ok z →
        z.sampleType.promote e.sampleType = .ok z.sampleType →
          concatenate (before ++ e :: after) = .ok z := by
  refine ⟨fun groups z hgroups h => ?_, fun x => concatenate_singleton, fun _ _ _ _ =>
    concatenate_append_cons_isEmpty⟩
  have hxs : ∀ x ∈ groups.flatten, x.Normal := by
    intro x hx
    obtain ⟨g, hg, hx⟩ := List.mem_flatten.mp hx
    exact (hgroups g hg).2 x hx
  obtain ⟨hne, t, ht, rfl⟩ := (concatenate_eq_ok_iff_isCommon hxs).mp h
  have hwidens (g) (hg : g ∈ groups) (x) (hx : x ∈ g) : x.sampleType.WidensTo t :=
    ht.widensTo (List.mem_map_of_mem (List.mem_flatten_of_mem hg hx))
  obtain ⟨ys, hys, hall⟩ := Outcome.exists_mapM_eq_ok (R := IsGroup t) fun g hg =>
    let ⟨y, hy⟩ := exists_isGroup (hgroups g hg).1 (hgroups g hg).2 (hwidens g hg)
    ⟨y, hy.concatenate, hy⟩
  exact ⟨ys, hys, concatenate_of_isGroup hall hne hgroups ht⟩

/--
Two switches of which the second is grouped with a ramp, and nothing in between.
-/
theorem concatenate_regroup_switches_ramp :
    ∃ z ys, concatenate [pattern (.ofBools [true]), pattern (.ofBools [false]),
        linear (0.5 : Float) 2 3] = .ok z
      ∧ [[pattern (.ofBools [true])], [pattern (.ofBools [false]),
        linear (0.5 : Float) 2 3]].mapM concatenate = .ok ys
      ∧ concatenate ys = .ok z
      ∧ concatenate [pattern (.ofBools [true]), pattern (.empty .bool),
        pattern (.ofBools [false]), linear (0.5 : Float) 2 3] = .ok z := by
  have ha : (pattern (.ofBools [true]) : Instruction Float).Normal :=
    normal_pattern.mpr (Pattern.wellFormed_ofBools _)
  have hb : (pattern (.ofBools [false]) : Instruction Float).Normal :=
    normal_pattern.mpr (Pattern.wellFormed_ofBools _)
  have hc := (typed_linear (0.5 : Float) 2 3).normal
  have hxs : ∀ x ∈ [pattern (.ofBools [true]), pattern (.ofBools [false]),
      linear (0.5 : Float) 2 3], x.Normal := by
    simpa using ⟨ha, hb, hc⟩
  obtain ⟨z, hz⟩ := (exists_concatenate_iff hxs (List.cons_ne_nil _ _)).mpr ⟨none, by
    simpa using ⟨rfl, rfl, rfl⟩⟩
  obtain ⟨t, ht, hty, _⟩ := typed_concatenate hxs hz
  have ht : z.sampleType = .float := hty.sampleType.trans (Except.ok.inj ht).symm
  obtain ⟨hgroups, _, hempty⟩ := concatenate_regroup (α := Float)
  obtain ⟨ys, hys, h⟩ := hgroups [[_], [_, _]] z (by simpa using ⟨ha, hb, hc⟩) hz
  exact ⟨z, ys, hz, hys, h, hempty [_] [_, _] _ z hxs (normal_empty .bool) rfl hz (by rw [ht]; rfl)⟩

end Concatenate

end Waveplan.Instruction
