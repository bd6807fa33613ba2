import Waveplan.Number.Double
import Waveplan.Proofs.Instruction.Recast

/-!
This module contains what instructions that are put end to end are written out as: column by column,
the values of the one after the values of the other.
-/

namespace Waveplan

variable {α : Type} [Number α]

namespace Column

/--
The values of a column as floats, booleans being read as zero and one.
-/
def floats : Column α → List α
  | .bool values => values.map Number.ofBool
  | .float values => values

theorem foldr_append_floats (cs : List (Column α)) :
    (cs.map (·.cast .float)).foldr append (empty .float) = .float (cs.flatMap floats) := by
  induction cs with
  | nil => rfl
  | cons c cs ih =>
    rw [List.map_cons, List.foldr_cons, ih, List.flatMap_cons]
    cases c <;> rfl

theorem foldr_append_bools (values : List (List Bool)) :
    ((values.map bool).map (·.cast .bool)).foldr append (empty .bool)
      = (.bool values.flatten : Column α) := by
  induction values with
  | nil => rfl
  | cons vs values ih =>
    rw [List.map_cons, List.map_cons, List.foldr_cons, ih, List.flatten_cons]
    rfl

omit [Number α] in
theorem exists_eq_map_bool {cs : List (Column α)} (h : ∀ c ∈ cs, c.kind = .bool) :
    ∃ values : List (List Bool), cs = values.map bool := by
  induction cs with
  | nil => exact ⟨[], rfl⟩
  | cons c cs ih =>
    obtain ⟨hc, h⟩ := List.forall_mem_cons.mp h
    obtain ⟨values, rfl⟩ := ih h
    cases c with
    | bool vs => exact ⟨vs :: values, rfl⟩
    | float vs => cases hc

end Column

namespace Pattern

variable {t : SampleType} {ps : List (Pattern α)} {j : Nat}

/--
A channel of patterns that are read as samples of one type and put end to end.
-/
theorem getElem?_columns_concat {k : ScalarKind}
    (hps : ∀ p ∈ ps, p.WellFormed ∧ p.sampleType.width = t.width) (hj : t.kinds[j]? = some k) :
    ∃ cs : List (Column α), List.Forall₂ (fun p c => p.columns[j]? = some c) ps cs
      ∧ (concat t (ps.map (recast t))).columns[j]?
        = some ((cs.map (·.cast k)).foldr Column.append (.empty k)) := by
  induction ps with
  | nil =>
    refine ⟨[], .nil, ?_⟩
    rw [List.map_nil, concat_nil, empty, List.getElem?_map, hj]
    rfl
  | cons p ps ih =>
    obtain ⟨⟨hp, hw⟩, hps⟩ := List.forall_mem_cons.mp hps
    obtain ⟨cs, hcs, hc⟩ := ih hps
    obtain ⟨hlt, _⟩ := List.getElem?_eq_some_iff.mp hj
    rw [SampleType.length_kinds, ← hw, ← hp.length_columns] at hlt
    have hcolumn := List.getElem?_eq_getElem hlt
    refine ⟨_, .cons hcolumn hcs, ?_⟩
    rw [List.map_cons, concat_cons, append, List.getElem?_zipWith_eq_some]
    refine ⟨_, _, ?_, hc, rfl⟩
    rw [recast, List.getElem?_zipWith_eq_some]
    exact ⟨_, _, hcolumn, hj, rfl⟩

theorem concat_ofBools (values : List (List Bool)) :
    concat .bool (values.map ofBools) = (ofBools values.flatten : Pattern α) := by
  induction values with
  | nil => rfl
  | cons vs values ih =>
    rw [List.map_cons, concat_cons, ih, List.flatten_cons, append, ofBools, ofBools, ofBools,
      List.length_append]
    rfl

end Pattern

namespace Instruction

variable {t : SampleType} {xs : List (Instruction α)} {y : Instruction α}

omit [Number α] in
theorem commonType_eq_ok_iff :
    commonType xs = .ok t ↔ xs ≠ [] ∧ t.IsCommon (xs.map sampleType) := by
  cases xs with
  | nil => exact ⟨fun h => by contradiction, fun h => absurd rfl h.1⟩
  | cons x xs =>
    rw [commonType, List.map_cons, ← SampleType.foldlM_promote_eq_ok_iff, List.foldlM_map]
    simp

/--
Instructions are put end to end after each is read as samples of their common type.
-/
theorem concatenate_eq_ok_iff_isCommon (hxs : ∀ x ∈ xs, x.Normal) :
    concatenate xs = .ok y ↔ xs ≠ [] ∧ ∃ t : SampleType, t.IsCommon (xs.map sampleType)
      ∧ y = join t (xs.map (recast t)) := by
  have hcast {t : SampleType} (ht : t.IsCommon (xs.map sampleType)) :
      asTypeAll xs t = .ok (xs.map (recast t)) := by
    rw [asTypeAll_eq, Outcome.mapM_eq_ok_iff, List.forall₂_map_right_iff, List.forall₂_same]
    exact fun x hm => asType_of_widensTo (hxs x hm) (ht.widensTo (List.mem_map_of_mem hm))
  rw [concatenate, Outcome.bind_eq_ok_iff]
  constructor
  . rintro ⟨t, ht, h⟩
    obtain ⟨hne, ht⟩ := commonType_eq_ok_iff.mp ht
    rw [hcast ht] at h
    exact ⟨hne, t, ht, (Except.ok.inj h).symm⟩
  . rintro ⟨hne, t, ht, rfl⟩
    refine ⟨t, commonType_eq_ok_iff.mpr ⟨hne, ht⟩, ?_⟩
    rw [hcast ht]
    rfl

omit [Number α] in
theorem isCommon_of_typed (hne : xs ≠ []) (hxs : ∀ x ∈ xs, x.Typed t) :
    t.IsCommon (xs.map sampleType) := by
  refine (SampleType.isCommon_congr fun s => ?_).mp (SampleType.isCommon_singleton t)
  rw [List.mem_singleton, List.mem_map]
  constructor
  . rintro rfl
    obtain ⟨x, hx⟩ := List.exists_mem_of_ne_nil xs hne
    exact ⟨x, hx, (hxs x hx).sampleType⟩
  . rintro ⟨x, hx, rfl⟩
    exact (hxs x hx).sampleType

theorem concatenate_of_typed (hne : xs ≠ []) (hxs : ∀ x ∈ xs, x.Typed t) :
    concatenate xs = .ok (join t xs) := by
  have hrecast : xs.map (recast t) = xs := by
    rw [List.map_congr_left fun x hx => (hxs x hx).sampleType ▸ recast_self (hxs x hx).normal,
      List.map_id']
  rw [(concatenate_eq_ok_iff_isCommon fun x hx => (hxs x hx).normal).mpr
    ⟨hne, t, isCommon_of_typed hne hxs, rfl⟩, hrecast]

theorem toPattern_join (h : ∀ x ∈ xs, x.Typed t) :
    (join t xs).toPattern = Pattern.concat t (xs.map toPattern) := by
  obtain ⟨hw, hl, hs⟩ := wellFormed_concat_toPattern fun x hx =>
    let ⟨hn, ht⟩ := h x hx
    (toPattern_spec hn).imp_right (And.imp_left (·.trans ht))
  obtain ⟨hn, ht⟩ := typed_join h
  apply Pattern.ext_sample (wellFormed_toPattern hn) hw
  . rw [sampleType_toPattern hn, ht, Pattern.sampleType_concat]
  . rw [length_toPattern hn, length_join, hl]
  . intro i hi
    rw [length_toPattern hn, length_join] at hi
    rw [sample_toPattern hn (by rwa [length_join]), sampleAt_join h hi, hs i hi]

theorem toPattern_level (value : Bool) (n : Nat) :
    (level value n : Instruction α).toPattern = .ofBools (List.replicate n value) := by
  obtain ⟨hn, ht⟩ := typed_level (α := α) value n
  apply Pattern.ext_sample (wellFormed_toPattern hn) (Pattern.wellFormed_ofBools _)
  . rw [sampleType_toPattern hn, ht]
    rfl
  . rw [length_toPattern hn, length_level, Pattern.ofBools, List.length_replicate]
  . intro i hi
    rw [length_toPattern hn, length_level] at hi
    rw [sample_toPattern hn (by rwa [length_level]), sampleAt_level value hi]
    simp [Pattern.ofBools, Pattern.sample, Column.get, hi]

/--
What is played by instructions that are put end to end.
-/
structure IsEndToEnd (xs : List (Instruction α)) (y : Instruction α) : Prop where
  normal : y.Normal
  sampleType : y.sampleType.IsCommon (xs.map Instruction.sampleType)
  length : y.length = (xs.map Instruction.length).sum
  sampleType_toPattern : y.toPattern.sampleType = y.sampleType
  length_toPattern : y.toPattern.length = y.length
  length_columns : y.toPattern.columns.length = y.sampleType.width
  /-- In a channel of booleans all instructions have booleans. -/
  bools : ∀ j : Nat, y.sampleType.kinds[j]? = some .bool → ∃ values : List (List Bool),
    List.Forall₂ (fun x vs => x.toPattern.columns[j]? = some (.bool vs)) xs values
    ∧ y.toPattern.columns[j]? = some (.bool values.flatten)
  floats : ∀ j : Nat, y.sampleType.kinds[j]? = some .float → ∃ cs : List (Column α),
    List.Forall₂ (fun x c => x.toPattern.columns[j]? = some c) xs cs
    ∧ y.toPattern.columns[j]? = some (.float (cs.flatMap Column.floats))

theorem isEndToEnd_join (hxs : ∀ x ∈ xs, x.Normal) (ht : t.IsCommon (xs.map sampleType)) :
    IsEndToEnd xs (join t (xs.map (recast t))) := by
  have hwidens (x) (hx : x ∈ xs) : x.sampleType.WidensTo t := ht.widensTo (List.mem_map_of_mem hx)
  have htyped : ∀ y ∈ xs.map (recast t), y.Typed t := by
    intro y hy
    obtain ⟨x, hx, rfl⟩ := List.mem_map.mp hy
    exact typed_recast_of_widensTo (hxs x hx) (hwidens x hx)
  have hp : (join t (xs.map (recast t))).toPattern
      = Pattern.concat t ((xs.map toPattern).map (Pattern.recast t)) := by
    rw [toPattern_join htyped, List.map_map, List.map_map]
    exact congrArg _ (List.map_congr_left fun x hx =>
      toPattern_recast_of_widensTo (hxs x hx) (hwidens x hx))
  have hps : ∀ p ∈ xs.map toPattern, p.WellFormed ∧ p.sampleType.width = t.width := by
    intro p hp
    obtain ⟨x, hx, rfl⟩ := List.mem_map.mp hp
    rw [Instruction.sampleType_toPattern (hxs x hx)]
    exact ⟨wellFormed_toPattern (hxs x hx), (hwidens x hx).width⟩
  obtain ⟨hn, hty⟩ := typed_join htyped
  constructor
  . exact hn
  . rwa [hty]
  . rw [length_join, totalLength_eq, List.map_map]
    exact congrArg List.sum (List.map_congr_left fun x _ => length_recast t x)
  . exact Instruction.sampleType_toPattern hn
  . exact Instruction.length_toPattern hn
  . rw [(wellFormed_toPattern hn).length_columns, Instruction.sampleType_toPattern hn]
  . intro j hj
    rw [hty] at hj
    rw [hp]
    obtain ⟨cs, hcs, hc⟩ := Pattern.getElem?_columns_concat hps hj
    have hcs := List.forall₂_map_left_iff.mp hcs
    have hbool : ∀ c ∈ cs, c.kind = .bool := by
      apply Outcome.forall_mem_of_forall₂
      refine Outcome.forall₂_imp_of_mem hcs fun x hx c hc => ?_
      have hk := congrArg (·[j]?) (wellFormed_toPattern (hxs x hx)).kinds
      simp only [List.getElem?_map, hc, Instruction.sampleType_toPattern (hxs x hx)] at hk
      cases hkind : c.kind with
      | bool => rfl
      | float =>
        have := (ht.kinds j).mpr ⟨_, List.mem_map_of_mem hx, by rw [← hk, ← hkind]; rfl⟩
        rw [hj] at this
        cases this
    obtain ⟨values, rfl⟩ := Column.exists_eq_map_bool hbool
    rw [Column.foldr_append_bools] at hc
    rw [List.forall₂_map_right_iff] at hcs
    exact ⟨values, hcs, hc⟩
  . intro j hj
    rw [hty] at hj
    rw [hp]
    obtain ⟨cs, hcs, hc⟩ := Pattern.getElem?_columns_concat hps hj
    rw [Column.foldr_append_floats] at hc
    exact ⟨cs, List.forall₂_map_left_iff.mp hcs, hc⟩

theorem exists_concatenate_iff (hxs : ∀ x ∈ xs, x.Normal) (hne : xs ≠ []) :
    (∃ y, concatenate xs = .ok y) ↔ ∃ names, ∀ x ∈ xs, x.sampleType.names = names := by
  have hmap : xs.map sampleType ≠ [] := by simpa using hne
  have h := SampleType.exists_isCommon_iff hmap
  simp only [List.forall_mem_map] at h
  rw [← h]
  simp only [concatenate_eq_ok_iff_isCommon hxs]
  constructor
  . rintro ⟨y, _, t, ht, _⟩
    exact ⟨t, ht⟩
  . rintro ⟨t, ht⟩
    exact ⟨_, hne, t, ht, rfl⟩

/--
That instructions have samples of the same channels, whatever the kinds of these.
-/
def HaveSameChannels (xs : List (Instruction α)) : Prop :=
  (∀ x ∈ xs, ∃ kind, x.sampleType = .scalar kind)
    ∨ ∃ names, ∀ x ∈ xs, ∃ fields, x.sampleType = .record fields ∧ fields.map Field.name = names

theorem exists_concatenate_iff_haveSameChannels (hxs : ∀ x ∈ xs, x.Normal) (hne : xs ≠ []) :
    (∃ y, concatenate xs = .ok y) ↔ HaveSameChannels xs := by
  rw [exists_concatenate_iff hxs hne, Option.exists]
  simp only [SampleType.names_eq_none_iff, SampleType.names_eq_some_iff, HaveSameChannels]

theorem isEndToEnd_of_concatenate (hxs : ∀ x ∈ xs, x.Normal) {y : Instruction α}
    (hy : concatenate xs = .ok y) : IsEndToEnd xs y := by
  obtain ⟨_, t, ht, rfl⟩ := (concatenate_eq_ok_iff_isCommon hxs).mp hy
  exact isEndToEnd_join hxs ht

/--
The type of a concatenation does not depend on the order.
-/
theorem exists_concatenate_of_perm (hxs : ∀ x ∈ xs, x.Normal) {y : Instruction α}
    (hy : concatenate xs = .ok y) {zs : List (Instruction α)} (hzs : zs.Perm xs) :
    ∃ z, concatenate zs = .ok z ∧ IsEndToEnd zs z ∧ z.sampleType = y.sampleType := by
  obtain ⟨hne, t, ht, rfl⟩ := (concatenate_eq_ok_iff_isCommon hxs).mp hy
  have hmem (s : SampleType) : s ∈ xs.map sampleType ↔ s ∈ zs.map sampleType :=
    ((hzs.map sampleType).mem_iff).symm
  have hnormal : ∀ z ∈ zs, z.Normal := fun z hz => hxs z (hzs.mem_iff.mp hz)
  have hz := (SampleType.isCommon_congr hmem).mp (isEndToEnd_join hxs ht).sampleType
  have hzne : zs ≠ [] := by
    rintro rfl
    exact hne hzs.nil_eq.symm
  have h := isEndToEnd_join hnormal hz
  exact ⟨_, (concatenate_eq_ok_iff_isCommon hnormal).mpr ⟨hzne, _, hz, rfl⟩, h,
    h.sampleType.eq hz (by simpa using hzne)⟩

/--
Playing instructions one after the other succeeds on samples of the same channels whose ticks can be
counted together, and then plays them in order, in a type that does not depend on the order.
-/
theorem isEndToEnd_play (hxs : ∀ x ∈ xs, x.Normal) :
    (xs = [] → play xs = .error .noInstructions)
      ∧ (xs ≠ [] → ((∃ y, play xs = .ok y)
        ↔ HaveSameChannels xs ∧ (xs.map Instruction.length).sum < wordModulus))
      ∧ (xs ≠ [] → HaveSameChannels xs → wordModulus ≤ (xs.map Instruction.length).sum →
        play xs = .error .overflow)
      ∧ ∀ y, play xs = .ok y → IsEndToEnd xs y
        ∧ ∀ zs, zs.Perm xs → ∃ z, play zs = .ok z ∧ z.sampleType = y.sampleType := by
  refine ⟨?_, fun hne => ?_, fun hne hsame hl => ?_, fun y hy => ?_⟩
  . rintro rfl
    rfl
  . simp only [play_eq_ok_iff_fits hxs, ← exists_concatenate_iff_haveSameChannels hxs hne]
    constructor
    . rintro ⟨y, hy, hl⟩
      exact ⟨⟨y, hy⟩, (isEndToEnd_of_concatenate hxs hy).length ▸ hl⟩
    . rintro ⟨⟨y, hy⟩, hl⟩
      exact ⟨y, hy, (isEndToEnd_of_concatenate hxs hy).length ▸ hl⟩
  . obtain ⟨y, hy⟩ := (exists_concatenate_iff_haveSameChannels hxs hne).mpr hsame
    rw [play, hy]
    exact fit_of_le (normal_concatenate hxs hy) ((isEndToEnd_of_concatenate hxs hy).length ▸ hl)
  . obtain ⟨hy, hl⟩ := (play_eq_ok_iff_fits hxs).mp hy
    have h := isEndToEnd_of_concatenate hxs hy
    refine ⟨h, fun zs hzs => ?_⟩
    obtain ⟨z, hz, hend, ht⟩ := exists_concatenate_of_perm hxs hy hzs
    refine ⟨z, (play_eq_ok_iff_fits fun x hx => hxs x (hzs.mem_iff.mp hx)).mpr ⟨hz, ?_⟩, ht⟩
    rw [hend.length, (hzs.map Instruction.length).sum_nat, ← h.length]
    exact hl

/--
A switch before a ramp.
-/
theorem isEndToEnd_play_switch_ramp :
    ∃ y, play [pattern (.ofBools [true, false]), linear (0.5 : Float) 2 3] = .ok y
      ∧ y.sampleType = .float ∧ y.length = 5 := by
  have hxs : ∀ x ∈ [pattern (.ofBools [true, false]), linear (0.5 : Float) 2 3], x.Normal := by
    simp only [List.forall_mem_cons, List.not_mem_nil, false_implies, implies_true, and_true]
    exact ⟨normal_pattern.mpr (Pattern.wellFormed_ofBools _), (typed_linear _ _ _).normal⟩
  have hsame : HaveSameChannels [pattern (.ofBools [true, false]), linear (0.5 : Float) 2 3] := by
    left
    simp only [List.forall_mem_cons, List.not_mem_nil, false_implies, implies_true, and_true]
    exact ⟨⟨_, rfl⟩, ⟨_, (typed_linear _ _ _).sampleType⟩⟩
  obtain ⟨_, hok, _, h⟩ := isEndToEnd_play hxs
  obtain ⟨y, hy⟩ := (hok (List.cons_ne_nil _ _)).mpr ⟨hsame, by simp [Pattern.ofBools, wordModulus]⟩
  obtain ⟨h, _⟩ := h y hy
  have ht : SampleType.float.IsCommon
      ([pattern (.ofBools [true, false]), linear (0.5 : Float) 2 3].map Instruction.sampleType) :=
    SampleType.promote_eq_ok_iff.mp rfl
  refine ⟨y, hy, h.sampleType.eq ht (List.cons_ne_nil _ _), ?_⟩
  simpa [Pattern.ofBools] using h.length

/--
Two switches of one type that are too long to be played one after the other.
-/
theorem not_play_heldSwitches :
    HaveSameChannels [level true signedBound, (level true signedBound : Instruction Float)]
      ∧ play [level true signedBound, (level true signedBound : Instruction Float)]
        = .error .overflow := by
  have htyped : ∀ x ∈ [level true signedBound, (level true signedBound : Instruction Float)],
      x.Typed (.scalar .bool) := by
    intro x hx
    rw [List.mem_pair, or_self] at hx
    exact hx ▸ typed_level true signedBound
  refine ⟨.inl fun x hx => ⟨_, (htyped x hx).sampleType⟩, ?_⟩
  apply play_of_le (List.cons_ne_nil _ _) htyped
  simp [totalLength, signedBound, wordModulus]

end Instruction

end Waveplan
