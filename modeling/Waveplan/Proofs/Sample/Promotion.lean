import Waveplan.Instruction.Join
import Waveplan.Proofs.Outcome

/-!
This module contains the common type of samples of several types: it exists if they have the same
channels, and it does not depend on their order or grouping.
-/

namespace Waveplan

theorem ScalarKind.promote_eq_float_iff {a b : ScalarKind} :
    a.promote b = .float ↔ a = .float ∨ b = .float := by
  cases a <;> cases b <;> decide

namespace SampleType

variable {s t u : SampleType}

theorem names_eq_none_iff : t.names = none ↔ ∃ kind, t = .scalar kind := by
  cases t <;> simp [names]

theorem names_eq_some_iff {channels : List String} :
    t.names = some channels ↔ ∃ fields, t = .record fields ∧ fields.map Field.name = channels := by
  cases t <;> simp [names]

theorem width_eq_of_names (h : s.names = t.names) : s.width = t.width := by
  cases s with
  | scalar a =>
    cases t with
    | scalar b => rfl
    | record r => cases h
  | record l =>
    cases t with
    | scalar b => cases h
    | record r => simpa [width] using congrArg List.length (Option.some.inj h)

theorem ext_kinds (hn : s.names = t.names) (hk : s.kinds = t.kinds) : s = t := by
  cases s with
  | scalar a =>
    cases t with
    | scalar b => rw [List.singleton_inj.mp hk]
    | record r => cases hn
  | record l =>
    cases t with
    | scalar b => cases hn
    | record r =>
      have hn := Option.some.inj hn
      have hl : l.length = r.length := by simpa using congrArg List.length hn
      congr 1
      apply List.ext_getElem hl
      intro i h₁ h₂
      have hname := List.getElem_of_eq hn (by simpa using h₁)
      have hkind := List.getElem_of_eq hk (by simpa [kinds] using h₁)
      simp only [kinds, List.getElem_map] at hname hkind
      exact (Field.mk.injEq ..).mpr ⟨hname, hkind⟩

/--
The type with the channels of all of some types, in which a channel holds floats if it does in any
of them.
-/
structure IsCommon (t : SampleType) (types : List SampleType) : Prop where
  names : ∀ s ∈ types, s.names = t.names
  kinds : ∀ j : Nat, t.kinds[j]? = some .float ↔ ∃ s ∈ types, s.kinds[j]? = some .float

/--
That samples of one type can be read as samples of another without losing anything.
-/
structure WidensTo (s t : SampleType) : Prop where
  names : s.names = t.names
  kinds : ∀ j : Nat, s.kinds[j]? = some .float → t.kinds[j]? = some .float

theorem WidensTo.width (h : s.WidensTo t) : s.width = t.width := width_eq_of_names h.names

theorem WidensTo.isInterpolable (h : s.WidensTo t) (hs : s.isInterpolable) : t.isInterpolable := by
  simp only [SampleType.isInterpolable, List.all_eq_true, decide_eq_true_eq] at hs ⊢
  intro k hk
  obtain ⟨j, hj, rfl⟩ := List.getElem_of_mem hk
  have hl : j < s.kinds.length := by
    rw [length_kinds, h.width, ← length_kinds]
    exact hj
  have hfloat := h.kinds j (by rw [List.getElem?_eq_getElem hl, hs _ (List.getElem_mem hl)])
  rw [List.getElem?_eq_getElem hj] at hfloat
  exact Option.some.inj hfloat

section Common

variable {types : List SampleType}

theorem isCommon_singleton (t : SampleType) : t.IsCommon [t] where
  names := by simp
  kinds := by simp

theorem IsCommon.widensTo (h : t.IsCommon types) (hs : s ∈ types) : s.WidensTo t where
  names := h.names s hs
  kinds j hj := (h.kinds j).mpr ⟨s, hs, hj⟩

theorem IsCommon.widensTo_of_forall (h : s.IsCommon types) (hne : types ≠ [])
    (ht : ∀ r ∈ types, r.WidensTo t) : s.WidensTo t := by
  obtain ⟨r, hr⟩ := List.exists_mem_of_ne_nil types hne
  refine ⟨(h.names r hr).symm.trans (ht r hr).names, fun j hj => ?_⟩
  obtain ⟨r, hr, hfloat⟩ := (h.kinds j).mp hj
  exact (ht r hr).kinds j hfloat

theorem IsCommon.eq (ht : t.IsCommon types) (hu : u.IsCommon types) (hne : types ≠ []) : t = u := by
  obtain ⟨s, hs⟩ := List.exists_mem_of_ne_nil types hne
  have hn : t.names = u.names := (ht.names s hs).symm.trans (hu.names s hs)
  apply ext_kinds hn
  have hl : t.kinds.length = u.kinds.length := by
    rw [length_kinds, length_kinds, width_eq_of_names hn]
  apply List.ext_getElem hl
  intro j h₁ h₂
  have hiff := (ht.kinds j).trans (hu.kinds j).symm
  rw [List.getElem?_eq_getElem h₁, List.getElem?_eq_getElem h₂] at hiff
  cases h : t.kinds[j] with
  | float => exact (Option.some.inj (hiff.mp (by rw [h]))).symm
  | bool =>
    cases h' : u.kinds[j] with
    | float => rw [h, h'] at hiff; simp at hiff
    | bool => rfl

theorem isCommon_congr {others : List SampleType} (h : ∀ s, s ∈ types ↔ s ∈ others) :
    t.IsCommon types ↔ t.IsCommon others := by
  constructor
  . intro ht
    exact ⟨fun s hs => ht.names s ((h s).mpr hs), fun j => by simp only [ht.kinds j, h]⟩
  . intro ht
    exact ⟨fun s hs => ht.names s ((h s).mp hs), fun j => by simp only [ht.kinds j, h]⟩

/--
The common type of groups is the common type of their common types.
-/
theorem isCommon_flatten_iff {commons : List SampleType} {groups : List (List SampleType)}
    (h : List.Forall₂ (fun c g => g ≠ [] ∧ c.IsCommon g) commons groups) :
    t.IsCommon groups.flatten ↔ t.IsCommon commons := by
  have hnames : (∀ s ∈ groups.flatten, s.names = t.names) ↔ ∀ c ∈ commons, c.names = t.names := by
    induction h with
    | nil => simp
    | cons hc _ ih =>
      obtain ⟨hne, hc⟩ := hc
      rw [List.flatten_cons, List.forall_mem_append, List.forall_mem_cons, ih]
      apply and_congr_left'
      constructor
      . intro h
        obtain ⟨s, hs⟩ := List.exists_mem_of_ne_nil _ hne
        exact (hc.names s hs).symm.trans (h s hs)
      . intro h s hs
        exact (hc.names s hs).trans h
  have hkinds (j : Nat) : (∃ s ∈ groups.flatten, s.kinds[j]? = some .float)
      ↔ ∃ c ∈ commons, c.kinds[j]? = some .float := by
    clear hnames
    induction h with
    | nil => simp
    | cons hc _ ih =>
      rw [List.flatten_cons, List.exists_mem_cons_iff, ← ih, hc.2.kinds j]
      simp only [List.mem_append, or_and_right, exists_or]
  constructor
  . intro ht
    exact ⟨hnames.mp ht.names, fun j => (ht.kinds j).trans (hkinds j)⟩
  . intro ht
    exact ⟨hnames.mpr ht.names, fun j => (ht.kinds j).trans (hkinds j).symm⟩

theorem isCommon_append_iff {others : List SampleType} (hne : types ≠ []) (hu : u.IsCommon types) :
    t.IsCommon (types ++ others) ↔ t.IsCommon (u :: others) := by
  have hothers : List.Forall₂ (fun c g => g ≠ [] ∧ c.IsCommon g) others
      (others.map fun v => [v]) :=
    List.forall₂_map_right_iff.mpr (List.forall₂_same.mpr fun v _ =>
      ⟨List.cons_ne_nil _ _, isCommon_singleton v⟩)
  have h : t.IsCommon (types :: others.map fun v => [v]).flatten ↔ t.IsCommon (u :: others) :=
    isCommon_flatten_iff (.cons ⟨hne, hu⟩ hothers)
  simpa [← List.flatMap_def] using h

end Common

section Promote

variable {types : List SampleType}

theorem names_of_promote (h : s.promote t = .ok u) : s.names = t.names := by
  unfold promote at h
  split at h
  . rfl
  . split at h
    . next hn => exact congrArg some hn
    . contradiction
  . contradiction

theorem exists_promote (h : s.names = t.names) : ∃ u, s.promote t = .ok u ∧ u.IsCommon [s, t] := by
  cases s with
  | scalar a =>
    cases t with
    | record r => cases h
    | scalar b =>
      refine ⟨_, rfl, by simp [SampleType.names], fun j => ?_⟩
      cases j <;> simp [SampleType.kinds, ScalarKind.promote_eq_float_iff]
  | record l =>
    cases t with
    | scalar b => cases h
    | record r =>
      have hn := Option.some.inj h
      have hl : l.length = r.length := by simpa using congrArg List.length hn
      have hnames : (List.zipWith (fun x y => (⟨x.name, x.kind.promote y.kind⟩ : Field)) l r).map
          Field.name = l.map Field.name := by
        apply List.ext_getElem
        . simp [hl]
        . simp
      refine ⟨_, if_pos hn, ?_, fun j => ?_⟩
      . simp [SampleType.names, hnames, hn]
      . simp only [SampleType.kinds, List.getElem?_map, List.getElem?_zipWith, List.mem_cons,
          List.not_mem_nil, or_false, exists_eq_or_imp, exists_eq_left]
        by_cases hj : j < l.length
        . simp [hj, hl ▸ hj, ScalarKind.promote_eq_float_iff]
        . simp [hj, hl ▸ hj]

theorem promote_eq_ok_iff : s.promote t = .ok u ↔ u.IsCommon [s, t] := by
  constructor
  . intro h
    obtain ⟨v, hv, hc⟩ := exists_promote (names_of_promote h)
    cases hv.symm.trans h
    exact hc
  . intro h
    obtain ⟨v, hv, hc⟩ :=
      exists_promote ((h.names s (by simp)).trans (h.names t (by simp)).symm)
    rw [hv, hc.eq h (List.cons_ne_nil _ _)]

theorem foldlM_promote_eq_ok_iff : types.foldlM promote s = .ok t ↔ t.IsCommon (s :: types) := by
  induction types generalizing s with
  | nil =>
    constructor
    . intro h
      cases h
      exact isCommon_singleton _
    . intro h
      exact congrArg Except.ok ((isCommon_singleton s).eq h (List.cons_ne_nil _ _))
  | cons r types ih =>
    rw [List.foldlM_cons, Outcome.bind_eq_ok_iff]
    constructor
    . rintro ⟨u, hu, h⟩
      exact (isCommon_append_iff (List.cons_ne_nil _ _) (promote_eq_ok_iff.mp hu)).mpr (ih.mp h)
    . intro h
      obtain ⟨u, hu, hc⟩ := exists_promote ((h.names s (by simp)).trans (h.names r (by simp)).symm)
      exact ⟨u, hu, ih.mpr ((isCommon_append_iff (List.cons_ne_nil _ _) hc).mp h)⟩

/--
Types have a common type exactly if they have the same channels.
-/
theorem exists_isCommon_iff (hne : types ≠ []) :
    (∃ t : SampleType, t.IsCommon types) ↔ ∃ names, ∀ s ∈ types, s.names = names := by
  constructor
  . rintro ⟨t, ht⟩
    exact ⟨t.names, ht.names⟩
  . rintro ⟨names, h⟩
    induction types with
    | nil => contradiction
    | cons s types ih =>
      obtain ⟨hs, h⟩ := List.forall_mem_cons.mp h
      by_cases htypes : types = []
      . exact ⟨s, htypes ▸ isCommon_singleton s⟩
      . obtain ⟨u, hu⟩ := ih htypes h
        obtain ⟨r, hr⟩ := List.exists_mem_of_ne_nil types htypes
        have hnames : u.names = s.names := by rw [← hu.names r hr, h r hr, hs]
        obtain ⟨t, _, ht⟩ := exists_promote hnames
        refine ⟨t, (isCommon_congr ?_).mp ((isCommon_append_iff htypes hu).mpr ht)⟩
        simp [or_comm]

end Promote

end SampleType

end Waveplan
