import Mathlib.Data.List.Forall2
import Mathlib.Data.List.Nodup
import Waveplan.Config.Record
import Waveplan.Proofs.Dictionary

/-!
This module contains that the fields of a record are found in it by their names and the tag of a
value by its own, and that what is found in a document is not as deep as the document.
-/

namespace Waveplan.Document

section Sequences

variable {β γ : Type}

theorem mapM_eq_some_iff {f : β → Option γ} {xs : List β} {ys : List γ} :
    xs.mapM f = some ys ↔ List.Forall₂ (fun x y => f x = some y) xs ys := by
  induction xs generalizing ys with
  | nil => cases ys <;> simp
  | cons x xs ih =>
    rw [List.mapM_cons]
    cases ys with
    | nil => simp [Option.bind_eq_some_iff]
    | cons y ys =>
      simp only [Option.bind_eq_bind, Option.bind_eq_some_iff, List.forall₂_cons, ← ih,
        Option.pure_def, Option.some.injEq, List.cons.injEq]
      constructor
      . rintro ⟨_, hy, _, hys, rfl, rfl⟩
        exact ⟨hy, hys⟩
      . rintro ⟨hy, hys⟩
        exact ⟨y, hy, ys, hys, rfl, rfl⟩

theorem mapM_map_eq_some {f : β → Option γ} {g : γ → β} {xs : List γ}
    (h : ∀ x ∈ xs, f (g x) = some x) : (xs.map g).mapM f = some xs := by
  rw [mapM_eq_some_iff, List.forall₂_map_left_iff, List.forall₂_same]
  exact h

theorem exists_mem_of_mapM {f : β → Option γ} {xs : List β} {ys : List γ}
    (h : xs.mapM f = some ys) {y : γ} (hy : y ∈ ys) : ∃ x ∈ xs, f x = some y := by
  induction mapM_eq_some_iff.mp h with
  | nil => contradiction
  | cons hx hxs ih =>
    rcases List.mem_cons.mp hy with rfl | hy
    . exact ⟨_, List.mem_cons_self, hx⟩
    . obtain ⟨x, hm, hx⟩ := ih (mapM_eq_some_iff.mpr hxs) hy
      exact ⟨x, List.mem_cons_of_mem _ hm, hx⟩

end Sequences

variable {α : Type}

section Depth

variable {n : Nat}

@[simp]
theorem depth_text (s : String) : (text s : Document α).depth = 0 := rfl

theorem depthOfItems_lt_iff {items : List (Document α)} :
    depthOfItems items < n ↔ 0 < n ∧ ∀ d ∈ items, d.depth < n := by
  induction items with
  | nil => simp [depthOfItems]
  | cons d rest ih =>
    rw [depthOfItems, max_lt_iff, ih, List.forall_mem_cons]
    exact and_left_comm

theorem depthOfEntries_lt_iff {entries : List (Document α × Document α)} :
    depthOfEntries entries < n
      ↔ 0 < n ∧ ∀ entry ∈ entries, entry.1.depth < n ∧ entry.2.depth < n := by
  induction entries with
  | nil => simp [depthOfEntries]
  | cons entry rest ih =>
    obtain ⟨key, value⟩ := entry
    rw [depthOfEntries, max_lt_iff, max_lt_iff, ih, List.forall_mem_cons]
    exact and_left_comm

theorem depth_list_le_iff {items : List (Document α)} :
    (list items).depth ≤ n ↔ 0 < n ∧ ∀ d ∈ items, d.depth < n := by
  rw [depth, ← depthOfItems_lt_iff, Nat.succ_le_iff]

theorem depth_map_le_iff {entries : List (Document α × Document α)} :
    (map entries).depth ≤ n
      ↔ 0 < n ∧ ∀ entry ∈ entries, entry.1.depth < n ∧ entry.2.depth < n := by
  rw [depth, ← depthOfEntries_lt_iff, Nat.succ_le_iff]

theorem depth_record_le_iff {fields : List (String × Document α)} :
    (record fields).depth ≤ n ↔ 0 < n ∧ ∀ field ∈ fields, field.2.depth < n := by
  rw [record, depth_map_le_iff, List.forall_mem_map]
  constructor
  . rintro ⟨hn, h⟩
    exact ⟨hn, fun field hf => (h field hf).2⟩
  . rintro ⟨hn, h⟩
    exact ⟨hn, fun field hf => ⟨hn, h field hf⟩⟩

/--
A record has one level more than its deepest field.
-/
theorem exists_succ_of_depth_record_le {fields : List (String × Document α)}
    (h : (record fields).depth ≤ n) :
    ∃ levels, n = levels + 1 ∧ ∀ field ∈ fields, field.2.depth ≤ levels := by
  obtain ⟨hpos, hfields⟩ := depth_record_le_iff.mp h
  obtain ⟨levels, rfl⟩ := Nat.exists_eq_succ_of_ne_zero (Nat.ne_of_gt hpos)
  exact ⟨levels, rfl, fun field hm => Nat.le_of_lt_succ (hfields field hm)⟩

end Depth

section Typed

@[simp]
theorem isTyped_text (s : String) : (text s : Document α).isTyped = true := rfl

theorem isTyped_list_iff {items : List (Document α)} :
    (list items).isTyped ↔ ∀ d ∈ items, d.isTyped := by
  rw [isTyped]
  induction items with
  | nil => simp [areItemsTyped]
  | cons d rest ih => rw [areItemsTyped, Bool.and_eq_true, ih, List.forall_mem_cons]

theorem isTyped_record_iff {fields : List (String × Document α)} :
    (record fields).isTyped ↔ ∀ field ∈ fields, field.2.isTyped := by
  rw [record, isTyped]
  induction fields with
  | nil => simp [areEntriesTyped]
  | cons field rest ih =>
    have htext : (text field.1 : Document α).isTyped = true := rfl
    rw [List.map_cons, areEntriesTyped, Bool.and_eq_true, ih, List.forall_mem_cons, htext,
      Bool.true_and]

end Typed

section Fields

variable {names : List String} {fields : List (String × Document α)}

theorem filter_eq_toList_lookup (h : (fields.map Prod.fst).Nodup) (name : String) :
    fields.filter (·.1 == name) = (fields.lookup name).toList.map fun value => (name, value) := by
  induction fields with
  | nil => rfl
  | cons field rest ih =>
    obtain ⟨key, value⟩ := field
    rw [List.map_cons, List.nodup_cons] at h
    rw [Dictionary.lookup_cons]
    by_cases he : name = key
    . subst he
      have hnone : rest.filter (·.1 == name) = [] := by
        rw [List.filter_eq_nil_iff]
        intro field hm hf
        exact h.1 (List.mem_map.mpr ⟨field, hm, beq_iff_eq.mp hf⟩)
      simp [hnone]
    . have hkey : (key == name) = false := beq_eq_false_iff_ne.mpr fun h => he h.symm
      rw [List.filter_cons, if_neg (by simp [hkey]), if_neg he, ih h.2]

theorem fieldAt?_map (hn : names.Nodup) (hf : (fields.map Prod.fst).Nodup) {i : Nat}
    (hi : i < names.length) :
    fieldAt? (fields.map fun field => (names.idxOf field.1, field.2)) i
      = some (fields.lookup names[i]) := by
  have hidx (name : String) : (names.idxOf name == i) = (name == names[i]) := by
    rw [Bool.eq_iff_iff, beq_iff_eq, beq_iff_eq]
    constructor
    . rintro rfl
      exact (List.getElem_idxOf hi).symm
    . rintro rfl
      exact hn.idxOf_getElem i hi
  unfold fieldAt?
  rw [List.filter_map]
  simp only [Function.comp_def, hidx, filter_eq_toList_lookup hf]
  cases fields.lookup names[i] <;> rfl

/--
The fields of a record are the values under their names.
-/
theorem fields?_record (hn : names.Nodup) (hf : (fields.map Prod.fst).Nodup) :
    fields? names (record fields) = some (names.map fun name => fields.lookup name) := by
  have hnumbered : (fields.map fun field => ((text field.1 : Document α), field.2)).mapM
      (fun entry => (fieldNumber? names entry.1).map fun number => (number, entry.2))
      = some (fields.map fun field => (names.idxOf field.1, field.2)) := by
    rw [List.mapM_map]
    exact List.mapM_pure
  refine Option.bind_eq_some_iff.mpr ⟨_, hnumbered, ?_⟩
  rw [mapM_eq_some_iff, List.forall₂_map_right_iff, List.forall₂_iff_get]
  refine ⟨List.length_range, fun i h₁ h₂ => ?_⟩
  rw [List.get_eq_getElem, List.get_eq_getElem, List.getElem_range]
  exact fieldAt?_map hn hf h₂

theorem outerFields?_record (names : List String) (fields : List (String × Document α)) :
    outerFields? names (record fields) = fields? names (record fields) := by
  have hnamed : (fields.map fun field => ((text field.1 : Document α), field.2)).mapM
      (fun entry => entry.1.written?.map fun written => ((text written : Document α), entry.2))
      = some (fields.map fun field => (text field.1, field.2)) := by
    rw [List.mapM_map]
    exact List.mapM_pure
  exact congrArg (fun named => named.bind fun named => fields? names (map named)) hnamed

/--
The depth of the value of a field, which may be absent.
-/
def fieldDepth (value : Option (Document α)) : Nat := (value.map depth).getD 0

theorem fieldDepth_lt_of_fields? {d : Document α} {values : List (Option (Document α))}
    (h : fields? names d = some values) :
    0 < d.depth ∧ ∀ value ∈ values, fieldDepth value < d.depth := by
  cases d with
  | scalar written datum => contradiction
  | tagged content => contradiction
  | list items =>
    obtain ⟨hpos, hitems⟩ := depth_list_le_iff.mp (Nat.le_refl (list items).depth)
    refine ⟨hpos, fun value hm => ?_⟩
    rw [fields?] at h
    split at h
    . cases h
      rcases List.mem_append.mp hm with hm | hm
      . obtain ⟨d, hd, rfl⟩ := List.mem_map.mp hm
        exact hitems d hd
      . rw [List.eq_of_mem_replicate hm]
        exact hpos
    . contradiction
  | map entries =>
    obtain ⟨hpos, hentries⟩ := depth_map_le_iff.mp (Nat.le_refl (map entries).depth)
    refine ⟨hpos, fun value hm => ?_⟩
    obtain ⟨numbered, hnumbered, h⟩ := Option.bind_eq_some_iff.mp h
    obtain ⟨i, _, hi⟩ := exists_mem_of_mapM h hm
    unfold fieldAt? at hi
    split at hi
    . cases hi
      exact hpos
    . next n d hfilter =>
      cases hi
      have hmem : (n, d) ∈ numbered := by
        apply List.mem_of_mem_filter
        rw [hfilter]
        exact List.mem_singleton_self _
      obtain ⟨⟨key, other⟩, hentry, he⟩ := exists_mem_of_mapM hnumbered hmem
      obtain ⟨number, _, he⟩ := Option.map_eq_some_iff.mp he
      cases he
      exact (hentries _ hentry).2
    . contradiction

theorem exists_fields_of_bind {β : Type} {d : Document α} {x : β}
    {f : List (Option (Document α)) → Option β} (h : (fields? names d).bind f = some x) :
    ∃ values, f values = some x ∧ 0 < d.depth ∧ ∀ value ∈ values, fieldDepth value < d.depth := by
  obtain ⟨values, hvalues, h⟩ := Option.bind_eq_some_iff.mp h
  exact ⟨values, h, fieldDepth_lt_of_fields? hvalues⟩

end Fields

section Tag

variable {tag kind : String} {kinds : List String} {fields : List (String × Document α)}

theorem text?_beq_of_not_mem (h : tag ∉ fields.map Prod.fst) {field : String × Document α}
    (hm : field ∈ fields) : ((text field.1 : Document α).text? == some tag) = false := by
  rw [beq_eq_false_iff_ne]
  intro he
  exact h (List.mem_map.mpr ⟨field, hm, Option.some.inj he⟩)

theorem splitTag?_record (h : tag ∉ fields.map Prod.fst) (d : Document α) :
    (record ((tag, d) :: fields)).splitTag? tag = some (d, record fields) := by
  have htag : ((text tag : Document α).text? == some tag) = true := beq_self_eq_true _
  have hfilter : (fields.map fun field => ((text field.1 : Document α), field.2)).filter
      (fun entry => entry.1.text? == some tag) = [] := by
    rw [List.filter_eq_nil_iff, List.forall_mem_map]
    intro field hm
    rw [text?_beq_of_not_mem h hm]
    exact Bool.false_ne_true
  have hrest : (fields.map fun field => ((text field.1 : Document α), field.2)).filter
      (fun entry => entry.1.text? != some tag)
        = fields.map fun field => (text field.1, field.2) := by
    rw [List.filter_eq_self, List.forall_mem_map]
    intro field hm
    rw [bne, text?_beq_of_not_mem h hm, Bool.not_false]
  rw [record, List.map_cons, splitTag?, List.filter_cons, List.filter_cons]
  simp only [bne, htag, hfilter, Bool.not_true, if_true, Bool.false_eq_true, if_false]
  exact congrArg (fun entries => some (d, map entries)) hrest

theorem variant?_record (h : tag ∉ fields.map Prod.fst) (hk : kind ∈ kinds) :
    (record ((tag, text kind) :: fields)).variant? tag kinds = some (kind, record fields) := by
  have hkind : kind? kinds (text kind : Document α) = some kind :=
    if_pos (List.contains_iff_mem.mpr hk)
  refine Option.bind_eq_some_iff.mpr ⟨_, splitTag?_record h _, ?_⟩
  exact Option.bind_eq_some_iff.mpr ⟨_, hkind, rfl⟩

theorem depth_tagged_le {n : Nat} (h : (record fields).depth ≤ n) :
    (record ((tag, text kind) :: fields)).depth ≤ n := by
  obtain ⟨hpos, hfields⟩ := depth_record_le_iff.mp h
  exact depth_record_le_iff.mpr ⟨hpos, List.forall_mem_cons.mpr ⟨hpos, hfields⟩⟩

theorem isTyped_tagged (h : (record fields).isTyped) :
    (record ((tag, text kind) :: fields)).isTyped :=
  isTyped_record_iff.mpr (List.forall_mem_cons.mpr ⟨rfl, isTyped_record_iff.mp h⟩)

theorem depth_le_of_splitTag? {d content t : Document α}
    (h : d.splitTag? tag = some (t, content)) : content.depth ≤ d.depth := by
  unfold splitTag? at h
  split at h
  . next entries =>
    split at h
    . cases h
      obtain ⟨hpos, hentries⟩ := depth_map_le_iff.mp (Nat.le_refl (map entries).depth)
      exact depth_map_le_iff.mpr ⟨hpos, fun entry hm => hentries entry (List.mem_of_mem_filter hm)⟩
    . contradiction
  . next t rest =>
    cases h
    obtain ⟨hpos, hitems⟩ := depth_list_le_iff.mp (Nat.le_refl (list (t :: rest)).depth)
    exact depth_list_le_iff.mpr ⟨hpos, fun d hm => hitems d (List.mem_cons_of_mem _ hm)⟩
  . contradiction

theorem depth_pos_of_variant? {d content : Document α}
    (h : d.variant? tag kinds = some (kind, content)) : 0 < d.depth := by
  cases d with
  | list items => exact Nat.succ_pos _
  | map entries => exact Nat.succ_pos _
  | _ => contradiction

theorem depth_le_of_variant? {d content : Document α}
    (h : d.variant? tag kinds = some (kind, content)) : content.depth ≤ d.depth := by
  obtain ⟨⟨t, rest⟩, hsplit, h⟩ := Option.bind_eq_some_iff.mp h
  obtain ⟨_, _, h⟩ := Option.bind_eq_some_iff.mp h
  cases h
  exact depth_le_of_splitTag? hsplit

/--
A tag that is read as it is written.
-/
def verbatim (d : Document α) : Document α :=
  match d.written? with
  | some written => text written
  | none => d

/--
A tagged value whose tag is read as it is written.
-/
def settled (tag : String) : Document α → Document α
  | .map entries =>
    .map (entries.map fun (key, value) =>
      if key.text? == some tag then (key, verbatim value) else (key, value))
  | .list (t :: rest) => .list (verbatim t :: rest)
  | d => d

theorem settle?_eq_some_iff {outer : Nat} {d e : Document α} :
    d.settle? tag outer = some e
      ↔ e = settled tag d ∧ e.isTyped ∧ outer + e.depth ≤ depthLimit := by
  have heq : d.settle? tag outer
      = if (settled tag d).isTyped && outer + (settled tag d).depth ≤ depthLimit then
          some (settled tag d)
        else none := by
    cases d with
    | list items => cases items <;> rfl
    | _ => rfl
  rw [heq, Option.ite_none_right_eq_some, Bool.and_eq_true, decide_eq_true_eq]
  constructor
  . rintro ⟨h, he⟩
    cases he
    exact ⟨rfl, h⟩
  . rintro ⟨rfl, h⟩
    exact ⟨h, rfl⟩

theorem settled_record (h : tag ∉ fields.map Prod.fst) :
    settled tag (record ((tag, text kind) :: fields)) = record ((tag, text kind) :: fields) := by
  have htag : ((text tag : Document α).text? == some tag) = true := beq_self_eq_true _
  rw [record, settled, List.map_map]
  congr 1
  apply List.map_congr_left
  intro field hm
  rcases List.mem_cons.mp hm with rfl | hm
  . exact if_pos htag
  . exact if_neg (by rw [text?_beq_of_not_mem h hm]; exact Bool.false_ne_true)

end Tag

end Waveplan.Document
