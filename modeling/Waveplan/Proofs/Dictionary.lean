import Mathlib.Data.String.Basic
import Waveplan.Dictionary

/-!
This module contains that dictionaries hold one value under each name, and which one is looked up.
-/

namespace Waveplan.Dictionary

variable {β : Type}

theorem mem_of_lookup {name : String} {value : β} {entries : List (String × β)}
    (h : entries.lookup name = some value) : (name, value) ∈ entries := by
  induction entries with
  | nil => contradiction
  | cons entry rest ih =>
    obtain ⟨key, other⟩ := entry
    rw [lookup_cons] at h
    split at h
    . next he =>
      cases h
      rw [he]
      exact List.mem_cons_self
    . exact List.mem_cons_of_mem _ (ih h)

theorem lookup_eq_some_iff {name : String} {value : β} {entries : List (String × β)}
    (hn : (entries.map Prod.fst).Nodup) :
    entries.lookup name = some value ↔ (name, value) ∈ entries := by
  refine ⟨mem_of_lookup, fun h => ?_⟩
  induction entries with
  | nil => contradiction
  | cons entry rest ih =>
    obtain ⟨key, other⟩ := entry
    rw [List.map_cons, List.nodup_cons] at hn
    rw [lookup_cons]
    rcases List.mem_cons.mp h with he | hmem
    . cases he
      rw [if_pos rfl]
    . have hne : name ≠ key := by
        rintro rfl
        exact hn.1 (List.mem_map.mpr ⟨_, hmem, rfl⟩)
      rw [if_neg hne]
      exact ih hn.2 hmem

theorem get?_eq_some_iff {d : Dictionary β} (hn : d.names.Nodup) {name : String} {value : β} :
    d.get? name = some value ↔ (name, value) ∈ d.entries :=
  lookup_eq_some_iff hn

theorem exists_lookup_of_mem {name : String} {value : β} {entries : List (String × β)}
    (h : (name, value) ∈ entries) : ∃ other, entries.lookup name = some other := by
  cases hl : entries.lookup name with
  | some other => exact ⟨other, rfl⟩
  | none =>
    have := List.lookup_eq_none_iff.mp hl _ h
    simp at this

theorem pairwise_insertInto {name : String} {value : β} {entries : List (String × β)}
    (h : (entries.map Prod.fst).Pairwise (· < ·)) :
    ((insertInto name value entries).map Prod.fst).Pairwise (· < ·)
      ∧ ∀ key ∈ (insertInto name value entries).map Prod.fst,
        key = name ∨ key ∈ entries.map Prod.fst := by
  induction entries with
  | nil => simp [insertInto]
  | cons entry rest ih =>
    obtain ⟨key, other⟩ := entry
    rw [List.map_cons, List.pairwise_cons] at h
    obtain ⟨hkey, hrest⟩ := h
    unfold insertInto
    split
    . next hlt =>
      refine ⟨List.pairwise_cons.mpr ⟨?_, List.pairwise_cons.mpr ⟨hkey, hrest⟩⟩, by simp⟩
      intro k hk
      rcases List.mem_cons.mp hk with rfl | hk
      . exact hlt
      . exact lt_trans hlt (hkey k hk)
    . next hge =>
      split
      . next he =>
        subst he
        exact ⟨List.pairwise_cons.mpr ⟨hkey, hrest⟩, by simp⟩
      . next hne =>
        obtain ⟨hp, hm⟩ := ih hrest
        have hlt : key < name := lt_of_le_of_ne (not_lt.mp hge) fun h => hne h.symm
        refine ⟨List.pairwise_cons.mpr ⟨?_, hp⟩, ?_⟩
        . intro k hk
          rcases hm k hk with rfl | hk
          . exact hlt
          . exact hkey k hk
        . intro k hk
          rcases List.mem_cons.mp hk with rfl | hk
          . exact .inr List.mem_cons_self
          . exact (hm k hk).imp_right (List.mem_cons_of_mem _)

theorem insertInto_of_lookup {name : String} {value : β} {entries : List (String × β)}
    (hp : (entries.map Prod.fst).Pairwise (· < ·)) (h : entries.lookup name = some value) :
    insertInto name value entries = entries := by
  induction entries with
  | nil => contradiction
  | cons entry rest ih =>
    obtain ⟨key, other⟩ := entry
    rw [List.map_cons, List.pairwise_cons] at hp
    rw [lookup_cons] at h
    unfold insertInto
    by_cases he : name = key
    . rw [if_pos he] at h
      cases h
      rw [if_neg (he ▸ lt_irrefl name), if_pos he, he]
    . rw [if_neg he] at h
      have hlt : key < name := hp.1 name (List.mem_map_of_mem (mem_of_lookup h))
      rw [if_neg (not_lt.mpr hlt.le), if_neg he, ih hp.2 h]

/--
Putting a value where it stands already changes nothing.
-/
theorem insert_of_get? {d : Dictionary β} (hp : d.names.Pairwise (· < ·)) {name : String}
    {value : β} (h : d.get? name = some value) : d.insert name value = d := by
  unfold insert
  rw [insertInto_of_lookup hp h]

theorem pairwise_names_ofList (entries : List (String × β)) :
    (ofList entries).names.Pairwise (· < ·) := by
  have h (d : Dictionary β) (hd : d.names.Pairwise (· < ·)) :
      (entries.foldl (fun d entry => d.insert entry.1 entry.2) d).names.Pairwise (· < ·) := by
    induction entries generalizing d with
    | nil => exact hd
    | cons entry rest ih => exact ih _ (pairwise_insertInto hd).1
  exact h empty .nil

/--
A dictionary that has been read holds one value under each name.
-/
theorem nodup_names_ofList (entries : List (String × β)) : (ofList entries).names.Nodup :=
  (pairwise_names_ofList entries).imp ne_of_lt

theorem insertInto_of_forall_lt {name : String} {value : β} {entries : List (String × β)}
    (h : ∀ entry ∈ entries, entry.1 < name) :
    insertInto name value entries = entries ++ [(name, value)] := by
  induction entries with
  | nil => rfl
  | cons entry rest ih =>
    obtain ⟨key, other⟩ := entry
    obtain ⟨hlt, hrest⟩ := List.forall_mem_cons.mp h
    rw [insertInto, if_neg (not_lt.mpr hlt.le), if_neg hlt.ne', ih hrest, List.cons_append]

theorem foldl_insert_of_pairwise {front entries : List (String × β)}
    (hp : ((front ++ entries).map Prod.fst).Pairwise (· < ·)) :
    entries.foldl (fun (d : Dictionary β) entry => d.insert entry.1 entry.2) ⟨front⟩
      = ⟨front ++ entries⟩ := by
  induction entries generalizing front with
  | nil => rw [List.append_nil, List.foldl_nil]
  | cons entry rest ih =>
    have hlt : ∀ other ∈ front, other.1 < entry.1 := by
      rw [List.map_append, List.pairwise_append] at hp
      exact fun other hm => hp.2.2 _ (List.mem_map_of_mem hm) _ List.mem_cons_self
    rw [List.append_cons] at hp
    rw [List.foldl_cons, insert, insertInto_of_forall_lt hlt, ih hp, ← List.append_cons]

/--
The dictionary of values that stand in order already.
-/
theorem ofList_eq_of_pairwise {entries : List (String × β)}
    (hp : (entries.map Prod.fst).Pairwise (· < ·)) : ofList entries = ⟨entries⟩ :=
  @foldl_insert_of_pairwise _ [] _ hp

/--
Of several values under a name the last one is kept.
-/
theorem get?_ofList (entries : List (String × β)) (name : String) :
    (ofList entries).get? name = entries.reverse.lookup name := by
  have h (d : Dictionary β) :
      (entries.foldl (fun d entry => d.insert entry.1 entry.2) d).get? name
        = (entries.reverse ++ d.entries).lookup name := by
    induction entries generalizing d with
    | nil => rfl
    | cons entry rest ih =>
      rw [List.foldl_cons, ih, List.reverse_cons, List.append_assoc, List.lookup_append,
        List.lookup_append, List.singleton_append, lookup_cons]
      exact congrArg _ (get?_insert d _ _ _)
  rw [← List.append_nil entries.reverse]
  exact h empty

theorem mem_entries_ofList_iff {entries : List (String × β)} {name : String} {value : β} :
    (name, value) ∈ (ofList entries).entries ↔ entries.reverse.lookup name = some value := by
  rw [← get?_ofList, get?_eq_some_iff (nodup_names_ofList entries)]

theorem mem_names_ofList_iff {entries : List (String × β)} {name : String} :
    name ∈ (ofList entries).names ↔ ∃ value, (name, value) ∈ entries := by
  constructor
  . intro h
    obtain ⟨⟨_, value⟩, hm, rfl⟩ := List.mem_map.mp h
    have hm := mem_of_lookup (mem_entries_ofList_iff.mp hm)
    exact ⟨value, List.mem_reverse.mp hm⟩
  . rintro ⟨value, hm⟩
    obtain ⟨other, h⟩ := exists_lookup_of_mem (List.mem_reverse.mpr hm)
    exact List.mem_map_of_mem (mem_entries_ofList_iff.mpr h)

end Waveplan.Dictionary
