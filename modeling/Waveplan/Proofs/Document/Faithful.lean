import Waveplan.Proofs.Document.Record

/-!
This module contains readers and writers that fit together: what has been read is read again after
it has been written, however it was written at first. What is written is typed and not deeper than
what was read, so that it is accepted wherever the first document was.
-/

namespace Waveplan.Document

variable {α β : Type} {read : Document α → Option β} {write : β → Document α}

/--
That what has been read from any document is read again from the document that it is written to.
-/
def Rereads (read : Document α → Option β) (write : β → Document α) : Prop :=
  ∀ d x, read d = some x → read (write x) = some x

/--
That values are written such that they are read as what they have been read as before, wherever they
stand.
-/
structure Faithful (read : Document α → Option β) (write : β → Document α) : Prop where
  isTyped (x : β) : (write x).isTyped
  depth_le {d : Document α} {x : β} : read d = some x → (write x).depth ≤ d.depth
  reread {d : Document α} {x : β} : read d = some x → read (write x) = some x

/--
That the values of a field, which may be absent, are written such that they are read as what they
have been read as before.
-/
structure FaithfulField (read : Option (Document α) → Option β) (write : β → Document α) : Prop
    where
  isTyped (x : β) : (write x).isTyped
  depth_le {d : Option (Document α)} {x : β} : read d = some x → (write x).depth ≤ fieldDepth d
  reread {d : Option (Document α)} {x : β} : read d = some x → read (some (write x)) = some x

theorem optional?_eq_some_iff {d : Option (Document α)} {x : β} :
    optional? read d = some (some x) ↔ ∃ e, d = some e ∧ e.isNull = false ∧ read e = some x := by
  cases d with
  | none => simp [optional?]
  | some e =>
    cases h : e.isNull <;> simp [optional?, h]

namespace Faithful

theorem intro (ht : ∀ x, (write x).isTyped)
    (h : ∀ d x, read d = some x → (write x).depth ≤ d.depth ∧ read (write x) = some x) :
    Faithful read write :=
  ⟨ht, fun {d x} hd => (h d x hd).1, fun {d x} hd => (h d x hd).2⟩

theorem field (h : Faithful read write) : FaithfulField (·.bind read) write where
  isTyped := h.isTyped
  depth_le hd := by
    obtain ⟨d, rfl, hd⟩ := Option.bind_eq_some_iff.mp hd
    exact h.depth_le hd
  reread hd := by
    obtain ⟨d, rfl, hd⟩ := Option.bind_eq_some_iff.mp hd
    exact h.reread hd

theorem optional (h : Faithful read write) (hn : ∀ x, (write x).isNull = false) :
    FaithfulField (optional? read) (ofOption write) where
  isTyped x := by
    cases x with
    | none => rfl
    | some x => exact h.isTyped x
  depth_le {d x} hd := by
    cases x with
    | none => exact Nat.zero_le _
    | some x =>
      obtain ⟨e, rfl, _, he⟩ := optional?_eq_some_iff.mp hd
      exact h.depth_le he
  reread {d x} hd := by
    cases x with
    | none => rfl
    | some x =>
      obtain ⟨e, _, _, he⟩ := optional?_eq_some_iff.mp hd
      exact optional?_eq_some_iff.mpr ⟨write x, rfl, hn x, h.reread he⟩

theorem list (h : Faithful read write) :
    Faithful (fun d => d.list?.bind fun items => items.mapM read)
      (fun xs => .list (xs.map write)) where
  isTyped xs := isTyped_list_iff.mpr (List.forall_mem_map.mpr fun x _ => h.isTyped x)
  depth_le {d xs} hd := by
    obtain ⟨items, hitems, hd⟩ := Option.bind_eq_some_iff.mp hd
    cases d with
    | list items =>
      cases hitems
      obtain ⟨hpos, hitems⟩ := depth_list_le_iff.mp (Nat.le_refl (Document.list items).depth)
      refine depth_list_le_iff.mpr ⟨hpos, List.forall_mem_map.mpr fun x hx => ?_⟩
      obtain ⟨item, hm, hx⟩ := exists_mem_of_mapM hd hx
      exact Nat.lt_of_le_of_lt (h.depth_le hx) (hitems item hm)
    | _ => contradiction
  reread {d xs} hd := by
    obtain ⟨items, _, hd⟩ := Option.bind_eq_some_iff.mp hd
    refine mapM_map_eq_some fun x hx => ?_
    obtain ⟨item, _, hx⟩ := exists_mem_of_mapM hd hx
    exact h.reread hx

/--
The tag in front of the fields of a record is found again, and the record behind it.
-/
theorem tagged {writeFields : β → List (String × Document α)}
    (h : Faithful read fun x => record (writeFields x)) {tag kind : String} {kinds : List String}
    {d content : Document α} {x : β} (hd : d.variant? tag kinds = some (kind, content))
    (hx : read content = some x) (ht : tag ∉ (writeFields x).map Prod.fst) (hk : kind ∈ kinds) :
    (record ((tag, text kind) :: writeFields x)).depth ≤ d.depth
      ∧ (record ((tag, text kind) :: writeFields x)).variant? tag kinds
        = some (kind, record (writeFields x))
      ∧ read (record (writeFields x)) = some x :=
  ⟨depth_tagged_le (Nat.le_trans (h.depth_le hx) (depth_le_of_variant? hd)),
    variant?_record ht hk, h.reread hx⟩

/--
Tagged values are read again under as many lists and maps.
-/
theorem rereads_settled (h : Faithful read write) {tag : String}
    (ht : ∀ x, ∃ kind fields, tag ∉ List.map Prod.fst fields
      ∧ write x = record ((tag, text kind) :: fields)) (outer : Nat) :
    Rereads (fun d => (d.settle? tag outer).bind read) write := by
  intro d x hd
  obtain ⟨e, he, hx⟩ := Option.bind_eq_some_iff.mp hd
  obtain ⟨kind, fields, hnot, hwrite⟩ := ht x
  have hdepth := (settle?_eq_some_iff.mp he).2.2
  have hle := h.depth_le hx
  have hsettled : (write x).settle? tag outer = some (write x) := by
    refine settle?_eq_some_iff.mpr ⟨?_, h.isTyped x, by omega⟩
    rw [hwrite, settled_record hnot]
  exact Option.bind_eq_some_iff.mpr ⟨_, hsettled, h.reread hx⟩

end Faithful

end Waveplan.Document
