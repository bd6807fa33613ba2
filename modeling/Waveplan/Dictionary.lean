/-!
This module contains dictionaries: values by name, in the order of the names. Looking up a name and
putting a value under it are tied together by `get?_insert`.
-/

namespace Waveplan

structure Dictionary (β : Type) where
  entries : List (String × β)
  deriving BEq, Repr

namespace Dictionary

variable {β : Type}

def empty : Dictionary β := ⟨[]⟩

def get? (d : Dictionary β) (name : String) : Option β := d.entries.lookup name

def contains (d : Dictionary β) (name : String) : Bool := (d.get? name).isSome

def size (d : Dictionary β) : Nat := d.entries.length

def names (d : Dictionary β) : List String := d.entries.map Prod.fst

/--
Put a value under a name into an ascending list, in place of the value that stands there.
-/
def insertInto (name : String) (value : β) : List (String × β) → List (String × β)
  | [] => [(name, value)]
  | (key, other) :: rest =>
    if name < key then (name, value) :: (key, other) :: rest
    else if name = key then (name, value) :: rest
    else (key, other) :: insertInto name value rest

def insert (d : Dictionary β) (name : String) (value : β) : Dictionary β :=
  ⟨insertInto name value d.entries⟩

/--
The dictionary of some values, the last one under a name being kept.
-/
def ofList (entries : List (String × β)) : Dictionary β :=
  entries.foldl (fun d (name, value) => d.insert name value) empty

theorem lookup_cons (key name : String) (value : β) (rest : List (String × β)) :
    ((name, value) :: rest).lookup key = if key = name then some value else rest.lookup key := by
  rw [List.lookup_cons]
  by_cases h : key = name
  . rw [if_pos h, beq_iff_eq.mpr h]
  . rw [if_neg h, beq_eq_false_iff_ne.mpr h]

theorem lookup_insertInto (name key : String) (value : β) (entries : List (String × β)) :
    (insertInto name value entries).lookup key
      = if key = name then some value else entries.lookup key := by
  induction entries with
  | nil => simp [insertInto, lookup_cons]
  | cons entry rest ih =>
    obtain ⟨other, x⟩ := entry
    unfold insertInto
    split
    . rw [lookup_cons]
    . split
      . rename_i same
        subst same
        simp only [lookup_cons]
        split <;> rfl
      . rename_i different
        simp only [lookup_cons, ih]
        split
        . rename_i h
          subst h
          rw [if_neg fun e => different e.symm]
        . rfl

/--
The value put under a name is found there, and values under other names stay.
-/
theorem get?_insert (d : Dictionary β) (name key : String) (value : β) :
    (d.insert name value).get? key = if key = name then some value else d.get? key :=
  lookup_insertInto name key value d.entries

end Dictionary

end Waveplan
