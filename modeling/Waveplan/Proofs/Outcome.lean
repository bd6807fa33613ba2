import Mathlib.Data.List.Forall2

/-!
This module contains when computations that may fail succeed.
-/

namespace Waveplan.Outcome

variable {ε ε' α β : Type}

theorem bind_eq_ok_iff {x : Except ε α} {f : α → Except ε β} {b : β} :
    x >>= f = .ok b ↔ ∃ a, x = .ok a ∧ f a = .ok b := by
  cases x <;> simp [bind, Except.bind]

theorem map_eq_ok_iff {x : Except ε α} {f : α → β} {b : β} :
    f <$> x = .ok b ↔ ∃ a, x = .ok a ∧ f a = b := by
  cases x <;> simp [Functor.map, Except.map]

theorem mapError_eq_ok_iff {x : Except ε α} {f : ε → ε'} {a : α} :
    x.mapError f = .ok a ↔ x = .ok a := by
  cases x <;> simp [Except.mapError]

theorem eq_ok_of_isOk {x : Except ε α} (h : x.isOk = true) (default : α) :
    x = .ok (x.toOption.getD default) := by
  cases x with
  | error e => contradiction
  | ok a => rfl

theorem exists_eq_ok_of_isOk {x : Except ε α} (h : x.isOk = true) : ∃ a, x = .ok a := by
  cases x with
  | error e => contradiction
  | ok a => exact ⟨a, rfl⟩

theorem exists_eq_error_iff {x : Except ε α} : (∃ e, x = .error e) ↔ ¬∃ a, x = .ok a := by
  cases x <;> simp

theorem eq_ok_of_toOption {x : Except ε α} {a : α} (h : x.toOption = some a) : x = .ok a := by
  cases x with
  | error e => contradiction
  | ok b =>
    cases h
    rfl

theorem mapM_eq_ok_iff {f : α → Except ε β} {xs : List α} {ys : List β} :
    xs.mapM f = .ok ys ↔ List.Forall₂ (fun x y => f x = .ok y) xs ys := by
  induction xs generalizing ys with
  | nil => cases ys <;> simp [pure, Except.pure]
  | cons x xs ih =>
    rw [List.mapM_cons, bind_eq_ok_iff]
    constructor
    . rintro ⟨y, hy, h⟩
      obtain ⟨ys', hys, h⟩ := bind_eq_ok_iff.mp h
      cases h
      exact .cons hy (ih.mp hys)
    . intro h
      cases h with
      | cons hy hys => exact ⟨_, hy, bind_eq_ok_iff.mpr ⟨_, ih.mpr hys, rfl⟩⟩

/--
The first failure in a list is the one that is reported.
-/
theorem mapM_eq_error_iff {f : α → Except ε β} {xs : List α} {e : ε} :
    xs.mapM f = .error e ↔ ∃ before x after, xs = before ++ x :: after
      ∧ (∀ y ∈ before, ∃ z, f y = .ok z) ∧ f x = .error e := by
  induction xs with
  | nil => simp [pure, Except.pure]
  | cons x xs ih =>
    rw [List.mapM_cons]
    cases hx : f x with
    | error e' =>
      simp only [bind, Except.bind, Except.error.injEq]
      constructor
      . rintro rfl
        exact ⟨[], x, xs, rfl, nofun, hx⟩
      . rintro ⟨before, y, after, h, hbefore, hy⟩
        cases before with
        | nil =>
          cases h
          rw [hx] at hy
          exact Except.error.inj hy
        | cons z before =>
          obtain ⟨w, hw⟩ := hbefore z List.mem_cons_self
          cases h
          rw [hx] at hw
          contradiction
    | ok z =>
      have hrest : ((Except.ok z : Except ε β) >>= fun z => xs.mapM f >>= fun zs => pure (z :: zs))
          = .error e ↔ xs.mapM f = .error e := by
        cases xs.mapM f <;> simp [bind, Except.bind, pure, Except.pure]
      rw [hrest, ih]
      constructor
      . rintro ⟨before, y, after, rfl, hbefore, hy⟩
        exact ⟨x :: before, y, after, rfl, List.forall_mem_cons.mpr ⟨⟨z, hx⟩, hbefore⟩, hy⟩
      . rintro ⟨before, y, after, h, hbefore, hy⟩
        cases before with
        | nil =>
          cases h
          rw [hx] at hy
          contradiction
        | cons w before =>
          cases h
          exact ⟨before, y, after, rfl, (List.forall_mem_cons.mp hbefore).2, hy⟩

theorem mapM_congr {f g : α → Except ε β} {xs : List α}
    (h : ∀ x ∈ xs, f x = g x) : xs.mapM f = xs.mapM g := by
  induction xs with
  | nil => rfl
  | cons x xs ih =>
    obtain ⟨hx, h⟩ := List.forall_mem_cons.mp h
    rw [List.mapM_cons, List.mapM_cons, hx, ih h]

theorem exists_mem_of_mapM_eq_ok {f : α → Except ε β} {xs : List α} {ys : List β}
    (h : xs.mapM f = .ok ys) {x : α} (hx : x ∈ xs) : ∃ y ∈ ys, f x = .ok y := by
  induction mapM_eq_ok_iff.mp h with
  | nil => contradiction
  | cons hy hys ih =>
    rcases List.mem_cons.mp hx with rfl | hx
    . exact ⟨_, List.mem_cons_self, hy⟩
    . obtain ⟨y, hmem, hy⟩ := ih (mapM_eq_ok_iff.mpr hys) hx
      exact ⟨y, List.mem_cons_of_mem _ hmem, hy⟩

theorem forall₂_imp_of_mem {R S : α → β → Prop} {xs : List α} {ys : List β}
    (h : List.Forall₂ R xs ys) (hS : ∀ x ∈ xs, ∀ y, R x y → S x y) : List.Forall₂ S xs ys := by
  have := (List.forall₂_and_left xs ys).mpr ⟨hS, h⟩
  exact this.imp fun x y hxy => hxy.1 y hxy.2

theorem forall_mem_of_forall₂ {P : β → Prop} {xs : List α} {ys : List β}
    (h : List.Forall₂ (fun _ y => P y) xs ys) : ∀ y ∈ ys, P y := by
  induction h with
  | nil => simp
  | cons hy _ ih => exact List.forall_mem_cons.mpr ⟨hy, ih⟩

theorem exists_of_forall₂_append_cons {R : α → β → Prop} {xs₁ xs₂ : List α} {x : α} {ys : List β}
    (h : List.Forall₂ R (xs₁ ++ x :: xs₂) ys) :
    ∃ ys₁ y ys₂, ys = ys₁ ++ y :: ys₂ ∧ List.Forall₂ R xs₁ ys₁ ∧ R x y := by
  induction xs₁ generalizing ys with
  | nil =>
    cases h with
    | cons hy _ => exact ⟨[], _, _, rfl, .nil, hy⟩
  | cons z xs₁ ih =>
    cases h with
    | cons hz h =>
      obtain ⟨ys₁, y, ys₂, rfl, hys, hy⟩ := ih h
      exact ⟨_ :: ys₁, y, ys₂, rfl, .cons hz hys, hy⟩

theorem exists_mapM_eq_ok {f : α → Except ε β} {R : α → β → Prop} {xs : List α}
    (h : ∀ x ∈ xs, ∃ y, f x = .ok y ∧ R x y) :
    ∃ ys, xs.mapM f = .ok ys ∧ List.Forall₂ R xs ys := by
  induction xs with
  | nil => exact ⟨[], rfl, .nil⟩
  | cons x xs ih =>
    obtain ⟨y, hy, hR⟩ := h x List.mem_cons_self
    obtain ⟨ys, hys, hRs⟩ := ih fun x hx => h x (List.mem_cons_of_mem _ hx)
    exact ⟨y :: ys, mapM_eq_ok_iff.mpr (.cons hy (mapM_eq_ok_iff.mp hys)), .cons hR hRs⟩

theorem exists_mapM_eq_ok_iff {f : α → Except ε β} {xs : List α} :
    (∃ ys, xs.mapM f = .ok ys) ↔ ∀ x ∈ xs, ∃ y, f x = .ok y := by
  constructor
  . rintro ⟨ys, hys⟩ x hx
    obtain ⟨y, _, hy⟩ := exists_mem_of_mapM_eq_ok hys hx
    exact ⟨y, hy⟩
  . intro h
    have h : ∀ x ∈ xs, ∃ y, f x = .ok y ∧ True := by simpa using h
    obtain ⟨ys, hys, _⟩ := exists_mapM_eq_ok h
    exact ⟨ys, hys⟩

section Failure

variable {P : ε → Prop}

/--
That a computation fails with an error of some kind.
-/
def FailsWith (P : ε → Prop) (x : Except ε α) : Prop := ∃ e, x = .error e ∧ P e

@[simp]
theorem failsWith_ok_iff {a : α} : FailsWith P (.ok a) ↔ False := by
  simp [FailsWith]

@[simp]
theorem failsWith_error_iff {e : ε} : FailsWith P (.error e : Except ε α) ↔ P e := by
  simp [FailsWith]

instance [DecidablePred P] (x : Except ε α) : Decidable (FailsWith P x) :=
  match x with
  | .ok _ => .isFalse failsWith_ok_iff.mp
  | .error _ => decidable_of_iff _ failsWith_error_iff.symm

theorem failsWith_bind_iff {x : Except ε α} {f : α → Except ε β} :
    FailsWith P (x >>= f) ↔ FailsWith P x ∨ ∃ a, x = .ok a ∧ FailsWith P (f a) := by
  cases x <;> simp [bind, Except.bind]

theorem not_failsWith_bind {x : Except ε α} {f : α → Except ε β} (hx : ¬FailsWith P x)
    (hf : ∀ a, ¬FailsWith P (f a)) : ¬FailsWith P (x >>= f) := by
  rw [failsWith_bind_iff]
  rintro (h | ⟨a, _, h⟩)
  . exact hx h
  . exact hf a h

theorem failsWith_mapError_iff {x : Except ε' α} {f : ε' → ε} :
    FailsWith P (x.mapError f) ↔ FailsWith (fun e => P (f e)) x := by
  cases x <;> simp [Except.mapError]

theorem not_failsWith_mapError {x : Except ε' α} {f : ε' → ε} (hf : ∀ e, ¬P (f e)) :
    ¬FailsWith P (x.mapError f) := by
  rw [failsWith_mapError_iff]
  rintro ⟨e, _, h⟩
  exact hf e h

theorem not_failsWith_mapM {f : α → Except ε β} {xs : List α}
    (h : ∀ x ∈ xs, ¬FailsWith P (f x)) : ¬FailsWith P (xs.mapM f) := by
  induction xs with
  | nil => simp [pure, Except.pure]
  | cons x xs ih =>
    obtain ⟨hx, h⟩ := List.forall_mem_cons.mp h
    rw [List.mapM_cons]
    apply not_failsWith_bind hx
    intro y
    apply not_failsWith_bind (ih h)
    simp [pure, Except.pure]

end Failure

/--
That two computations succeed with related results, or both fail.
-/
inductive Agree (R : α → β → Prop) : Except ε α → Except ε' β → Prop where
  | ok {a : α} {b : β} : R a b → Agree R (.ok a) (.ok b)
  | error {e : ε} {e' : ε'} : Agree R (.error e) (.error e')

namespace Agree

variable {γ δ : Type} {R : α → β → Prop} {S : γ → δ → Prop} {x : Except ε α} {y : Except ε' β}

theorem exists_ok_iff (h : Agree R x y) : (∃ a, x = .ok a) ↔ ∃ b, y = .ok b := by
  cases h with
  | ok h => simp
  | error => simp

theorem of_exists_ok_iff (h : (∃ a, x = .ok a) ↔ ∃ b, y = .ok b)
    (hR : ∀ a b, x = .ok a → y = .ok b → R a b) : Agree R x y := by
  cases x with
  | ok a =>
    obtain ⟨b, rfl⟩ := h.mp ⟨a, rfl⟩
    exact .ok (hR a b rfl rfl)
  | error e =>
    cases y with
    | ok b =>
      obtain ⟨a, ha⟩ := h.mpr ⟨b, rfl⟩
      contradiction
    | error e' => exact .error

theorem of_eq_ok (h : Agree R x y) {a : α} {b : β} (hx : x = .ok a) (hy : y = .ok b) : R a b := by
  cases h with
  | ok h =>
    cases hx
    cases hy
    exact h
  | error => contradiction

theorem bind {f : α → Except ε γ} {g : β → Except ε' δ} (h : Agree R x y)
    (hf : ∀ a b, R a b → Agree S (f a) (g b)) : Agree S (x >>= f) (y >>= g) := by
  cases h with
  | ok h => exact hf _ _ h
  | error => exact .error

theorem bind_same {x : Except ε α} {f : α → Except ε γ} {g : α → Except ε δ}
    (hf : ∀ a, x = .ok a → Agree S (f a) (g a)) : Agree S (x >>= f) (x >>= g) := by
  cases x with
  | error e => exact .error
  | ok a => exact hf a rfl

theorem ite {P Q : Prop} [Decidable P] [Decidable Q] {x' : Except ε α} {y' : Except ε' β}
    (hiff : P ↔ Q) (h : Agree R x y) (h' : Agree R x' y') :
    Agree R (if P then x else x') (if Q then y else y') := by
  by_cases hp : P
  . rwa [if_pos hp, if_pos (hiff.mp hp)]
  . rwa [if_neg hp, if_neg fun hq => hp (hiff.mpr hq)]

theorem mapError {ε₁ ε₂ : Type} (h : Agree R x y) (f : ε → ε₁) (g : ε' → ε₂) :
    Agree R (x.mapError f) (y.mapError g) := by
  cases h with
  | ok h => exact .ok h
  | error => exact .error

theorem mapM {f : γ → Except ε α} {g : γ → Except ε β} {xs : List γ}
    (h : ∀ x ∈ xs, Agree R (f x) (g x)) : Agree (List.Forall₂ R) (xs.mapM f) (xs.mapM g) := by
  induction xs with
  | nil => exact .ok .nil
  | cons x xs ih =>
    obtain ⟨hx, h⟩ := List.forall_mem_cons.mp h
    rw [List.mapM_cons, List.mapM_cons]
    refine hx.bind fun a b hab => (ih h).bind fun as bs hs => ?_
    exact .ok (.cons hab hs)

end Agree

end Waveplan.Outcome
