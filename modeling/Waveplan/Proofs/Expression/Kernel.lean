import Waveplan.Expression.Kernel

/-!
This module contains what may be known of a kernel: which questions it asks in an evaluation, and
that it says so when it goes without an answer.
-/

namespace Waveplan.Kernel

namespace Evaluation

variable {α β γ : Type} {e : Evaluation α β} {answer : String → List α → Option α}
  {q : Question α} {next : Option α → Evaluation α β}

/--
The questions that are asked if they are answered by a function, each with how the evaluation goes on
after its answer.
-/
def questions (answer : String → List α → Option α) :
    Evaluation α β → List (Question α × (Option α → Evaluation α β))
  | value _ => []
  | error _ => []
  | ask q next => (q, next) :: (next (answer q.name q.arguments)).questions answer

/--
What is left of an evaluation after the answer to any question has the result of the whole.
-/
theorem run_of_mem_questions (h : (q, next) ∈ e.questions answer) :
    e.run answer = (next (answer q.name q.arguments)).run answer := by
  induction e with
  | value | error => contradiction
  | ask p rest ih =>
    rw [questions, List.mem_cons] at h
    rcases h with h | h
    . cases h
      rfl
    . exact ih _ h

/--
That an evaluation ends for lack of an answer as soon as a question is not answered, and that it then
says what the question was about.
-/
def NamesUndefined : Evaluation α β → Prop
  | value _ => True
  | error reason => ∀ name, reason ≠ .undefined name
  | ask q next => next none = .error (.undefined q.name) ∧ ∀ x, (next (some x)).NamesUndefined

theorem NamesUndefined.bind (h : e.NamesUndefined) {f : β → Evaluation α γ}
    (hf : ∀ x, (f x).NamesUndefined) : (e >>= f).NamesUndefined := by
  induction e with
  | value x => exact hf x
  | error reason => exact h
  | ask q next ih =>
    obtain ⟨hnone, hsome⟩ := h
    exact ⟨congrArg (·.bind f) hnone, fun x => ih _ (hsome x)⟩

theorem NamesUndefined.map (h : e.NamesUndefined) (f : β → γ) : (f <$> e).NamesUndefined :=
  h.bind fun _ => trivial

theorem NamesUndefined.next_none (h : e.NamesUndefined) (hq : (q, next) ∈ e.questions answer) :
    next none = .error (.undefined q.name) := by
  induction e with
  | value | error => contradiction
  | ask p rest ih =>
    obtain ⟨hnone, hsome⟩ := h
    rw [questions, List.mem_cons] at hq
    rcases hq with hq | hq
    . cases hq
      exact hnone
    . cases ha : answer p.name p.arguments with
      | none =>
        rw [ha, hnone] at hq
        contradiction
      | some x =>
        rw [ha] at hq
        exact ih _ (hsome x) hq

theorem NamesUndefined.answer_eq_none (h : e.NamesUndefined) {name : String}
    (hrun : e.run answer = .error (.undefined name)) : ∃ arguments, answer name arguments = none := by
  induction e with
  | value => contradiction
  | error reason => exact absurd (Except.error.inj hrun) (h name)
  | ask q next ih =>
    obtain ⟨hnone, hsome⟩ := h
    rw [run] at hrun
    cases ha : answer q.name q.arguments with
    | none =>
      rw [ha, hnone] at hrun
      cases hrun
      exact ⟨_, ha⟩
    | some x =>
      rw [ha] at hrun
      exact ih _ (hsome x) hrun

end Evaluation

variable (α : Type) [Kernel α]

/--
That all formulas say when they go without an answer.
-/
def NamesUndefined : Prop :=
  ∀ text (formula : Evaluation α α), Kernel.parse text = .ok formula → formula.NamesUndefined

/--
That an identifier is a formula by itself, which asks for the variable and has its value.
-/
def ReadsVariable (identifier : String) : Prop :=
  ∃ next : Option α → Evaluation α α,
    Kernel.parse identifier = .ok (.ask (.variable identifier) next)
      ∧ ∀ x, next (some x) = .value x

end Waveplan.Kernel
