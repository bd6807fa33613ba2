import Waveplan.Formula.Kernel
import Waveplan.Proofs.Expression.Kernel
import Waveplan.Proofs.Outcome

/-!
This module contains what is known of the kernel of formulas: it says when it goes without an answer,
and it asks for the variable that a formula consists of.
-/

namespace Waveplan.Formula

open Kernel (Evaluation Question)
open Kernel.Evaluation (NamesUndefined)

variable {α : Type}

theorem namesUndefined_request (q : Question α) : (request q).NamesUndefined :=
  ⟨rfl, fun _ => trivial⟩

/--
The variable that a formula consists of.
-/
def Chain.bareName? : Chain α → Option String
  | .last (.variable name) => some name
  | _ => none

theorem Chain.eq_of_bareName? {c : Chain α} {name : String} (h : c.bareName? = some name) :
    c = .last (.variable name) := by
  unfold bareName? at h
  split at h
  . cases h
    rfl
  . contradiction

variable [Analysis α]

mutual

theorem Term.namesUndefined (t : Term α) : t.value.NamesUndefined := by
  cases t with
  | number => exact trivial
  | «variable» name => exact namesUndefined_request _
  | minus t => exact t.namesUndefined.map _
  | not t => exact t.namesUndefined.map _
  | group c => exact c.namesUndefined.map _
  | elementary f c => exact c.namesUndefined.map _
  | log base c => exact base.namesUndefined.bind fun _ => c.namesUndefined.map _
  | round modulus c => exact modulus.namesUndefined.bind fun _ => c.namesUndefined.map _
  | extremum which first rest => exact first.namesUndefined.bind fun _ => rest.namesUndefined.map _
  | call name arguments =>
    exact arguments.namesUndefined.bind fun _ => namesUndefined_request _
  | print items => exact items.namesUndefined _ _

theorem Chain.namesUndefined (c : Chain α) : c.values.NamesUndefined := by
  cases c with
  | last t => exact t.namesUndefined.map _
  | more t op rest => exact t.namesUndefined.bind fun _ => rest.namesUndefined.map _

theorem Arguments.namesUndefined (arguments : Arguments α) : arguments.values.NamesUndefined := by
  cases arguments with
  | nil => exact trivial
  | cons c rest => exact c.namesUndefined.bind fun _ => rest.namesUndefined.map _

theorem Items.namesUndefined (items : Items α) (isFirst : Bool) (default : α) :
    (items.lastValue isFirst default).NamesUndefined := by
  cases items with
  | nil => exact trivial
  | text text rest =>
    rw [Items.lastValue]
    split
    . exact fun _ => nofun
    . exact rest.namesUndefined _ _
  | chain c rest => exact c.namesUndefined.bind fun _ => rest.namesUndefined _ _

end

mutual

theorem Node.namesUndefined (x : Node α) : x.evaluation.NamesUndefined := by
  cases x with
  | const => exact trivial
  | «variable» name => exact namesUndefined_request _
  | neg x | inv x | not x | elementary f x => exact x.namesUndefined.map _
  | add x y | mul x y | mod x y | pow x y | compare c x y | log x y | round x y | extremum which x y =>
    exact x.namesUndefined.bind fun _ => y.namesUndefined.map _
  | or x y | and x y =>
    refine x.namesUndefined.bind fun v => ?_
    split
    . exact trivial
    . exact y.namesUndefined
  | call name arguments =>
    exact arguments.namesUndefined.bind fun _ => namesUndefined_request _
  | print items => exact items.namesUndefined _ _

theorem Nodes.namesUndefined (xs : Nodes α) : xs.evaluation.NamesUndefined := by
  cases xs with
  | nil => exact trivial
  | cons x rest => exact x.namesUndefined.bind fun _ => rest.namesUndefined.map _

end

theorem namesUndefined_kernel : Kernel.NamesUndefined α := by
  intro text formula h
  simp only [Kernel.parse] at h
  split at h
  . contradiction
  . cases h
    exact Node.namesUndefined _

theorem readsVariable_of_parse {identifier : String}
    (h : (parse (α := α) identifier).toOption.bind Chain.bareName? = some identifier) :
    Kernel.ReadsVariable α identifier := by
  obtain ⟨c, hparse, hc⟩ := Option.bind_eq_some_iff.mp h
  have hask : Kernel.parse identifier = .ok (request (α := α) (.variable identifier)) := by
    simp only [Kernel.parse, Outcome.eq_ok_of_toOption hparse, Chain.eq_of_bareName? hc]
    rfl
  exact ⟨_, hask, fun _ => rfl⟩

end Waveplan.Formula
