import Waveplan.Proofs.Calibration
import Waveplan.Proofs.Clock
import Waveplan.Proofs.Instruction.Stack
import Waveplan.Number.Double

/-!
This module contains the instructions that can be built by the operations of the library, and the
shape that every node of their trees has.
-/

namespace Waveplan.Instruction

variable {α : Type}

/--
What holds at a single node of a tree.
-/
def WellShaped : Instruction α → Prop
  | pattern p =>
    p.columns.length = p.sampleType.width ∧ p.columns.map Column.kind = p.sampleType.kinds
      ∧ ∀ c ∈ p.columns, c.length = p.length
  | ramp r =>
    1 ≤ r.length ∧ r.sampleType.isInterpolable = true
      ∧ r.start.length = r.sampleType.width ∧ r.stop.length = r.sampleType.width
  | concatenated xs =>
    2 ≤ xs.length
      ∧ (∀ x ∈ xs, x.length ≠ 0 ∧ (∀ ys, x ≠ concatenated ys)
        ∧ x.sampleType = (concatenated xs).sampleType)
      ∧ xs.IsChain (fun x y => ¬(x.isPattern ∧ y.isPattern))
      ∧ bounds xs = (List.range (xs.length + 1)).map fun i => ((xs.take i).map length).sum
  | repeated n body => 2 ≤ n ∧ body.length ≠ 0 ∧ ∀ m x, body ≠ repeated m x

theorem arePatternsApart_iff {xs : List (Instruction α)} :
    ArePatternsApart xs ↔ xs.IsChain fun x y => ¬(x.isPattern ∧ y.isPattern) := by
  induction xs with
  | nil => simp [ArePatternsApart]
  | cons x xs ih =>
    rw [arePatternsApart_cons, ih]
    cases xs with
    | nil => simp
    | cons y ys => simp

theorem wellShaped_of_normal {x : Instruction α} (h : x.Normal) : x.WellShaped := by
  cases x with
  | pattern p =>
    have hp := normal_pattern.mp h
    exact ⟨hp.length_columns, hp.kinds, hp.lengths⟩
  | ramp r =>
    obtain ⟨hr, hl⟩ := normal_ramp.mp h
    exact ⟨hl, hr.isInterpolable, hr.start, hr.stop⟩
  | concatenated xs =>
    obtain ⟨hn, hp, hparts⟩ := normal_concatenated.mp h
    refine ⟨hn, ?_, arePatternsApart_iff.mp hp, by simp [bounds, boundsFrom_eq]⟩
    intro x hx
    have hx := hparts x hx
    exact ⟨Nat.ne_of_gt hx.length_pos, hx.ne_concatenated, hx.sampleType⟩
  | repeated n body =>
    obtain ⟨hn, hl, hne, _⟩ := normal_repeated.mp h
    exact ⟨hn, Nat.ne_of_gt hl, hne⟩

variable [Number α]

/--
The instructions that the operations of the library make of each other. A function that is applied
to patterns must itself give patterns.
-/
inductive Built : Instruction α → Prop where
  | ofColumns {t : SampleType} {columns : List (Column α)} {p : Pattern α}
    (h : Pattern.ofColumns t columns = .ok p) : Built (pattern p)
  | ofSamples {t : SampleType} {samples : List (Sample α)} {p : Pattern α}
    (h : Pattern.ofSamples t samples = .ok p) : Built (pattern p)
  | constant {t : SampleType} {sample : Sample α} {n : Nat} {p : Pattern α}
    (h : Pattern.constant t sample n = .ok p) : Built (pattern p)
  | empty (t : SampleType) : Built (pattern (.empty t))
  | ofBools (values : List Bool) : Built (pattern (.ofBools values))
  | ofFloats (values : List α) : Built (pattern (.ofFloats values))
  | toPattern {x : Instruction α} (hx : Built x) : Built (pattern x.toPattern)
  | linear (start stop : α) (n : Nat) : Built (linear start stop n)
  | linearOf {t : SampleType} {start stop : Sample α} {n : Nat} {y : Instruction α}
    (h : linearOf t start stop n = .ok y) : Built y
  | concatenate {xs : List (Instruction α)} {y : Instruction α} (hxs : ∀ x ∈ xs, Built x)
    (h : concatenate xs = .ok y) : Built y
  | times {x : Instruction α} (hx : Built x) (n : Nat) : Built (x.times n)
  | tile {x : Instruction α} (hx : Built x) (n : Nat) : Built (x.tile n)
  | slice {x y : Instruction α} {start stop : Int} (hx : Built x)
    (h : x.slice start stop = .ok y) : Built y
  | sliceBy {x y : Instruction α} {start stop step : Int} (hx : Built x)
    (h : x.sliceBy start stop step = .ok y) : Built y
  | field {x y : Instruction α} {name : String} (hx : Built x) (h : x.field name = .ok y) : Built y
  | asType {x y : Instruction α} {t : SampleType} (hx : Built x) (h : x.asType t = .ok y) : Built y
  | withName {x y : Instruction α} {name : String} (hx : Built x)
    (h : x.withName name = .ok y) : Built y
  | apply {x y : Instruction α} {f : Pattern α → Except InstructionError (Pattern α)} (hx : Built x)
    (hf : ∀ p q, p.WellFormed → f p = .ok q → q.WellFormed) (h : x.apply f = .ok y) : Built y
  | stack {x y z : Instruction α} (hx : Built x) (hy : Built y) (h : stack x y = .ok z) : Built z
  | stackAll {xs : List (Instruction α)} {y : Instruction α} (hxs : ∀ x ∈ xs, Built x)
    (h : stackAll xs = .ok y) : Built y
  | calibrate {x y : Instruction α} (c : Calibration α) (hx : Built x) (h : c.apply x = .ok y) :
    Built y
  | level (value : Bool) (n : Nat) : Built (level value n)
  | halfPulse {device : String} {n : Nat} {y : Instruction α}
    (h : Clock.halfPulse device n = .ok y) : Built y
  | pulse {slave master : TimeStep} {y : Instruction α} (h : Clock.pulse slave master = .ok y) :
    Built y
  | adaptive {pulse target y : Instruction α} (hp : Built pulse) (ht : Built target)
    (h : Clock.adaptive pulse target = .ok y) : Built y

/--
Every operation keeps the normal form.
-/
theorem normal_of_built {x : Instruction α} (h : Built x) : x.Normal := by
  induction h with
  | ofColumns h => exact normal_pattern.mpr (Pattern.wellFormed_ofColumns h)
  | ofSamples h => exact normal_pattern.mpr (Pattern.wellFormed_ofSamples h)
  | constant h => exact normal_pattern.mpr (Pattern.wellFormed_constant h)
  | empty t => exact normal_empty t
  | ofBools values => exact normal_pattern.mpr (Pattern.wellFormed_ofBools values)
  | ofFloats values => exact normal_pattern.mpr (Pattern.wellFormed_ofFloats values)
  | toPattern _ hx => exact normal_pattern.mpr (wellFormed_toPattern hx)
  | linear start stop n => exact (typed_linear start stop n).normal
  | linearOf h => exact normal_linearOf h
  | concatenate _ h hxs => exact normal_concatenate hxs h
  | times _ n hx => exact (typed_times hx.typed n).normal
  | tile _ n hx => exact (typed_tile hx.typed n).normal
  | slice _ h hx => exact (typed_sliceBy hx.typed h).normal
  | sliceBy _ h hx => exact (typed_sliceBy hx.typed h).normal
  | field _ h hx => exact normal_field hx h
  | asType _ h hx => exact (typed_asType hx h).1.normal
  | withName _ h hx =>
    obtain ⟨_, _, hy⟩ := typed_withName hx h
    exact hy.normal
  | apply _ hf h hx => exact (normal_apply hf hx h).1
  | stack _ _ h hx hy => exact (normal_of_stack hx hy h).1
  | stackAll _ h hxs => exact (stackAll_ok hxs h).1
  | calibrate c _ h => exact (Calibration.typed_apply h).normal
  | level value n => exact (typed_level value n).normal
  | halfPulse h => exact (Clock.halfPulse_ok h).1.normal
  | pulse h => exact (Clock.pulse_ok h).1.normal
  | adaptive _ _ h hp _ => exact Clock.normal_adaptive hp h

theorem built_pattern_iff {p : Pattern α} : Built (pattern p) ↔ p.WellFormed := by
  constructor
  . intro h
    exact normal_pattern.mp (normal_of_built h)
  . intro h
    obtain ⟨t, columns, n⟩ := p
    cases columns with
    | nil =>
      cases t with
      | scalar kind => exact absurd h.kinds (by simp [SampleType.kinds])
      | record fields =>
        cases fields with
        | nil =>
          have hn : Pattern.constant (.record []) ⟨[]⟩ n
              = .ok (⟨.record [], [], 1 * n⟩ : Pattern α) := rfl
          rw [Nat.one_mul] at hn
          exact .constant hn
        | cons f fields => exact absurd h.kinds (by simp [SampleType.kinds])
    | cons c columns =>
      apply Built.ofColumns
      show Pattern.ofColumns t (c :: columns) = _
      have hl : ∀ d ∈ c :: columns, d.length = n := h.lengths
      have hf : (c :: columns).find? (·.length ≠ c.length) = none := by
        apply List.find?_eq_none.mpr
        intro d hd
        simp [hl d hd, hl c List.mem_cons_self]
      unfold Pattern.ofColumns
      rw [if_neg (not_not.mpr h.kinds)]
      dsimp only [List.head?_cons, Option.map_some, Option.getD_some]
      rw [hf, hl c List.mem_cons_self]

/--
Whatever is built, every node of it has its shape.
-/
theorem wellShaped_of_isNode {x y : Instruction α} (hx : Built x) (hy : IsNode y x) :
    y.WellShaped :=
  wellShaped_of_normal (normal_of_isNode (normal_of_built hx) hy)

theorem wellShaped_slice_alternating :
    (concatenated [pattern (.ofBools [false]), repeated 2 (pattern (.ofBools [true, false])),
      pattern (.ofBools [true])] : Instruction Float).WellShaped :=
  have h : ((pattern (.ofBools [true, false])).times 4 : Instruction Float).slice 1 7
      = .ok (concatenated [pattern (.ofBools [false]),
        repeated 2 (pattern (.ofBools [true, false])), pattern (.ofBools [true])]) := rfl
  wellShaped_of_isNode (.slice (.times (.ofBools [true, false]) 4) h) .self

end Waveplan.Instruction
