import Waveplan.Proofs.Instruction.StackAll

/-!
This module contains that it does not matter how instructions are grouped when they are stacked two
at a time. Stacking halves and stacking one instruction after the other build different trees, but
they accept the same instructions and play the same channels.
-/

namespace Waveplan.Instruction

variable {α : Type} {n : Nat} {fields : List (List Field)} {x s f : Instruction α}
  {xs : List (Instruction α)}

/--
Instructions of `n` ticks whose channels all have different names.
-/
structure AreStackable (n : Nat) (fields : List (List Field)) (xs : List (Instruction α)) :
    Prop where
  typed : List.Forall₂ (fun l x => x.Typed (.record l) ∧ x.length = n) fields xs
  disjoint : fields.Pairwise SampleType.AreDisjoint

theorem AreStackable.append {ls rs : List (List Field)} {ys : List (Instruction α)}
    (hx : AreStackable n ls xs) (hy : AreStackable n rs ys)
    (hd : SampleType.AreDisjoint ls.flatten rs.flatten) : AreStackable n (ls ++ rs) (xs ++ ys) where
  typed := List.rel_append hx.typed hy.typed
  disjoint := by
    refine List.pairwise_append.mpr ⟨hx.disjoint, hy.disjoint, ?_⟩
    intro l hl r hr f hf g hg
    exact hd f (List.mem_flatten_of_mem hl hf) g (List.mem_flatten_of_mem hr hg)

theorem AreStackable.ext {m : Nat} {fields' : List (List Field)} (h : AreStackable n fields xs)
    (h' : AreStackable m fields' xs) (hne : xs ≠ []) : fields = fields' ∧ n = m := by
  have hunique : Relator.LeftUnique fun (l : List Field) (x : Instruction α) =>
      x.sampleType = .record l :=
    fun l x r hl hr => SampleType.record.inj (hl.symm.trans hr)
  refine ⟨List.left_unique_forall₂' hunique (h.typed.imp fun _ _ h => h.1.sampleType)
    (h'.typed.imp fun _ _ h => h.1.sampleType), ?_⟩
  obtain ⟨x, hx⟩ := List.exists_mem_of_ne_nil xs hne
  have hn := Outcome.forall_mem_of_forall₂ (h.typed.imp fun _ _ h => h.2) x hx
  have hm := Outcome.forall_mem_of_forall₂ (h'.typed.imp fun _ _ h => h.2) x hx
  exact hn.symm.trans hm

variable [Number α]

/--
A grouping that succeeds has looked at every two names: each name was compared with the names of
the other side at the node where both came together.
-/
theorem IsGrouping.exists_areStackable (h : IsGrouping xs s) (hxs : ∀ x ∈ xs, x.Normal)
    {l : List Field} (ht : s.sampleType = .record l) :
    ∃ fields, AreStackable s.length fields xs ∧ IsStackAll s.length fields xs s := by
  induction h generalizing l with
  | single x =>
    have hx : x.Typed (.record l) := ⟨hxs x List.mem_cons_self, ht⟩
    exact ⟨[l], ⟨.cons ⟨hx, rfl⟩ .nil, List.pairwise_singleton _ _⟩, isStackAll_singleton hx rfl⟩
  | @stack xs ys a b y ha hb h iha ihb =>
    obtain ⟨hxs, hys⟩ := List.forall_mem_append.mp hxs
    obtain ⟨hl, t, hm⟩ := stack_ok h
    obtain ⟨left, right, hta, htb, hd, _⟩ := SampleType.merge_eq_ok_iff.mp hm
    obtain ⟨ls, hls, hsa⟩ := iha hxs hta
    obtain ⟨rs, hrs, hsb⟩ := ihb hys htb
    obtain ⟨hna, _⟩ := ha.normal_and_length_eq hxs
    obtain ⟨hnb, _⟩ := hb.normal_and_length_eq hys
    obtain ⟨_, hly⟩ := normal_of_stack hna hnb h
    rw [← hl, ← hly] at hrs hsb
    rw [← hly] at hls hsa
    have hls' : ls.flatten = left := SampleType.record.inj (hsa.typed.sampleType.symm.trans hta)
    have hrs' : rs.flatten = right := SampleType.record.inj (hsb.typed.sampleType.symm.trans htb)
    have happend := hls.append hrs (by rwa [hls', hrs'])
    obtain ⟨z, hz, hst⟩ := exists_stack_of_isStackAll hsa hsb
      (List.pairwise_append.mp happend.disjoint).2.2
    cases hz.symm.trans h
    exact ⟨ls ++ rs, happend, hst⟩

theorem IsGrouping.ne_nil (h : IsGrouping xs s) : xs ≠ [] := by
  induction h with
  | single x => exact List.cons_ne_nil x []
  | stack _ _ _ iha _ => exact List.append_ne_nil_of_left_ne_nil iha _

theorem IsGrouping.eq_of_singleton (h : IsGrouping [x] s) : s = x := by
  generalize hxs : [x] = xs at h
  cases h with
  | single => exact (List.singleton_inj.mp hxs).symm
  | stack ha hb =>
    -- neither side of a stack is empty
    have hla := List.length_pos_of_ne_nil ha.ne_nil
    have hlb := List.length_pos_of_ne_nil hb.ne_nil
    have hl := congrArg List.length hxs
    rw [List.length_append, List.length_singleton] at hl
    omega

theorem IsGrouping.eq_singleton_or_exists (h : IsGrouping xs s) (hxs : ∀ x ∈ xs, x.Normal) :
    xs = [s] ∨ ∃ fields, AreStackable s.length fields xs ∧ IsStackAll s.length fields xs s := by
  cases h with
  | single x => exact .inl rfl
  | @stack xs ys a b _ ha hb h =>
    obtain ⟨hxs', hys'⟩ := List.forall_mem_append.mp hxs
    obtain ⟨hl, t, hm⟩ := stack_ok h
    obtain ⟨z, hz, hst⟩ := exists_stack (ha.normal_and_length_eq hxs').1
      (hb.normal_and_length_eq hys').1 hl hm
    cases hz.symm.trans h
    obtain ⟨_, _, _, _, _, rfl⟩ := SampleType.merge_eq_ok_iff.mp hm
    exact .inr ((IsGrouping.stack ha hb h).exists_areStackable hxs hst.typed.sampleType)

/--
Two instructions that play the channels of `xs` side by side, in order.
-/
structure PlayAlike (xs : List (Instruction α)) (s f : Instruction α) : Prop where
  sampleType : s.sampleType = f.sampleType
  toPattern : s.toPattern = f.toPattern
  /-- One instruction is not changed, whatever its type. -/
  fields : xs = [s] ∨ ∃ fields, List.Forall₂ (fun l x => x.sampleType = .record l) fields xs
    ∧ s.sampleType = .record fields.flatten

theorem IsStackAll.toPattern_eq {Q : Ramp α → Prop} (h : IsStackAll n fields xs s)
    (hQ : IsDivisible Q) (hr : ∀ x ∈ xs, x.RampsSatisfy Q) :
    s.toPattern = ⟨.record fields.flatten, xs.flatMap fun x => x.toPattern.columns, n⟩ := by
  rw [← h.columns hQ hr, ← h.typed.sampleType, ← sampleType_toPattern h.typed.normal, ← h.length,
    ← length_toPattern h.typed.normal]

theorem IsGrouping.playAlike {Q : Ramp α → Prop} (hs : IsGrouping xs s) (hf : IsGrouping xs f)
    (hxs : ∀ x ∈ xs, x.Normal) (hQ : IsDivisible Q) (hr : ∀ x ∈ xs, x.RampsSatisfy Q) :
    PlayAlike xs s f := by
  rcases hs.eq_singleton_or_exists hxs with rfl | ⟨fields, hfields, hsa⟩
  . cases hf.eq_of_singleton
    exact ⟨rfl, rfl, .inl rfl⟩
  . rcases hf.eq_singleton_or_exists hxs with rfl | ⟨fields', hfields', hfa⟩
    . cases hs.eq_of_singleton
      exact ⟨rfl, rfl, .inl rfl⟩
    . obtain ⟨rfl, hl⟩ := hfields.ext hfields' hs.ne_nil
      have htypes := hfields.typed.imp fun _ _ h => h.1.sampleType
      refine ⟨hsa.typed.sampleType.trans hfa.typed.sampleType.symm, ?_,
        .inr ⟨fields, htypes, hsa.typed.sampleType⟩⟩
      rw [hsa.toPattern_eq hQ hr, hfa.toPattern_eq hQ hr, hl]

section Fold

/--
Stacking one instruction after the other onto `a`, which already plays the channels of `xs`.
-/
theorem isGrouping_foldlM {a : Instruction α} {ys : List (Instruction α)} (ha : IsGrouping xs a)
    (h : ys.foldlM stack a = .ok f) : IsGrouping (xs ++ ys) f := by
  induction ys generalizing xs a with
  | nil =>
    cases h
    rwa [List.append_nil]
  | cons y ys ih =>
    rw [List.foldlM_cons] at h
    obtain ⟨b, hb, h⟩ := Outcome.bind_eq_ok_iff.mp h
    have hyb := ih (ha.stack (.single y) hb) h
    rwa [List.append_assoc, List.singleton_append] at hyb

theorem exists_foldlM_stack {a : Instruction α} {ls rs : List (List Field)}
    {ys : List (Instruction α)} (ha : IsStackAll n ls xs a) (h : AreStackable n rs ys)
    (hd : ∀ l ∈ ls, ∀ r ∈ rs, SampleType.AreDisjoint l r) : ∃ f, ys.foldlM stack a = .ok f := by
  induction ys generalizing xs ls rs a with
  | nil => exact ⟨a, rfl⟩
  | cons y ys ih =>
    obtain ⟨hty, hdy⟩ := h
    cases hty with
    | @cons r _ rs _ hy hys =>
      obtain ⟨hdr, hdy⟩ := List.pairwise_cons.mp hdy
      obtain ⟨b, hb, hsb⟩ := exists_stack_of_isStackAll ha (isStackAll_singleton hy.1 hy.2)
        fun l hl r' hr => hd l hl r' (List.mem_singleton.mp hr ▸ List.mem_cons_self)
      obtain ⟨f, hf⟩ := ih hsb ⟨hys, hdy⟩ fun l hl r' hr => by
        rcases List.mem_append.mp hl with hl | hl
        . exact hd l hl r' (List.mem_cons_of_mem r hr)
        . exact List.mem_singleton.mp hl ▸ hdr r' hr
      exact ⟨f, Outcome.bind_eq_ok_iff.mpr ⟨b, hb, hf⟩⟩

theorem AreStackable.exists_foldlM (h : AreStackable n fields (x :: xs)) :
    ∃ f, xs.foldlM stack x = .ok f := by
  obtain ⟨hty, hd⟩ := h
  cases hty with
  | @cons l _ ls _ hx hxs =>
    obtain ⟨hdl, hd⟩ := List.pairwise_cons.mp hd
    exact exists_foldlM_stack (isStackAll_singleton hx.1 hx.2) ⟨hxs, hd⟩ fun l' hl =>
      List.mem_singleton.mp hl ▸ hdl

theorem exists_stackAll_iff_foldlM (hxs : ∀ y ∈ x :: xs, y.Normal) :
    (∃ s, stackAll (x :: xs) = .ok s) ↔ ∃ f, xs.foldlM stack x = .ok f := by
  constructor
  . rintro ⟨s, hs⟩
    rcases (isGrouping_stackAll hs).eq_singleton_or_exists hxs with h | ⟨fields, hfields, _⟩
    . cases h
      exact ⟨x, rfl⟩
    . exact hfields.exists_foldlM
  . rintro ⟨f, hf⟩
    have hg := isGrouping_foldlM (.single x) hf
    rcases hg.eq_singleton_or_exists hxs with h | ⟨fields, hfields, _⟩
    . cases h
      exact ⟨x, rfl⟩
    . obtain ⟨s, hs, _⟩ := exists_stackAll (List.cons_ne_nil x xs) hfields.typed hfields.disjoint
      exact ⟨s, hs⟩

/--
Stacking halves does what stacking one instruction after the other does.
-/
theorem agree_stackAll_foldlM (hxs : ∀ y ∈ x :: xs, y.Normal)
    (hr : ∀ y ∈ x :: xs, ∀ r, ¬IsNode (ramp r) y) :
    Outcome.Agree (PlayAlike (x :: xs)) (stackAll (x :: xs)) (xs.foldlM stack x) := by
  apply Outcome.Agree.of_exists_ok_iff (exists_stackAll_iff_foldlM hxs)
  intro s f hs hf
  have hg := isGrouping_foldlM (.single x) hf
  exact (isGrouping_stackAll hs).playAlike hg hxs isDivisible_false hr

/--
A switch that blinks.
-/
def blinkingOutput : Instruction Float :=
  repeated 2 (pattern ⟨.named "blink" .bool, [.bool [true, false]], 2⟩)

/--
A voltage that is held and then steps up.
-/
def steppedOutput : Instruction Float :=
  concatenated [repeated 3 (pattern ⟨.named "step" .float, [.float [0]], 1⟩),
    pattern ⟨.named "step" .float, [.float [1]], 1⟩]

/--
A switch that is written out.
-/
def writtenOutput : Instruction Float :=
  pattern ⟨.named "write" .bool, [.bool [true, true, false, true]], 4⟩

theorem normal_steppedOutput : steppedOutput.Normal := by
  have hp {x : Float} : (pattern ⟨.named "step" .float, [.float [x]], 1⟩).Normal :=
    normal_pattern.mpr ⟨rfl, by simp [Column.length]⟩
  have hr : (repeated 3 (pattern ⟨.named "step" .float, [.float [(0 : Float)]], 1⟩)).Normal :=
    normal_repeated.mpr ⟨by decide, by decide, by simp, hp⟩
  exact normal_concatenated_pair ⟨hr, by decide, rfl, by simp⟩ ⟨hp, by decide, rfl, by simp⟩
    (by simp [isPattern])

/--
The halves are the first output and the other two, whereas the fold begins with the first two.
-/
theorem agree_stackAll_foldlM_outputs :
    ∃ s f, stackAll [blinkingOutput, steppedOutput, writtenOutput] = .ok s
      ∧ [steppedOutput, writtenOutput].foldlM stack blinkingOutput = .ok f
      ∧ s.toPattern = f.toPattern
      ∧ s.sampleType = .record [⟨"blink", .bool⟩, ⟨"step", .float⟩, ⟨"write", .bool⟩] := by
  have hb : blinkingOutput.Normal := normal_repeated.mpr ⟨by decide, by decide, by simp,
    normal_pattern.mpr ⟨rfl, by simp [Column.length]⟩⟩
  have hw : writtenOutput.Normal := normal_pattern.mpr ⟨rfl, by simp [Column.length]⟩
  have hnormal : ∀ y ∈ [blinkingOutput, steppedOutput, writtenOutput], y.Normal := by
    simpa using ⟨hb, normal_steppedOutput, hw⟩
  have hramps : ∀ y ∈ [blinkingOutput, steppedOutput, writtenOutput],
      y.RampsSatisfy fun _ => False := by
    simp [blinkingOutput, steppedOutput, writtenOutput, rampsSatisfy_concatenated,
      rampsSatisfy_repeated, rampsSatisfy_pattern]
  have hagree := agree_stackAll_foldlM hnormal hramps
  obtain ⟨s, hs, hst⟩ := exists_stackAll (n := 4) (List.cons_ne_nil _ _)
    (.cons ⟨⟨hb, rfl⟩, rfl⟩ (.cons ⟨⟨normal_steppedOutput, rfl⟩, rfl⟩
      (.cons ⟨⟨hw, rfl⟩, rfl⟩ .nil))) (by simp [SampleType.AreDisjoint])
  obtain ⟨f, hf⟩ := hagree.exists_ok_iff.mp ⟨s, hs⟩
  exact ⟨s, f, hs, hf, (hagree.of_eq_ok hs hf).toPattern, hst.typed.sampleType⟩

end Fold

end Waveplan.Instruction
