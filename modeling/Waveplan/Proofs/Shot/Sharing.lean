import Waveplan.Formula.Kernel
import Waveplan.Proofs.Shot.Alike
import Waveplan.Proofs.Shot.Complete
import Waveplan.Proofs.Shot.Cycles

/-!
This module contains that looking up sequencers that have been compiled before changes nothing: what
a compilation gives, and where it fails, is the same if sequencers are compiled again wherever they
are triggered.

Compiling a sequencer once more gives the instruction that the table holds, since what is compiled
does not depend on the progress, and it leaves the progress as it is, since all lanes that are read
and all sequencers that are triggered on the way are already part of it.
-/

namespace Waveplan.ShotContext

open Compilation

variable {α : Type} [Number α] [Kernel α] {c : ShotContext α} {p q r : Progress α}
  {pending : List String} {a b name root : String} {u v : Call α}

/--
The compilation of a sequencer, whether or not it has been compiled before. `compile` is used for
those that it triggers.
-/
def recompile (c : ShotContext α) (compile : String → Compilation α (Instruction α))
    (name : String) : Compilation α (Instruction α) :=
  match (c.devices.get? name).bind Device.sequencer? with
  | none => throw (.unknownDevice name "sequencer")
  | some config => do
    let x ← c.channels compile name config
    modify fun progress => { progress with compiled := progress.compiled.insert name x }
    pure x

/--
The compilation that compiles sequencers wherever they are triggered. At some depth it is cut off,
and goes on with anything instead.
-/
def recompileWithin (c : ShotContext α) (otherwise : String → Compilation α (Instruction α)) :
    Nat → String → Compilation α (Instruction α)
  | 0, name => otherwise name
  | depth + 1, name => c.recompile (c.recompileWithin otherwise depth) name

/--
The instructions of all sequencers, with the same checks at the end as in `compileSequencers`.
-/
def recompileSequencers (c : ShotContext α) (otherwise : String → Compilation α (Instruction α))
    (depth : Nat) (root : String) : Except (CompilationError α) (Dictionary (Instruction α)) := do
  let (_, progress) ← (c.recompileWithin otherwise depth root).run {}
  let unreached := (sequencerNames c.devices).filter fun name => !progress.compiled.contains name
  let unused := (c.lanes.entries.filter fun (name, lane) =>
    !lane.isCamera && !progress.usedLanes.contains name).map Prod.fst
  if unreached ≠ [] then .error (.unreachedSequencers root unreached)
  else if unused ≠ [] then .error (.unusedLanes unused)
  else .ok progress.compiled

/--
That no chain of triggers leads from a sequencer back to itself.
-/
def IsAcyclic (c : ShotContext α) : Prop := ∀ name, ¬Relation.TransGen c.Edge name name

/--
What the table of sequencers that have been compiled leaves as it is: the outcome of a compilation
and, on the way there, what each call of a sequencer gives and the waveform of each channel.
-/
structure SharesResults (c : ShotContext α) (root : String) : Prop where
  outcome (otherwise : String → Compilation α (Instruction α)) {depth : Nat} :
    (sequencerNames c.devices).length < depth →
      c.compileSequencers root = c.recompileSequencers otherwise depth root
  instruction (otherwise : String → Compilation α (Instruction α)) {depth : Nat} {u : Call α} :
    (sequencerNames c.devices).length < depth → c.Leads (c.rootCall root) u →
      (c.call u).map Prod.fst = (c.recompileWithin otherwise depth u.name {}).map Prod.fst
  waveform (otherwise : String → Compilation α (Instruction α)) {depth : Nat} {u : Call α}
    {config : Sequencer α} {before after : Nat} {channel : Channel α} {p : Progress α} :
    (sequencerNames c.devices).length < depth → c.Leads (c.rootCall root) u →
      c.Turn u.pending u.name u.progress config before after channel p →
      (c.channelWaveform (c.compileSequencer (u.pending.erase u.name)) config.timeStep channel
          before after p).map Prod.fst
        = (c.channelWaveform (c.recompileWithin otherwise depth) config.timeStep channel before
          after {}).map Prod.fst

section Covers

/--
That all sequencers that a chain of triggers leads to, starting from a given one, are among some.
-/
def Covers (c : ShotContext α) (pending : List String) (name : String) : Prop :=
  ∀ other config, Relation.ReflTransGen c.Edge name other →
    (c.devices.get? other).bind Device.sequencer? = some config → other ∈ pending

theorem covers_sequencerNames (name : String) : c.Covers (sequencerNames c.devices) name := by
  intro other config _ hconfig
  have hmem := Dictionary.mem_of_lookup (bind_sequencer?_eq_some_iff.mp hconfig)
  exact List.mem_map.mpr ⟨_, List.mem_filter.mpr ⟨hmem, rfl⟩, rfl⟩

theorem Covers.mem (h : c.Covers pending a) (he : c.Edge a b) : a ∈ pending := by
  obtain ⟨config, _, hconfig, _, _⟩ := he
  exact h a config .refl hconfig

/--
What is triggered while a sequencer is compiled does not lead back to it.
-/
theorem Covers.erase (h : c.Covers pending a) (hc : c.IsAcyclic) (he : c.Edge a b) :
    c.Covers (pending.erase a) b := by
  intro other config hother hconfig
  have hne : other ≠ a := by
    rintro rfl
    exact hc other (.head' he hother)
  exact (List.mem_erase_of_ne hne).mpr (h other config (.head he hother) hconfig)

theorem Covers.acc (h : c.Covers pending a) (hc : c.IsAcyclic) :
    Acc (fun b a => c.Edge a b) a := by
  induction hn : pending.length using Nat.strong_induction_on generalizing pending a with
  | h n ih =>
    refine ⟨_, fun b hb => ?_⟩
    have hl := length_erase_lt (h.mem hb)
    exact ih _ (by omega) (h.erase hc hb) rfl

theorem IsAcyclic.acc (hc : c.IsAcyclic) (name : String) : Acc (fun b a => c.Edge a b) name :=
  (covers_sequencerNames name).acc hc

end Covers

section Recompile

variable {compile compile' : String → Compilation α (Instruction α)}

theorem alike_recompile {S : Progress α → Progress α → Prop}
    (hread : ∀ p q lane, S p q → S (p.read lane) (q.read lane))
    (hfinish : ∀ p q x, S p q → S (p.finish name x) (q.finish name x))
    (h : ∀ other, c.Edge name other → ∀ p q, S p q →
      Alike S (compile other p) (compile' other q)) (hS : S p q) :
    Alike S (c.recompile compile name p) (c.recompile compile' name q) := by
  unfold recompile
  cases hconfig : (c.devices.get? name).bind Device.sequencer? with
  | none => exact .error
  | some config =>
    have hchannels : Alike S (c.channels compile name config p)
        (c.channels compile' name config q) := by
      apply alike_channels hread hS
      exact fun channel hm other hd => h other ⟨config, channel, hconfig, hm, hd⟩
    exact hchannels.bind fun x r s hr => .ok (hfinish r s x hr)

theorem recompile_eq_ok_iff {x : Instruction α} :
    c.recompile compile name p = .ok (x, q) ↔ ∃ config r,
      (c.devices.get? name).bind Device.sequencer? = some config
        ∧ c.channels compile name config p = .ok (x, r) ∧ q = r.finish name x := by
  unfold recompile
  cases (c.devices.get? name).bind Device.sequencer? with
  | none => simp [throw_ne_ok]
  | some config =>
    rw [bind_eq_ok_iff]
    constructor
    . rintro ⟨y, r, hy, h⟩
      have h := modify_bind_eq_ok_iff.mp h
      obtain ⟨rfl, rfl⟩ := pure_eq_ok_iff.mp h
      exact ⟨config, r, rfl, hy, rfl⟩
    . rintro ⟨_, r, hconfig, hy, rfl⟩
      cases hconfig
      exact ⟨x, r, hy, rfl⟩

theorem recompile_congr (h : ∀ other, c.Edge name other → compile other = compile' other) :
    c.recompile compile name = c.recompile compile' name := by
  funext p
  apply Alike.eq
  apply alike_recompile (fun p q lane hS => by rw [hS]) (fun p q x hS => by rw [hS]) _ rfl
  rintro other he p _ rfl
  rw [h other he]
  cases compile' other p with
  | error e => exact .error
  | ok r => exact .ok rfl

theorem recompileWithin_succ (hc : c.IsAcyclic)
    (otherwise : String → Compilation α (Instruction α)) {depth : Nat}
    (hp : c.Covers pending name) (hd : pending.length < depth) :
    c.recompileWithin otherwise (depth + 1) name = c.recompileWithin otherwise depth name := by
  induction depth generalizing pending name with
  | zero => omega
  | succ depth ih =>
    apply recompile_congr
    intro other he
    have hl := length_erase_lt (hp.mem he)
    exact ih (hp.erase hc he) (by omega)

/--
Without cycles, the compilation is not cut off below as many calls as there are sequencers.
-/
theorem recompile_recompileWithin (hc : c.IsAcyclic)
    (otherwise : String → Compilation α (Instruction α)) {depth : Nat}
    (hd : (sequencerNames c.devices).length < depth) :
    c.recompile (c.recompileWithin otherwise depth) = c.recompileWithin otherwise depth := by
  funext name
  exact recompileWithin_succ hc otherwise (covers_sequencerNames name) hd

end Recompile

/--
That a channel of a configured sequencer ends in the values of a lane.
-/
def Outputs (c : ShotContext α) (name lane : String) : Prop :=
  ∃ config channel, (c.devices.get? name).bind Device.sequencer? = some config
    ∧ channel ∈ config.channels ∧ c.Reads config.timeStep ⟨channel.output, channel.unit, 0⟩ lane

theorem FirstRun.readsIn_of_outputs {config : Sequencer α} {x : Instruction α}
    (h : c.FirstRun u config x q) {lane : String} (hl : c.Outputs u.name lane) :
    c.ReadsIn u lane := by
  obtain ⟨other, channel, hother, hm, hl⟩ := hl
  rw [h.configured] at hother
  cases hother
  obtain ⟨before, after, r, ht, ho⟩ := h.exists_turn_of_mem hm
  exact .turn ht ho hl

omit [Number α] [Kernel α] in
theorem contains_compiled_finish {x : Instruction α} :
    (p.finish name x).compiled.contains a ↔ a = name ∨ p.compiled.contains a := by
  rw [Dictionary.contains, Progress.get?_compiled_finish, Dictionary.contains]
  split <;> simp_all

section Coherent

/--
That a progress holds, for each sequencer that has been compiled, what `compile` gives for it, all
sequencers that it triggers, and all lanes that it reads.
-/
structure Coherent (c : ShotContext α) (compile : String → Compilation α (Instruction α))
    (p : Progress α) : Prop where
  pairwise_compiled : p.compiled.names.Pairwise (· < ·)
  pairwise_usedLanes : p.usedLanes.names.Pairwise (· < ·)
  instruction {name : String} {x : Instruction α} : p.compiled.get? name = some x →
    ∀ q, ∃ r, compile name q = .ok (x, r)
  compiled {a b : String} : p.compiled.contains a → c.Edge a b → p.compiled.contains b
  usedLanes {name lane : String} : p.compiled.contains name → c.Outputs name lane →
    p.usedLanes.contains lane

variable {compile : String → Compilation α (Instruction α)}

theorem coherent_empty : c.Coherent compile {} where
  pairwise_compiled := .nil
  pairwise_usedLanes := .nil
  instruction := nofun
  compiled := nofun
  usedLanes := nofun

theorem Coherent.read (h : c.Coherent compile p) (lane : String) :
    c.Coherent compile (p.read lane) where
  pairwise_compiled := h.pairwise_compiled
  pairwise_usedLanes := (Dictionary.pairwise_insertInto h.pairwise_usedLanes).1
  instruction := h.instruction
  compiled := h.compiled
  usedLanes hname hl := (p.contains_usedLanes_read _ _).mpr (.inr (h.usedLanes hname hl))

/--
A sequencer is compiled after all that it triggers and reads.
-/
theorem Coherent.finish {config : Sequencer α} {x : Instruction α} (h : c.Coherent compile q)
    (hrun : c.FirstRun u config x q) (hx : ∀ q, ∃ r, compile u.name q = .ok (x, r)) :
    c.Coherent compile (q.finish u.name x) where
  pairwise_compiled := (Dictionary.pairwise_insertInto h.pairwise_compiled).1
  pairwise_usedLanes := h.pairwise_usedLanes
  instruction {name y} hy := by
    rw [Progress.get?_compiled_finish] at hy
    split at hy
    . next he =>
      cases hy
      rw [he]
      exact hx
    . exact h.instruction hy
  compiled ha he := by
    apply contains_compiled_finish.mpr
    right
    rcases contains_compiled_finish.mp ha with rfl | ha
    . obtain ⟨v, huv, rfl⟩ := hrun.exists_calls_of_edge he
      obtain ⟨_, slave, _, s, _, hv, hs, _⟩ := hrun.of_calls huv
      apply hs.contains
      rw [Dictionary.contains, get?_compiled_of_call hv]
      rfl
    . exact h.compiled ha he
  usedLanes hname hl := by
    rcases contains_compiled_finish.mp hname with rfl | hname
    . exact hrun.of_readsIn (hrun.readsIn_of_outputs hl)
    . exact h.usedLanes hname hl

theorem Coherent.read_eq (h : c.Coherent compile p) {lane : String}
    (hl : p.usedLanes.contains lane) : p.read lane = p := by
  obtain ⟨_, hl⟩ := Option.isSome_iff_exists.mp hl
  unfold Progress.read
  rw [Dictionary.insert_of_get? h.pairwise_usedLanes hl]

theorem Coherent.finish_eq (h : c.Coherent compile p) {x : Instruction α}
    (hx : p.compiled.get? name = some x) : p.finish name x = p := by
  unfold Progress.finish
  rw [Dictionary.insert_of_get? h.pairwise_compiled hx]

variable (hc : c.IsAcyclic) (hfix : c.recompile compile = compile)

include hc hfix

/--
What a sequencer is compiled to does not depend on the progress.
-/
theorem alike_of_fixed (name : String) (p q : Progress α) :
    Alike (fun _ _ => True) (compile name p) (compile name q) := by
  induction hc.acc name generalizing p q with
  | intro name _ ih =>
    rw [← hfix]
    exact alike_recompile (fun _ _ _ _ => trivial) (fun _ _ _ _ => trivial)
      (fun other he p q _ => hfix ▸ ih other he p q) trivial

/--
Compiling a sequencer once more leaves the progress as it is.
-/
theorem Coherent.compile_eq (h : c.Coherent compile p) {x : Instruction α}
    (hx : p.compiled.get? name = some x) : compile name p = .ok (x, p) := by
  induction hc.acc name generalizing x with
  | intro name _ ih =>
    have hname : p.compiled.contains name := by
      rw [Dictionary.contains, hx]
      rfl
    obtain ⟨r, hr⟩ := h.instruction hx p
    obtain ⟨config, s, hconfig, hchannels, rfl⟩ := recompile_eq_ok_iff.mp (hfix ▸ hr)
    obtain ⟨before, after, ys, _, hys, _, _⟩ := channels_eq_ok_iff.mp hchannels
    have hs : s = p := by
      apply channelWaveforms_invariant (I := (· = p)) hys rfl
      . rintro channel hm lane _ hl rfl
        exact h.read_eq (h.usedLanes hname ⟨config, channel, hconfig, hm, hl⟩)
      . rintro channel hm device slave _ t hd hslave rfl
        have he : c.Edge name device := ⟨config, channel, hconfig, hm, hd⟩
        obtain ⟨y, hy⟩ := Option.isSome_iff_exists.mp (h.compiled hname he)
        rw [ih device he hy] at hslave
        cases hslave
        rfl
    rw [hr, hs, h.finish_eq hx]

/--
With what has been compiled before, a sequencer is compiled as it is without.
-/
theorem alike_compileSequencer (hp : c.Covers pending name) (h : c.Coherent compile p) :
    Alike (fun q r => q = r ∧ c.Coherent compile q) (c.compileSequencer pending name p)
      (compile name p) := by
  -- sequencers that are compiled on the way have fewer pending ones
  induction hn : pending.length using Nat.strong_induction_on generalizing pending name p with
  | h n ih =>
    rw [compileSequencer, get_bind]
    cases hx : p.compiled.get? name with
    | some x =>
      rw [h.compile_eq hc hfix hx]
      exact .ok ⟨rfl, h⟩
    | none =>
      rw [← congrFun hfix name, recompile]
      cases hconfig : (c.devices.get? name).bind Device.sequencer? with
      | none => exact .error
      | some config =>
        have hmem := hp name config .refl hconfig
        have hl := length_erase_lt hmem
        have hchannels : Alike (fun q r => q = r ∧ c.Coherent compile q)
            (c.channels (c.compileSequencer (pending.erase name)) name config p)
            (c.channels compile name config p) := by
          apply alike_channels
          . rintro q _ lane ⟨rfl, hq⟩
            exact ⟨rfl, hq.read lane⟩
          . exact ⟨rfl, h⟩
          . rintro channel hm other hd q _ ⟨rfl, hq⟩
            exact ih _ (by omega) (hp.erase hc ⟨config, channel, hconfig, hm, hd⟩) hq rfl
        dsimp only
        rw [dif_pos hmem]
        apply hchannels.bind_of_eq
        rintro x q _ hq hq' ⟨rfl, hcoherent⟩
        refine .ok ⟨rfl, hcoherent.finish (u := ⟨pending, name, p⟩) ⟨hx, hconfig, hmem, hq⟩ ?_⟩
        intro s
        have hname := recompile_eq_ok_iff.mpr ⟨config, q, hconfig, hq', rfl⟩
        rw [hfix] at hname
        obtain ⟨t, ht, _⟩ := (alike_of_fixed hc hfix name p s).exists_eq_ok hname
        exact ⟨t, ht⟩

/--
What has been compiled when it is a channel's turn is coherent.
-/
theorem Turn.coherent {config : Sequencer α} {before after : Nat} {channel : Channel α}
    (ht : c.Turn pending name p config before after channel q) (hp : c.Covers pending name)
    (h : c.Coherent compile p) : c.Coherent compile q := by
  obtain ⟨earlier, later, ys, hsplit, hys⟩ := ht.earlier
  apply channelWaveforms_invariant hys h
  . exact fun _ _ lane r _ hr => hr.read lane
  . intro other hother device slave r s hd hslave hr
    have hm : other ∈ config.channels := by
      rw [hsplit]
      exact List.mem_append_left _ hother
    have he : c.Edge name device := ⟨config, other, ht.configured, hm, hd⟩
    obtain ⟨_, _, rfl, hs⟩ :=
      (alike_compileSequencer hc hfix (hp.erase hc he) hr).exists_eq_ok hslave
    exact hs

theorem Leads.coherent (h : c.Leads (c.rootCall root) u) :
    c.Covers u.pending u.name ∧ c.Coherent compile u.progress := by
  induction h with
  | refl => exact ⟨covers_sequencerNames root, coherent_empty⟩
  | tail _ huv ih =>
    obtain ⟨hp, hu⟩ := ih
    have he := huv.edge
    cases huv with
    | trigger ht _ _ => exact ⟨hp.erase hc he, ht.coherent hc hfix hp hu⟩

theorem map_fst_call (h : c.Leads (c.rootCall root) u) (p : Progress α) :
    (c.call u).map Prod.fst = (compile u.name p).map Prod.fst := by
  obtain ⟨hp, hu⟩ := h.coherent hc hfix
  rw [call, (alike_compileSequencer hc hfix hp hu).map_fst]
  exact (alike_of_fixed hc hfix u.name u.progress p).map_fst

theorem map_fst_turn (h : c.Leads (c.rootCall root) u) {config : Sequencer α} {before after : Nat}
    {channel : Channel α} (ht : c.Turn u.pending u.name u.progress config before after channel q)
    (p : Progress α) :
    (c.channelWaveform (c.compileSequencer (u.pending.erase u.name)) config.timeStep channel before
        after q).map Prod.fst
      = (c.channelWaveform compile config.timeStep channel before after p).map Prod.fst := by
  obtain ⟨hp, hu⟩ := h.coherent hc hfix
  have hq := ht.coherent hc hfix hp hu
  -- first the same progress with the other way to compile, then the other progress
  have hsame : Alike (fun q r => q = r ∧ c.Coherent compile q)
      (c.channelWaveform (c.compileSequencer (u.pending.erase u.name)) config.timeStep channel
        before after q)
      (c.channelWaveform compile config.timeStep channel before after q) := by
    apply alike_channelWaveform
    . rintro r _ lane ⟨rfl, hr⟩
      exact ⟨rfl, hr.read lane⟩
    . exact ⟨rfl, hq⟩
    . intro device hd
      exact alike_compileSequencer hc hfix (hp.erase hc (ht.edge hd)) hq
  have hother : Alike (fun _ _ => True)
      (c.channelWaveform compile config.timeStep channel before after q)
      (c.channelWaveform compile config.timeStep channel before after p) :=
    alike_channelWaveform (fun _ _ _ _ => trivial) trivial
      fun device _ => alike_of_fixed hc hfix device q p
  exact hsame.map_fst.trans hother.map_fst

end Coherent

/--
Looking up sequencers that have been compiled changes nothing, as long as no sequencer triggers
itself through others.
-/
theorem sharesResults (hc : c.IsAcyclic) (root : String) : c.SharesResults root where
  outcome otherwise depth hd := by
    have hfix := recompile_recompileWithin hc otherwise hd
    have hrun : c.compileSequencer (sequencerNames c.devices) root {}
        = c.recompileWithin otherwise depth root {} := by
      apply Alike.eq
      apply (alike_compileSequencer hc hfix (covers_sequencerNames root) coherent_empty).mono
      exact fun _ _ h => h.1
    unfold compileSequencers recompileSequencers
    rw [StateT.run, StateT.run, hrun]
  instruction otherwise _ _ hd h := map_fst_call hc (recompile_recompileWithin hc otherwise hd) h {}
  waveform otherwise _ _ _ _ _ _ _ hd h ht :=
    map_fst_turn hc (recompile_recompileWithin hc otherwise hd) h ht {}

section Shots

attribute [local instance] Exact.zeroFunctions

/--
A sequencer that clocks other ones, one on each channel.
-/
def clocking (step : TimeStep) (trigger : Trigger) (devices : List String) : Sequencer Exact :=
  ⟨step, trigger, devices.map fun device => .digital "clock" (.deviceTrigger device none)⟩

def fourMicroseconds : TimeStep := ⟨4000, by decide⟩

/--
A sequencer that is clocked by two others, by one of them on two channels.
-/
def sharedShot : ShotContext Exact where
  lanes := ⟨[("gate", .digital [⟨.literal true, 1⟩])]⟩
  devices := ⟨[
    ("left", .sequencer
      (clocking twoMicroseconds (.externalClockOnChange .rising) ["slave", "slave"])),
    ("master", .sequencer (clocking .microsecond .software ["left", "right"])),
    ("right", .sequencer (clocking twoMicroseconds (.externalClockOnChange .rising) ["slave"])),
    ("slave", .sequencer ⟨fourMicroseconds, .externalClockOnChange .rising,
      [.digital "gate" (.laneValues "gate" none)]⟩)]⟩
  times := .ofDurations ["only"] [Number.ofDecimal 4 (-6)]
  scope := .empty

/--
How many triggers away from the root the sequencers of `sharedShot` are.
-/
def distance (name : String) : Nat :=
  if name = "master" then 0 else if name = "slave" then 2 else 1

theorem mem_of_edge_clocking {c : ShotContext Exact} {step : TimeStep} {trigger : Trigger}
    {devices : List String} {a b : String}
    (ha : c.devices.get? a = some (.sequencer (clocking step trigger devices)))
    (h : c.Edge a b) : b ∈ devices := by
  obtain ⟨config, channel, hconfig, hm, hd⟩ := h
  rw [bind_sequencer?_eq_some_iff, ha] at hconfig
  cases hconfig
  obtain ⟨device, hdevice, rfl⟩ := List.mem_map.mp hm
  obtain ⟨_, _, ho, _, _⟩ := (triggers_iff (by rintro y ⟨⟩)).mp hd
  cases ho
  exact hdevice

theorem distance_lt_of_edge {a b : String} (h : sharedShot.Edge a b) : distance a < distance b := by
  obtain ⟨config, channel, hconfig, hm, hd⟩ := id h
  have hmem := Dictionary.mem_of_lookup (bind_sequencer?_eq_some_iff.mp hconfig)
  simp only [sharedShot, List.mem_cons, List.not_mem_nil, or_false, Prod.mk.injEq] at hmem
  rcases hmem with ⟨rfl, _⟩ | ⟨rfl, _⟩ | ⟨rfl, _⟩ | ⟨rfl, hslave⟩
  . have hb := mem_of_edge_clocking rfl h
    have hb : b = "slave" := by simpa using hb
    rw [hb]
    decide
  . have hb := mem_of_edge_clocking rfl h
    have hb : b = "left" ∨ b = "right" := by simpa using hb
    rcases hb with rfl | rfl <;> decide
  . have hb := mem_of_edge_clocking rfl h
    have hb : b = "slave" := by simpa using hb
    rw [hb]
    decide
  . cases hslave
    cases List.mem_singleton.mp hm
    obtain ⟨_, _, ho, _, _⟩ := (triggers_iff (by rintro y ⟨⟩)).mp hd
    contradiction

theorem isAcyclic_sharedShot : sharedShot.IsAcyclic := by
  intro name h
  have hlt : Relation.TransGen (· < ·) (distance name) (distance name) :=
    Relation.TransGen.lift distance (fun _ _ => distance_lt_of_edge) _ _ h
  rw [Relation.transGen_eq_self] at hlt
  exact lt_irrefl _ hlt

theorem sharesResults_sharedShot : sharedShot.IsAcyclic ∧ sharedShot.SharesResults "master"
    ∧ (sharedShot.compileSequencers "master").isOk = true := by
  refine ⟨isAcyclic_sharedShot, sharesResults isAcyclic_sharedShot "master", ?_⟩
  unfold compileSequencers
  rw [← compileWithin_nil (by decide) (fun _ => throw .noRootSequencer) (Nat.lt_succ_self 4)]
  decide +kernel

end Shots

end Waveplan.ShotContext
