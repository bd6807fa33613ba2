import Waveplan.Config.Shot
import Waveplan.Document.Json

/-!
This module contains reports about a compiled shot: a summary of all devices, as a text or in JSON,
and the values of one sequencer at every tick.
-/

namespace Waveplan

variable {α : Type} [Number α]

namespace SequencerParameters

def channelNames (p : SequencerParameters α) : List String :=
  p.sequence.sampleType.names.getD []

def summaryLines (name : String) (p : SequencerParameters α) : List String :=
  [s!"sequencer '{name}': {p.sequence.length} ticks of " ++ p.timeStep.text
      ++ s!", depth {p.sequence.depth}, " ++ p.trigger.text ++ " trigger",
    "  channels: " ++ ", ".intercalate p.channelNames]

def summary (name : String) (p : SequencerParameters α) : Document α :=
  .list [.text name,
    .record [("time_step_ns", p.timeStep.document), ("trigger", p.trigger.document),
      ("ticks", .nat p.sequence.length), ("depth", .nat p.sequence.depth),
      ("channels", .list (p.channelNames.map .text)), ("instruction", .text p.sequence.text)]]

def table (p : SequencerParameters α) : List String :=
  let pattern := p.sequence.toPattern
  let row (sample : Sample α) (tick : Nat) : String :=
    s!"{tick}," ++ ",".intercalate (sample.values.map Scalar.text)
  ("tick," ++ ",".intercalate p.channelNames) :: pattern.samples.mapIdx fun i s => row s i

end SequencerParameters

namespace CameraParameters

def summaryLines (name : String) (p : CameraParameters α) : List String :=
  s!"camera '{name}': {p.pictureNames.length} picture(s)"
    :: (p.pictureNames.zip p.exposures).map fun (picture, exposure) =>
      s!"  {picture}: " ++ Number.text exposure ++ " s"

def summary (name : String) (p : CameraParameters α) : Document α :=
  .list [.text name,
    .record [("picture_names", .list (p.pictureNames.map .text)),
      ("exposures", .list (p.exposures.map .float))]]

end CameraParameters

namespace ShotParameters

def summaryLines (p : ShotParameters α) : List String :=
  ("shot duration: " ++ Number.text p.duration ++ " s")
    :: (p.sequencers.entries.flatMap fun (name, s) => s.summaryLines name)
    ++ (p.cameras.entries.flatMap fun (name, c) => c.summaryLines name)

def summary (p : ShotParameters α) : Document α :=
  .record [("duration", .float p.duration),
    ("sequencers", .list (p.sequencers.entries.map fun (name, s) => s.summary name)),
    ("cameras", .list (p.cameras.entries.map fun (name, c) => c.summary name))]

end ShotParameters

end Waveplan
