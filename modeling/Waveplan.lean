import Waveplan.CommandLine.Basic
import Waveplan.Instruction.Normal
import Waveplan.Main
import Waveplan.Proofs.Calibration.Range
import Waveplan.Proofs.Clock.Division
import Waveplan.Proofs.Clock.Target
import Waveplan.Proofs.Config.Shot
import Waveplan.Proofs.Expression.Call
import Waveplan.Proofs.Expression.Ending
import Waveplan.Proofs.Expression.ReadBack
import Waveplan.Proofs.Expression.Scanner
import Waveplan.Proofs.Instruction.Apply
import Waveplan.Proofs.Instruction.Budget
import Waveplan.Proofs.Instruction.Built
import Waveplan.Proofs.Instruction.Cut
import Waveplan.Proofs.Instruction.Depth
import Waveplan.Proofs.Instruction.Grouping
import Waveplan.Proofs.Instruction.Leafwise
import Waveplan.Proofs.Instruction.Lookup
import Waveplan.Proofs.Instruction.Regroup
import Waveplan.Proofs.Instruction.Repetition
import Waveplan.Proofs.Instruction.Size
import Waveplan.Proofs.Lane.Camera
import Waveplan.Proofs.Lane.Digital
import Waveplan.Proofs.Lane.Durations
import Waveplan.Proofs.Lane.Ranges
import Waveplan.Proofs.Shot.Attribution
import Waveplan.Proofs.Shot.Duration
import Waveplan.Proofs.Shot.Rescale
import Waveplan.Proofs.Shot.Room
import Waveplan.Proofs.Shot.Sharing
