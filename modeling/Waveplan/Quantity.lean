import Waveplan.Sample.Scalar

/-!
This module contains the physical units that channels are configured with, and the values that
expressions have: booleans, plain numbers and quantities.
-/

namespace Waveplan

inductive Dimension where
  | time | frequency | voltage | current | power
  /-- A logarithmic ratio, which counts as dimensionless. -/
  | decibel
  deriving DecidableEq, Repr

def Dimension.name : Dimension → String
  | .time => "Time"
  | .frequency => "Frequency"
  | .voltage => "Voltage"
  | .current => "Current"
  | .power => "Power"
  | .decibel => "Decibel"

inductive PhysicalUnit where
  | second | millisecond | microsecond | nanosecond
  | hertz | kilohertz | megahertz | gigahertz
  | volt | millivolt
  | ampere | milliampere
  | watt | milliwatt
  | decibel
  deriving DecidableEq, Repr

inductive UnitError where
  | unknown (symbol : String)
  | incompatible (source target : PhysicalUnit)
  | missingUnit (unit : PhysicalUnit) (value : String)
  | unexpectedUnit (value : String)
  | notNumeric (value : String)
  deriving DecidableEq, Repr

namespace PhysicalUnit

def all : List PhysicalUnit :=
  [.second, .millisecond, .microsecond, .nanosecond, .hertz, .kilohertz, .megahertz, .gigahertz,
    .volt, .millivolt, .ampere, .milliampere, .watt, .milliwatt, .decibel]

def symbol : PhysicalUnit → String
  | .second => "s"
  | .millisecond => "ms"
  | .microsecond => "us"
  | .nanosecond => "ns"
  | .hertz => "Hz"
  | .kilohertz => "kHz"
  | .megahertz => "MHz"
  | .gigahertz => "GHz"
  | .volt => "V"
  | .millivolt => "mV"
  | .ampere => "A"
  | .milliampere => "mA"
  | .watt => "W"
  | .milliwatt => "mW"
  | .decibel => "dB"

def name : PhysicalUnit → String
  | .second => "Second"
  | .millisecond => "Millisecond"
  | .microsecond => "Microsecond"
  | .nanosecond => "Nanosecond"
  | .hertz => "Hertz"
  | .kilohertz => "Kilohertz"
  | .megahertz => "Megahertz"
  | .gigahertz => "Gigahertz"
  | .volt => "Volt"
  | .millivolt => "Millivolt"
  | .ampere => "Ampere"
  | .milliampere => "Milliampere"
  | .watt => "Watt"
  | .milliwatt => "Milliwatt"
  | .decibel => "Decibel"

/--
The unit with a symbol. Microseconds may be written with either of the two characters for mu.
-/
def ofSymbol? (s : String) : Option PhysicalUnit :=
  if s = "µs" ∨ s = "μs" then some .microsecond else all.find? (·.symbol = s)

def ofSymbol (s : String) : Except UnitError PhysicalUnit :=
  match ofSymbol? s with
  | some unit => .ok unit
  | none => .error (.unknown s)

def dimension : PhysicalUnit → Dimension
  | .second | .millisecond | .microsecond | .nanosecond => .time
  | .hertz | .kilohertz | .megahertz | .gigahertz => .frequency
  | .volt | .millivolt => .voltage
  | .ampere | .milliampere => .current
  | .watt | .milliwatt => .power
  | .decibel => .decibel

/--
The unit that the others of a dimension are measured in.
-/
def base (unit : PhysicalUnit) : PhysicalUnit :=
  match unit.dimension with
  | .time => .second
  | .frequency => .hertz
  | .voltage => .volt
  | .current => .ampere
  | .power => .watt
  | .decibel => .decibel

/--
The power of ten of base units that make one of a unit.
-/
def exponent : PhysicalUnit → Int
  | .second | .hertz | .volt | .ampere | .watt | .decibel => 0
  | .millisecond | .millivolt | .milliampere | .milliwatt => -3
  | .microsecond => -6
  | .nanosecond => -9
  | .kilohertz => 3
  | .megahertz => 6
  | .gigahertz => 9

/--
How many base units make one of a unit.
-/
def scale {α : Type} [Number α] (unit : PhysicalUnit) : α := Number.ofDecimal 1 unit.exponent

/--
An optional unit as it stands in messages.
-/
def describe? : Option PhysicalUnit → String
  | some unit => "Some(" ++ unit.name ++ ")"
  | none => "None"

@[simp]
theorem dimension_base (unit : PhysicalUnit) : unit.base.dimension = unit.dimension := by
  cases unit <;> rfl

@[simp]
theorem base_base (unit : PhysicalUnit) : unit.base.base = unit.base := by
  cases unit <;> rfl

theorem ofSymbol?_symbol (unit : PhysicalUnit) : ofSymbol? unit.symbol = some unit := by
  cases unit <;> decide

end PhysicalUnit

def UnitError.message : UnitError → String
  | .unknown symbol => s!"unknown unit '{symbol}'"
  | .incompatible source target =>
    "cannot convert from " ++ source.symbol ++ " to " ++ target.symbol
  | .missingUnit unit value => "expected a value in " ++ unit.symbol ++ ", got " ++ value
  | .unexpectedUnit value => "expected a dimensionless value, got " ++ value
  | .notNumeric value => "expected a numeric value, got " ++ value

/--
Convert a magnitude between two units of one dimension.
-/
def convertMagnitude {α : Type} [Number α] (x : α) (source target : PhysicalUnit) :
    Except UnitError α :=
  if source = target then .ok x
  else if source.dimension = target.dimension then .ok (x * source.scale / target.scale)
  else .error (.incompatible source target)

structure Quantity (α : Type) where
  magnitude : α
  unit : PhysicalUnit
  deriving BEq, Repr

namespace Quantity

variable {α : Type} [Number α]

def convert (q : Quantity α) (unit : PhysicalUnit) : Except UnitError (Quantity α) := do
  let magnitude ← convertMagnitude q.magnitude q.unit unit
  .ok ⟨magnitude, unit⟩

def toBase (q : Quantity α) : Quantity α := ⟨q.magnitude * q.unit.scale, q.unit.base⟩

def text (q : Quantity α) : String := Number.text q.magnitude ++ " " ++ q.unit.symbol

end Quantity

inductive Value (α : Type) where
  | bool (value : Bool)
  | number (value : α)
  | quantity (value : Quantity α)
  deriving BEq, Repr

namespace Value

variable {α : Type}

def isBool : Value α → Bool
  | .bool _ => true
  | _ => false

def seconds (x : α) : Value α := .quantity ⟨x, .second⟩

variable [Number α]

/--
The value in base units, `true` being one.
-/
def baseMagnitude : Value α → α
  | .bool b => Number.ofBool b
  | .number x => x
  | .quantity q => q.toBase.magnitude

/--
The base unit of a quantity.
-/
def baseUnit? : Value α → Option PhysicalUnit
  | .quantity q => some q.unit.base
  | _ => none

def text : Value α → String
  | .bool b => toString b
  | .number x => Number.text x
  | .quantity q => q.text

/--
The value expressed in a unit. Without a unit it must be a boolean or a plain number; decibels
count as plain numbers.
-/
def inUnit (value : Value α) (unit : Option PhysicalUnit) : Except UnitError (Scalar α) :=
  match value, unit with
  | .bool b, none => .ok (.bool b)
  | .bool _, some _ => .error (.notNumeric value.text)
  | .number x, none => .ok (.float x)
  | .number x, some unit =>
    if unit = .decibel then .ok (.float x) else .error (.missingUnit unit value.text)
  | .quantity q, some unit => do
    let converted ← q.convert unit
    .ok (.float converted.magnitude)
  | .quantity q, none =>
    if q.unit = .decibel then .ok (.float q.magnitude) else .error (.unexpectedUnit value.text)

end Value

end Waveplan
