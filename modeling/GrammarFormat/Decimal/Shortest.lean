/-!
# Shortest decimals

The decimal with the fewest digits that lies closer to a given binary number than to any other one
of the same precision, and its positional text.
-/

namespace GrammarFormat

/-- The number `digits · 10 ^ exponent`. -/
structure Decimal where
  digits : Nat
  exponent : Int
  deriving DecidableEq, Repr

/-- The number `mantissa · 2 ^ exponent`. -/
structure Binary where
  mantissa : Nat
  exponent : Int
  deriving DecidableEq, Repr

namespace Binary

/-- The leading digit of the mantissa, which is not stored. -/
def hiddenDigit : Nat := 0x10000000000000

/-- The size of a finite float of 64 bits, from its bits without the sign. -/
def ofBits (bits : Nat) : Binary :=
  let fraction := bits % hiddenDigit
  match bits / hiddenDigit with
  | 0 => ⟨fraction, -1074⟩
  | biased => ⟨fraction + hiddenDigit, (biased : Int) - 1075⟩

/-- Both sides of `a · 2 ^ p` against `b · 10 ^ e` as whole numbers. -/
def scaled (a : Nat) (p : Int) (b : Nat) (e : Int) : Nat × Nat :=
  (a * Nat.pow 2 p.toNat * Nat.pow 10 (-e).toNat, b * Nat.pow 10 e.toNat * Nat.pow 2 (-p).toNat)

/-- Whether `d` is read back as `x`: it lies between the points halfway to the neighbours of `x`,
and a halfway point itself counts for an even mantissa. All is in quarters of the last place; the
neighbour below is nearer where the mantissa has just got its last digit. -/
def reads (x : Binary) (d : Decimal) : Bool :=
  let below := if x.mantissa = hiddenDigit ∧ -1074 < x.exponent then 1 else 2
  let (low, atLow) := scaled (4 * x.mantissa - below) (x.exponent - 2) d.digits d.exponent
  let (high, atHigh) := scaled (4 * x.mantissa + 2) (x.exponent - 2) d.digits d.exponent
  if x.mantissa % 2 = 0 then low ≤ atLow && atHigh ≤ high else low < atLow && atHigh < high

/-- The largest power of ten that is not above `x`, among those of 64-bit floats. -/
def magnitude (x : Binary) : Int :=
  let powers := (List.range 640).map fun (k : Nat) => (310 : Int) - k
  (powers.find? fun e =>
    let (value, power) := scaled x.mantissa x.exponent 1 e
    power ≤ value).getD 0

/-- The neighbour of `x` on the grid of `10 ^ e` that is read back as `x`. If both are, it is the
nearer one, and the upper one if `x` lies halfway. -/
def onGrid? (x : Binary) (e : Int) : Option Decimal :=
  let (value, step) := scaled x.mantissa x.exponent 1 e
  let down : Decimal := ⟨value / step, e⟩
  let up : Decimal := ⟨value / step + 1, e⟩
  match x.reads down, x.reads up with
  | true, true => some (if 2 * (value % step) < step then down else up)
  | true, false => some down
  | false, true => some up
  | false, false => none

/-- The shortest decimal that is read back as `x`. The first grid is that of the power of ten above
`x`, which may be read back as `x` itself; 17 digits always are enough. -/
def shortest (x : Binary) : Decimal :=
  let top := x.magnitude + 1
  ((List.range 18).findSome? fun (k : Nat) => x.onGrid? (top - k)).getD ⟨0, 0⟩

end Binary

/-- The digits written out, with zeros and a point as needed and no exponent. -/
def Decimal.positional (d : Decimal) : String :=
  let digits := Nat.toDigits 10 d.digits
  if 0 ≤ d.exponent then String.ofList (digits ++ List.replicate d.exponent.toNat '0')
  else
    let places := (-d.exponent).toNat
    let padded := List.replicate (places + 1 - digits.length) '0' ++ digits
    let whole := padded.length - places
    String.ofList (padded.take whole ++ '.' :: padded.drop whole)

/-- A float of 64 bits as text: the shortest digits, written out. -/
def Decimal.textOf (x : Float) : String :=
  let bits := x.toBits.toNat
  let signBit := 0x8000000000000000
  let infinite := 0x7FF0000000000000
  let sign := if signBit ≤ bits then "-" else ""
  let size := bits % signBit
  if infinite < size then "NaN"
  else if size = infinite then sign ++ "inf"
  else if size = 0 then sign ++ "0"
  else sign ++ (Binary.ofBits size).shortest.positional

end GrammarFormat
