/-!
# Fixed-point text

A binary number with 32 bits, written with two decimals. The exact value is rounded to the nearest
hundredth, and a tie goes to the even one.
-/

namespace ScriptRecord.FixedPoint

/-- The quotient nearest to `num / den`, the even one of two. -/
def roundDiv (num den : Nat) : Nat :=
  let q := num / den
  let twice := 2 * (num % den)
  if twice < den then q
  else if den < twice then q + 1
  else q + q % 2

/-- A finite number without its sign: `mantissa * 2 ^ (exponent - 149)`. -/
structure Magnitude where
  mantissa : Nat
  exponent : Nat

/-- The number of hundredths nearest to a magnitude. -/
def Magnitude.hundredths (x : Magnitude) : Nat :=
  roundDiv (x.mantissa * 100 * Nat.pow 2 x.exponent) (Nat.pow 2 149)

/-- The fields of a pattern of bits, sign aside; none for an infinity or a NaN. -/
def magnitude? (bits : UInt32) : Option Magnitude :=
  let n := bits.toNat % 0x80000000
  let exponent := n / 0x800000
  let fraction := n % 0x800000
  if exponent = 255 then none
  else if exponent = 0 then some ⟨fraction, 0⟩
  else some ⟨fraction + 0x800000, exponent - 1⟩

/-- A number of hundredths with a point before the last two digits. -/
def pointed (hundredths : Nat) : String :=
  let rest := hundredths % 100
  toString (hundredths / 100) ++ "." ++ toString (rest / 10) ++ toString (rest % 10)

/-- The number with these bits, with two decimals. The sign of zero is kept and that of a NaN
is not. -/
def twoDecimals (bits : UInt32) : String :=
  let sign := if 0x80000000 ≤ bits.toNat then "-" else ""
  match magnitude? bits with
  | some x => sign ++ pointed x.hundredths
  | none => if bits.toNat % 0x800000 = 0 then sign ++ "inf" else "NaN"

end ScriptRecord.FixedPoint
