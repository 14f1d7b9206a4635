/-!
# Hexadecimal text

Numbers as hexadecimal digits, padded with zeros to a least width, and back.
-/

namespace ScriptRecord.Hex

/-- The digit for `n < 16`, in upper case. -/
def upperDigit (n : Nat) : Char :=
  if n < 10 then Char.ofNat (48 + n) else Char.ofNat (55 + n)

/-- The digit for `n < 16`, in lower case. -/
def lowerDigit (n : Nat) : Char :=
  if n < 10 then Char.ofNat (48 + n) else Char.ofNat (87 + n)

/-- The value of a digit of either case. -/
def digitValue? (c : Char) : Option Nat :=
  if '0' ≤ c ∧ c ≤ '9' then some (c.toNat - 48)
  else if 'A' ≤ c ∧ c ≤ 'F' then some (c.toNat - 55)
  else if 'a' ≤ c ∧ c ≤ 'f' then some (c.toNat - 87)
  else none

/-- The digits of `n`, most significant first, at least one. -/
def digits (digit : Nat → Char) (n : Nat) : List Char :=
  if n < 16 then [digit n] else digits digit (n / 16) ++ [digit (n % 16)]

/-- `n` in upper case, padded with zeros to at least `width` digits. -/
def upper (width n : Nat) : String :=
  String.ofList ((digits upperDigit n).leftpad width '0')

/-- A single digit, behind zeros. -/
theorem upper_of_lt {width n : Nat} (h : n < 16) :
    upper width n = String.ofList ([upperDigit n].leftpad width '0') := by
  rw [upper, digits, if_pos h]

/-- `n` in lower case, padded with zeros to at least `width` digits. -/
def lower (width n : Nat) : String :=
  String.ofList ((digits lowerDigit n).leftpad width '0')

/-- The value of a string of digits, read after `high`; none if some character is no digit. -/
def valueFrom? (high : Nat) : List Char → Option Nat
  | [] => some high
  | c :: rest => do valueFrom? (high * 16 + (← digitValue? c)) rest

end ScriptRecord.Hex
