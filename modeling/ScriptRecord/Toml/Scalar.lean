import ScriptRecord.Text.Hex
/-!
# TOML numbers and dates

The scalars of a TOML text other than strings. They are checked and dropped: each function returns
what follows, or none if the text does not start with such a scalar.
-/

namespace ScriptRecord.Toml

/-- Read the digits that follow a first digit, after those in `done` in reverse. An underscore may
stand between two digits. -/
def digitsOnto (isDigit : Char → Bool) (done : List Char) : List Char →
    Option (List Char × List Char)
  | '_' :: c :: rest => if isDigit c then digitsOnto isDigit (c :: done) rest else none
  | c :: rest =>
    if isDigit c then digitsOnto isDigit (c :: done) rest
    else if c = '_' then none
    else some (done.reverse, c :: rest)
  | [] => some (done.reverse, [])

/-- Read one digit or more. -/
def digitRun? (isDigit : Char → Bool) : List Char → Option (List Char × List Char)
  | c :: rest => if isDigit c then digitsOnto isDigit [c] rest else none
  | [] => none

/-- Read a sign, if there is one. The answer is whether it is a minus. -/
def sign : List Char → Bool × List Char
  | '-' :: rest => (true, rest)
  | '+' :: rest => (false, rest)
  | s => (false, s)

/-- Read the digits of a whole number: no zero stands in front of another digit. -/
def whole? : List Char → Option (List Char × List Char)
  | '0' :: rest => some (['0'], rest)
  | s => digitRun? Char.isDigit s

/-- The number that digits of a base stand for. -/
def valueOf (base : Nat) (digits : List Char) : Nat :=
  digits.foldl (fun n c => n * base + (Hex.digitValue? c).getD 0) 0

/-- Drop a whole number. It must fit 64 bits with a sign; in another base than ten it has no sign
of its own. -/
def integer? (s : List Char) : Option (List Char) :=
  let based (base : Nat) (isDigit : Char → Bool) (s : List Char) : Option (List Char) := do
    let (digits, rest) ← digitRun? isDigit s
    if valueOf base digits < 0x8000000000000000 then some rest else none
  match s with
  | '0' :: 'x' :: rest => based 16 (fun c => (Hex.digitValue? c).isSome) rest
  | '0' :: 'o' :: rest => based 8 (fun c => '0' ≤ c && c ≤ '7') rest
  | '0' :: 'b' :: rest => based 2 (fun c => c == '0' || c == '1') rest
  | s => do
    let (negative, s) := sign s
    let (digits, rest) ← whole? s
    if valueOf 10 digits < 0x8000000000000000 + negative.toNat then some rest else none

/-- Read the part of a number behind the point, if there is one. -/
def fraction? : List Char → Option (List Char × List Char)
  | '.' :: rest => digitRun? Char.isDigit rest
  | s => some ([], s)

/-- Read the exponent of a number, if there is one: whether it is negative, and its digits. -/
def exponent? : List Char → Option ((Bool × List Char) × List Char)
  | c :: rest =>
    if c = 'e' ∨ c = 'E' then do
      let (negative, rest) := sign rest
      let (digits, rest) ← digitRun? Char.isDigit rest
      some ((negative, digits), rest)
    else some ((false, []), c :: rest)
  | [] => some ((false, []), [])

/-- Whether `m · 10 ^ (e - f)` is past the largest double and half a step more. -/
def isHuge (m f : Nat) (negative : Bool) (e : Nat) : Bool :=
  let bound := Nat.pow 2 1024 - Nat.pow 2 970
  if m = 0 then false
  else if negative then
    -- The number is at most `m · 10 ^ (-f)`, so an exponent of this size makes it less than one.
    if Nat.log2 m < e then false else bound * Nat.pow 10 (e + f) ≤ m
  else if e < f then bound * Nat.pow 10 (f - e) ≤ m
  else if 400 < e - f then true
  else bound ≤ m * Nat.pow 10 (e - f)

/-- Drop a number with a fraction or an exponent, or one that is infinite or none. A positive
number past all doubles is refused. -/
def float? (s : List Char) : Option (List Char) :=
  let (minus, s) := sign s
  match s with
  | 'i' :: 'n' :: 'f' :: rest => some rest
  | 'n' :: 'a' :: 'n' :: rest => some rest
  | s => do
    let (digits, afterWhole) ← whole? s
    let (places, afterPoint) ← fraction? afterWhole
    let ((negative, power), rest) ← exponent? afterPoint
    if places.isEmpty ∧ power.isEmpty then none
    else if !minus ∧ isHuge (valueOf 10 (digits ++ places)) places.length negative
        (valueOf 10 power) then none
    else some rest

/-- Read a number of two digits. -/
def two? : List Char → Option (Nat × List Char)
  | a :: b :: rest => if a.isDigit ∧ b.isDigit then some (valueOf 10 [a, b], rest) else none
  | _ => none

/-- Drop a character. -/
def skip? (c : Char) : List Char → Option (List Char)
  | d :: rest => if d = c then some rest else none
  | [] => none

/-- Number of days in a month. -/
def daysIn (year month : Nat) : Nat :=
  if month = 2 then
    if year % 4 = 0 ∧ (year % 100 ≠ 0 ∨ year % 400 = 0) then 29 else 28
  else if month = 4 ∨ month = 6 ∨ month = 9 ∨ month = 11 then 30
  else 31

/-- Drop a day. -/
def date? (s : List Char) : Option (List Char) := do
  let (century, s) ← two? s
  let (year, s) ← two? s
  let (month, s) ← two? (← skip? '-' s)
  let (day, s) ← two? (← skip? '-' s)
  if 1 ≤ month ∧ month ≤ 12 ∧ 1 ≤ day ∧ day ≤ daysIn (century * 100 + year) month then some s
  else none

/-- Drop hours and minutes. -/
def hourMinute? (s : List Char) : Option (List Char) := do
  let (hour, s) ← two? s
  let (minute, s) ← two? (← skip? ':' s)
  if hour ≤ 23 ∧ minute ≤ 59 then some s else none

/-- Drop a time of day, with parts of a second if they are given. -/
def time? (s : List Char) : Option (List Char) := do
  let s ← hourMinute? s
  let (second, s) ← two? (← skip? ':' s)
  if 60 < second then none
  else match s with
    | '.' :: c :: rest => if c.isDigit then some (rest.dropWhile Char.isDigit) else some s
    | s => some s

/-- Drop the distance of a zone. -/
def zone? : List Char → Option (List Char)
  | c :: rest =>
    if c = 'Z' ∨ c = 'z' then some rest
    else if c = '+' ∨ c = '-' then hourMinute? rest
    else none
  | [] => none

/-- Drop a day, a time, or both, then with a zone if one is given. -/
def moment? (s : List Char) : Option (List Char) :=
  match date? s with
  | none => time? s
  | some afterDate =>
    match afterDate with
    | c :: rest =>
      if c = 'T' ∨ c = 't' ∨ c = ' ' then
        match time? rest with
        | some afterTime => some ((zone? afterTime).getD afterTime)
        | none => some afterDate
      else some afterDate
    | [] => some []

/-- Drop a boolean. -/
def boolean? : List Char → Option (List Char)
  | 't' :: 'r' :: 'u' :: 'e' :: rest => some rest
  | 'f' :: 'a' :: 'l' :: 's' :: 'e' :: rest => some rest
  | _ => none

/-- Drop a scalar that is no string. -/
def scalar? (s : List Char) : Option (List Char) :=
  (boolean? s).or ((moment? s).or ((float? s).or (integer? s)))

end ScriptRecord.Toml
