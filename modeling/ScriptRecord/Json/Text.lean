import ScriptRecord.Text.Hex
import ScriptRecord.Text.Utf16
/-!
# JSON strings

Strings between double quotes. Escapes may spell out code units, and a string whose surrogates do
not pair up can be skipped but has no value.
-/

namespace ScriptRecord.Json

/-- What stands for one step of a string: a character, or a code unit that is spelled out. -/
inductive Piece where
  | char (c : Char)
  | unit (u : UInt16)
  deriving DecidableEq, Repr

/-- The character of a one-letter escape. -/
def escaped? (c : Char) : Option Char :=
  match c with
  | '"' => some '"'
  | '\\' => some '\\'
  | '/' => some '/'
  | 'b' => some '\x08'
  | 'f' => some '\x0C'
  | 'n' => some '\n'
  | 'r' => some '\r'
  | 't' => some '\t'
  | _ => none

/-- The pieces of a string up to its closing quote, after those in `done` in reverse, and what
follows the quote. Controls may not stand in a string. -/
def piecesOnto (done : List Piece) : List Char → Option (List Piece × List Char)
  | '"' :: rest => some (done.reverse, rest)
  | '\\' :: 'u' :: a :: b :: c :: d :: rest =>
    match Hex.valueFrom? 0 [a, b, c, d] with
    | some n => piecesOnto (.unit (UInt16.ofNat n) :: done) rest
    | none => none
  | '\\' :: c :: rest =>
    match escaped? c with
    | some e => piecesOnto (.char e :: done) rest
    | none => none
  | c :: rest => if c.toNat < 0x20 ∨ c = '\\' then none else piecesOnto (.char c :: done) rest
  | [] => none

/-- The characters of pieces, if every lead surrogate is followed by a trail and no trail stands
alone. -/
def joinOnto? (done : List Char) : List Piece → Option (List Char)
  | [] => some done.reverse
  | .char c :: rest => joinOnto? (c :: done) rest
  | .unit u :: rest =>
    if Utf16.isLead u then
      match rest with
      | .unit v :: rest => if Utf16.isTrail v then joinOnto? (Utf16.pair u v :: done) rest else none
      | _ => none
    else if Utf16.isTrail u then none
    else joinOnto? (Char.ofNat u.toNat :: done) rest

/-- The value of a string, if it has one. -/
def textOf? (pieces : List Piece) : Option String :=
  (joinOnto? [] pieces).map String.ofList

/-- A character of a string as it is written. -/
def escape (c : Char) : List Char :=
  if c = '"' ∨ c = '\\' then ['\\', c]
  else if c = '\x08' then ['\\', 'b']
  else if c = '\x0C' then ['\\', 'f']
  else if c = '\n' then ['\\', 'n']
  else if c = '\r' then ['\\', 'r']
  else if c = '\t' then ['\\', 't']
  else if c.toNat < 0x20 then
    ['\\', 'u', '0', '0', Hex.lowerDigit (c.toNat / 16), Hex.lowerDigit (c.toNat % 16)]
  else [c]

/-- A string as it is written. -/
def quote (text : String) : String :=
  String.ofList ('"' :: text.toList.flatMap escape ++ ['"'])

end ScriptRecord.Json
