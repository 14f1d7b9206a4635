import ScriptRecord.Json.Text
/-!
# JSON values

Values as they are written: the members of an object keep their order, and a name may occur more
than once.
-/

namespace ScriptRecord.Json

/-- A value. Of numbers nothing is kept but that they are there. A string is none if its surrogates
do not pair up. -/
inductive Value where
  | null
  | bool (b : Bool)
  | number
  | string (text : Option String)
  | array (items : List Value)
  | object (members : List (Option String × Value))

/-- Drop white space. -/
def skipBlank (s : List Char) : List Char :=
  s.dropWhile fun c => c == ' ' || c == '\t' || c == '\n' || c == '\r'

/-- Drop one digit or more. -/
def digits? (s : List Char) : Option (List Char) :=
  match s with
  | c :: rest => if c.isDigit then some (rest.dropWhile Char.isDigit) else none
  | [] => none

/-- Drop the whole part of a number: no zero stands in front of another digit. -/
def whole? : List Char → Option (List Char)
  | '0' :: rest => if rest.head?.any Char.isDigit then none else some rest
  | s => digits? s

/-- Drop the part of a number behind the point, if there is one. -/
def fraction? : List Char → Option (List Char)
  | '.' :: rest => digits? rest
  | s => some s

/-- Drop the exponent of a number, if there is one. -/
def exponent? : List Char → Option (List Char)
  | c :: rest =>
    if c = 'e' ∨ c = 'E' then
      match rest with
      | '+' :: rest | '-' :: rest => digits? rest
      | rest => digits? rest
    else some (c :: rest)
  | [] => some []

/-- Drop a number. -/
def number? : List Char → Option (List Char)
  | '-' :: rest => (whole? rest).bind fun s => (fraction? s).bind exponent?
  | s => (whole? s).bind fun s => (fraction? s).bind exponent?

mutual

/-- Read a value that takes no more than `fuel` characters. -/
def read (fuel : Nat) (s : List Char) : Option (Value × List Char) :=
  match fuel with
  | 0 => none
  | fuel + 1 =>
    match skipBlank s with
    | '\x7b' :: rest =>
      match skipBlank rest with
      | '\x7d' :: rest => some (.object [], rest)
      | rest => readMembers fuel [] rest
    | '[' :: rest =>
      match skipBlank rest with
      | ']' :: rest => some (.array [], rest)
      | rest => readItems fuel [] rest
    | '"' :: rest => (piecesOnto [] rest).map fun (pieces, rest) => (.string (textOf? pieces), rest)
    | 't' :: 'r' :: 'u' :: 'e' :: rest => some (.bool true, rest)
    | 'f' :: 'a' :: 'l' :: 's' :: 'e' :: rest => some (.bool false, rest)
    | 'n' :: 'u' :: 'l' :: 'l' :: rest => some (.null, rest)
    | s => (number? s).map fun rest => (.number, rest)

/-- Read items up to the end of the array, after those in `done` in reverse. -/
def readItems (fuel : Nat) (done : List Value) (s : List Char) : Option (Value × List Char) :=
  match fuel with
  | 0 => none
  | fuel + 1 =>
    match read fuel s with
    | none => none
    | some (item, rest) =>
      match skipBlank rest with
      | ',' :: rest => readItems fuel (item :: done) rest
      | ']' :: rest => some (.array (item :: done).reverse, rest)
      | _ => none

/-- Read members up to the end of the object, after those in `done` in reverse. -/
def readMembers (fuel : Nat) (done : List (Option String × Value)) (s : List Char) :
    Option (Value × List Char) :=
  match fuel with
  | 0 => none
  | fuel + 1 =>
    match skipBlank s with
    | '"' :: rest =>
      match piecesOnto [] rest with
      | none => none
      | some (pieces, rest) =>
        match skipBlank rest with
        | ':' :: rest =>
          match read fuel rest with
          | none => none
          | some (value, rest) =>
            let done := (textOf? pieces, value) :: done
            match skipBlank rest with
            | ',' :: rest => readMembers fuel done rest
            | '\x7d' :: rest => some (.object done.reverse, rest)
            | _ => none
        | _ => none
    | _ => none

end

/-- Read a text that holds one value and nothing else. -/
def parse? (text : String) : Option Value :=
  let s := text.toList
  match read (s.length + 1) s with
  | some (value, rest) => if (skipBlank rest).isEmpty then some value else none
  | none => none

end ScriptRecord.Json
