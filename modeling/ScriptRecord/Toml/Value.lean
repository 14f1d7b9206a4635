import ScriptRecord.Toml.Scalar
import ScriptRecord.Toml.Text
/-!
# TOML values

Values, the tables they form, and the rules by which keys add to a table: nothing is defined twice,
and a table that was written out in one way is not added to in another.
-/

namespace ScriptRecord.Toml

/-- How a table came to be. -/
inductive Origin where
  /-- Written out as a value. -/
  | inline
  /-- Under a header of its own. -/
  | header
  /-- On the way to a table with a header. -/
  | above
  /-- On the way to a dotted key. -/
  | dotted
  deriving DecidableEq, Repr

/-- A value. Of scalars other than strings nothing is kept but that they are there. -/
inductive Value where
  | scalar
  | string (text : String)
  | array (items : List Value)
  | table (origin : Origin) (members : List (String × Value))
  /-- Tables under headers in double brackets. -/
  | tables (list : List (List (String × Value)))

abbrev Members := List (String × Value)

namespace Members

/-- Put a value in the place of the one that a key has, or at the end. -/
def set (key : String) (value : Value) : Members → Members
  | [] => [(key, value)]
  | member :: rest =>
    if member.1 = key then (key, value) :: rest else member :: set key value rest

/-- Change the table that a path leads to; tables that are missing on the way are made with
`origin`. No path leads through a value, and that of a dotted key leads through no table that has a
header. -/
def change? (origin : Origin) (f : Origin → Members → Option Members) :
    List String → Origin → Members → Option Members
  | [], own, members => f own members
  | key :: path, _, members =>
    match members.lookup key with
    | none => do
      return members.set key (.table origin (← change? origin f path origin []))
    | some (.table own inner) =>
      if own = .inline ∨ (origin = .dotted ∧ own = .header) then none
      else do return members.set key (.table own (← change? origin f path own inner))
    | some (.tables list) =>
      match list.getLast? with
      | none => none
      | some inner => do
        return members.set key (.tables (list.dropLast ++ [← change? origin f path .header inner]))
    | some _ => none

/-- Add a value under a dotted key. The last part must be new, in a table that such keys make. -/
def add? (path : List String) (key : String) (value : Value) : Members → Option Members :=
  change? .dotted
    (fun own members =>
      if path ≠ [] ∧ own ≠ .dotted then none
      else if (members.lookup key).isSome then none
      else some (members ++ [(key, value)]))
    path .inline

/-- Open the table under a header. It may exist only because it lies above another one. -/
def openTable? (path : List String) (key : String) : Members → Option Members :=
  change? .above
    (fun _ members =>
      match members.lookup key with
      | none => some (members.set key (.table .header []))
      | some (.table .above inner) => some (members.set key (.table .header inner))
      | some _ => none)
    path .header

/-- Open one more table under a header in double brackets. -/
def openItem? (path : List String) (key : String) : Members → Option Members :=
  change? .above
    (fun _ members =>
      match members.lookup key with
      | none => some (members.set key (.tables [[]]))
      | some (.tables list) => some (members.set key (.tables (list ++ [[]])))
      | some _ => none)
    path .header

end Members

/-- How deep values and keys may nest. -/
def deepest : Nat := 79

/-- A character of a key without quotes. -/
def isBare (c : Char) : Bool :=
  c.isAlphanum || c == '-' || c == '_'

/-- Read one part of a key. -/
def keyPart? : List Char → Option (String × List Char)
  | '"' :: rest => (basicOnto [] rest).map fun (text, rest) => (String.ofList text, rest)
  | '\'' :: rest => (literalOnto [] rest).map fun (text, rest) => (String.ofList text, rest)
  | s =>
    let (text, rest) := s.span isBare
    if text.isEmpty then none else some (String.ofList text, rest)

/-- Read a key with dots, and the blanks around its parts. The answer is the path and the last
part. -/
def key? (fuel : Nat) (s : List Char) : Option ((List String × String) × List Char) :=
  match fuel with
  | 0 => none
  | fuel + 1 =>
    match keyPart? (skipSpace s) with
    | none => none
    | some (part, rest) =>
      match skipSpace rest with
      | '.' :: rest => (key? fuel rest).map fun ((path, last), rest) => ((part :: path, last), rest)
      | rest => some (([], part), rest)

/-- Drop a comment up to the end of its line, if there is one. -/
def skipComment : List Char → List Char
  | '#' :: rest => rest.dropWhile isPlain
  | s => s

/-- Drop blanks, comments and ends of lines. -/
def skipLines (fuel : Nat) (s : List Char) : List Char :=
  match fuel with
  | 0 => s
  | fuel + 1 =>
    let s := skipSpace s
    match lineEnd? (skipComment s) with
    | some rest => skipLines fuel rest
    | none => s

mutual

/-- Read a value that takes no more than `fuel` steps and nests no deeper than `depth`. -/
def value? (fuel depth : Nat) (s : List Char) : Option (Value × List Char) :=
  match fuel with
  | 0 => none
  | fuel + 1 =>
    match s with
    | '[' :: rest =>
      match depth with
      | 0 => none
      | depth + 1 => items? fuel depth [] rest
    | '\x7b' :: rest =>
      match depth with
      | 0 => none
      | depth + 1 =>
        match skipSpace rest with
        | '\x7d' :: rest => some (.table .inline [], rest)
        | rest => members? fuel depth [] rest
    | '"' :: _ | '\'' :: _ =>
      (string? s).map fun (text, rest) => (.string (String.ofList text), rest)
    | s => (scalar? s).map fun rest => (.scalar, rest)

/-- Read items up to the end of the array, after those in `done` in reverse. A comma may stand
after the last one. -/
def items? (fuel depth : Nat) (done : List Value) (s : List Char) : Option (Value × List Char) :=
  match fuel with
  | 0 => none
  | fuel + 1 =>
    match skipLines s.length s with
    | ']' :: rest => some (.array done.reverse, rest)
    | s =>
      match value? fuel depth s with
      | none => none
      | some (item, rest) =>
        match skipLines rest.length rest with
        | ',' :: rest => items? fuel depth (item :: done) rest
        | ']' :: rest => some (.array (item :: done).reverse, rest)
        | _ => none

/-- Read members up to the end of the table, after those in `done`. -/
def members? (fuel depth : Nat) (done : Members) (s : List Char) : Option (Value × List Char) :=
  match fuel with
  | 0 => none
  | fuel + 1 =>
    match key? (min s.length deepest) s with
    | some ((path, key), '=' :: rest) =>
      match value? fuel depth (skipSpace rest) with
      | none => none
      | some (value, rest) =>
        match done.add? path key value with
        | none => none
        | some done =>
          match skipSpace rest with
          | ',' :: rest => members? fuel depth done rest
          | '\x7d' :: rest => some (.table .inline done, rest)
          | _ => none
    | _ => none

end

end ScriptRecord.Toml
