import ScriptRecord.Key
import ScriptRecord.Text.Blank
import Std.Data.HashMap
/-!
# Name lists

Tables from keys to names, the text form of a list of names, and the look-up of a key in two
tables of which the first wins.
-/

namespace ScriptRecord

/-- A finite table from keys to names. -/
structure NameTable where
  names : Std.HashMap Key String

namespace NameTable

def empty : NameTable := ⟨{}⟩

instance : Inhabited NameTable := ⟨empty⟩

/-- Enter a name under a key. The last name entered for a key counts. -/
def insert (table : NameTable) (key : Key) (name : String) : NameTable :=
  ⟨table.names.insert key name⟩

/-- Enter a name under its own key. -/
def insertName (table : NameTable) (name : String) : NameTable :=
  table.insert (Key.ofName name) name

def get? (table : NameTable) (key : Key) : Option String :=
  table.names[key]?

/-- Number of keys with a name. -/
def size (table : NameTable) : Nat :=
  table.names.size

def isEmpty (table : NameTable) : Bool :=
  table.names.isEmpty

def ofList (pairs : List (Key × String)) : NameTable :=
  pairs.foldl (fun table pair => table.insert pair.1 pair.2) empty

/-- What one line of a name list enters. Lines that are blank or start with a number sign enter
nothing. A first word that is a written key names the rest of the line; any other line is a name
as a whole. -/
def entryOfLine? (line : List Char) : Option (Key × String) :=
  let line := Text.trim line
  if line.isEmpty ∨ line.head? = some '#' then none
  else
    let whole := (Key.ofChars line, String.ofList line)
    match line.span (fun c => !Text.isBlank c) with
    | (_, []) => some whole
    | (first, _ :: rest) =>
      match Key.ofHexChars? first with
      | some key => some (key, String.ofList (Text.trim rest))
      | none => some whole

/-- The entries of a name list, one line each. -/
def entriesOfText (text : List Char) : List (Key × String) :=
  (text.splitOn '\n').filterMap entryOfLine?

/-- Read a name list. -/
def parse (text : String) : NameTable :=
  ofList (entriesOfText text.toList)

end NameTable

/-- Two tables consulted in turn. -/
structure Names where
  overrides : NameTable := .empty
  global : NameTable := .empty
  deriving Inhabited

namespace Names

/-- The name of a key in the first table that has one. -/
def lookup? (names : Names) (key : Key) : Option String :=
  (names.overrides.get? key).or (names.global.get? key)

/-- The name of a key, or a dollar sign and its digits. -/
def resolve (names : Names) (key : Key) : String :=
  (names.lookup? key).getD ("$" ++ key.toHex)

end Names

end ScriptRecord
