import ScriptRecord.Text.Quoted
/-!
# Character sets

The characters that may occur in the text slots of a script. A payload byte stands for the
character of the same value, so only the first 256 characters can be members.
-/

namespace ScriptRecord

/-- A set of the first 256 characters. -/
structure Charset where
  members : Vector Bool 256
  deriving DecidableEq

namespace Charset

/-- The characters of a text that can be members. -/
def ofString (chars : String) : Charset :=
  ⟨Vector.ofFn fun byte => chars.toList.any fun c => c.toNat == byte.val⟩

/-- The members unless a container says otherwise. -/
def standardText : String :=
  "abcdefghijklmnopqrstuvwxyzABCDEFGHIJKLMNOPQRSTUVWXYZ0123456789" ++
    "\\/?!\"\u00a3$%^&*()-+\x7b\x7d[]'#@~><,. =\u00ae\u00a9_"

/-- The standard set. -/
def standard : Charset := ofString standardText

instance : Inhabited Charset := ⟨standard⟩

def containsByte (set : Charset) (byte : UInt8) : Bool :=
  have byte_lt : byte.toNat < 256 := byte.toNat_lt
  set.members[byte.toNat]

def contains (set : Charset) (c : Char) : Bool :=
  if h : c.toNat < 256 then set.members[c.toNat] else false

/-- The members in order. -/
def toList (set : Charset) : List Char :=
  ((List.range 256).map Char.ofNat).filter set.contains

def size (set : Charset) : Nat :=
  set.toList.length

def isEmpty (set : Charset) : Bool :=
  set.size == 0

/-- The form a set has in settings: its members in order. -/
def toText (set : Charset) : String :=
  String.ofList set.toList

/-- Read the form a set has in settings. Empty text stands for the standard set. -/
def ofText (text : String) : Charset :=
  if text.isEmpty then standard else ofString text

/-- The text of a set for a reader. -/
def describe (set : Charset) : String :=
  "Charset(" ++ Text.quoted set.toText ++ ")"

end Charset

end ScriptRecord
