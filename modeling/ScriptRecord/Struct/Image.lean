import ScriptRecord.ByteOrder
import ScriptRecord.Struct.Node
import ScriptRecord.Text.FixedPoint
import ScriptRecord.Text.Utf16
import Std.Data.HashSet
/-!
# Struct images

A struct in memory form: words with the high byte first, linked by offsets that count from the
start of the image. Following the offsets gives a tree.

* A struct or array is not followed again inside itself.
* At most `maxNesting` structs and arrays are followed into each other.
* Each value costs output, and none is read once the output of an image is spent.

Layout of an entry: type tag, key, value or offset of the value, offset of the next entry.
-/

namespace ScriptRecord.Struct

/-- The word in front of every struct. -/
def header : UInt32 := 0x100

/-- Structs and arrays followed into each other. -/
def maxNesting : Nat := 32

/-- Output of one image, in bytes. -/
def maxOutput : Nat := 0x100000

/-- Output that every value costs besides its text. -/
def valueCost : Nat := 16

/-- A struct inside some data, with the names for its keys. -/
structure Image where
  data : Bytes
  /-- Position of the header; offsets count from here. -/
  start : Nat
  names : Names

/-- An entry found in the list of a struct. -/
structure Entry where
  offset : Nat
  tag : UInt32
  key : Key

/-- What one reading keeps track of. -/
structure Progress where
  /-- Headers of the structs and arrays being followed, innermost first. -/
  active : List Nat
  /-- Output left to spend. -/
  budget : Nat

/-- The state before an image is read. -/
def Progress.initial : Progress := ⟨[], maxOutput⟩

/-- Readings that keep track of progress. -/
abbrev Reading := StateM Progress

/-- Spend output. False if nothing was left. -/
def spend (cost : Nat) : Reading Bool :=
  modifyGet fun p => (decide (0 < p.budget), { p with budget := p.budget - cost })

/-- Characters of bytes, a question mark for each beyond ASCII. -/
def asciiText (bytes : List UInt8) : List Char :=
  bytes.map fun b => if b.toNat < 0x80 then Char.ofNat b.toNat else '?'

/-- Where the zero unit lies that ends a text of units from `pos` on. Without one, the position
after the last whole unit. -/
def wideEnd (data : Bytes) (pos : Nat) : Nat :=
  if pos + 2 ≤ data.size then
    if data.getD pos 0 = 0 ∧ data.getD (pos + 1) 0 = 0 then pos else wideEnd data (pos + 2)
  else pos
termination_by data.size - pos

/-- Code units from pairs of bytes, high byte first. A last byte on its own is left out. -/
def wideUnits : List UInt8 → List UInt16
  | a :: b :: rest => ByteOrder.big.word16 a b :: wideUnits rest
  | _ => []

namespace Image

def word? (img : Image) (pos : Nat) : Option UInt32 :=
  img.data.word32? .big pos

/-- The position that the offset in a slot points to. -/
def resolve? (img : Image) (slot : Nat) : Option Nat :=
  (img.word? slot).map fun offset => img.start + offset.toNat

/-- The entries from the one at `offset` on, after those in `found`, which lie at the offsets in
`seen`. Every entry lies at another position, so `fuel` need not exceed the size of the data. -/
def entriesFrom (img : Image) (fuel : Nat) (offset : Nat) (seen : Std.HashSet Nat)
    (found : Array Entry) : Array Entry × Stop :=
  match fuel with
  | 0 => (found, .complete)
  | fuel + 1 =>
    if offset = 0 then (found, .complete)
    else if seen.contains offset then (found, .revisited offset)
    else
      let pos := img.start + offset
      match img.word? pos, img.word? (pos + 4) with
      | some tag, some key =>
        let next := ((img.word? (pos + 12)).getD 0).toNat
        img.entriesFrom fuel next (seen.insert offset) (found.push ⟨offset, tag, ⟨key⟩⟩)
      | _, _ => (found, .cutShort pos)

/-- The entries of the struct with its header at `pos`. -/
def entries (img : Image) (pos : Nat) : List Entry × Stop :=
  let first := ((img.word? (pos + 4)).getD 0).toNat
  let (found, stop) := img.entriesFrom (img.data.size + 2) first {} #[]
  (found.toList, stop)

/-- Bytes up to the zero that ends a text. -/
def narrowText (img : Image) (pos : Nat) : String :=
  let bytes := img.data.extract pos (img.data.seek (· == 0) pos)
  String.ofList ('\'' :: asciiText bytes.toList ++ ['\''])

/-- Units up to the zero that ends a text. -/
def wideText (img : Image) (pos : Nat) : String :=
  let bytes := img.data.extract pos (wideEnd img.data pos)
  String.ofList ('"' :: Utf16.decode (wideUnits bytes.toList) ++ ['"'])

/-- The numbers of a vector in brackets. -/
def vectorText? (img : Image) (pos count : Nat) : Option String := do
  let parts ← (List.range count).mapM fun i => img.word? (pos + 4 * i)
  return "(" ++ String.intercalate ", " (parts.map FixedPoint.twoDecimals) ++ ")"

/-- The text of a value that is neither a struct nor an array, if it lies within the data. A
vector stands behind a word that is not shown. -/
def scalarText? (img : Image) (type : ValueType) (slot : Nat) : Option String :=
  match type with
  | .integer => (img.word? slot).map fun word => toString word.toInt32.toInt
  | .float => (img.word? slot).map FixedPoint.twoDecimals
  | .string => (img.resolve? slot).map img.narrowText
  | .wString => (img.resolve? slot).map img.wideText
  | .vector2 => (img.resolve? slot).bind fun pos => img.vectorText? (pos + 4) 2
  | .vector3 => (img.resolve? slot).bind fun pos => img.vectorText? (pos + 4) 3
  | .key | .keyRef | .strPtr | .strQs => (img.word? slot).map fun word => img.names.resolve ⟨word⟩
  | .struct | .array => none

/-- Follow the struct or array at `pos`, unless that is being done already. -/
def guarded (img : Image) (pos : Nat) (follow : Reading Node) : Reading Node := do
  if (← get).active.contains pos then
    return .enclosing (pos - img.start)
  modify fun p => { p with active := pos :: p.active }
  let node ← follow
  modify fun p => { p with active := p.active.erase pos }
  return node

/-- Read an entry, `value` reading the values of known type. -/
def field (img : Image) (value : ValueType → Nat → Reading Node) (entry : Entry) :
    Reading Field := do
  let slot := img.start + entry.offset + 8
  match ValueType.ofEntryTag? entry.tag with
  | some type => return .known entry.offset type entry.key (← value type slot)
  | none => return .strange entry.offset entry.tag entry.key (img.word? slot)

/-- Read the entries of the struct with its header at `pos`. -/
def structAt (img : Image) (value : ValueType → Nat → Reading Node) (pos : Nat) (headed : Bool) :
    Reading Node := do
  let (entries, stop) := img.entries pos
  let fields ← entries.mapM (img.field value)
  return .struct pos headed fields stop

/-- Read the elements of the array with its header at `pos`. A single element stands in the header
itself, several in a list that the header points to. -/
def arrayAt (img : Image) (value : ValueType → Nat → Reading Node) (pos : Nat) :
    Reading Node := do
  match img.word? pos with
  | none => return .cutArray pos
  | some tag =>
    match ValueType.ofElementTag? tag, img.word? (pos + 4) with
    | none, _ => return .strangeArray
    | some _, none => return .cutArray pos
    | some type, some count =>
      if count = 0 then return .array pos [] 0
      else if count = 1 then return .array pos [← value type (pos + 8)] 0
      else
        match img.resolve? (pos + 8) with
        | none => return .cutArray pos
        | some list =>
          let available := (img.data.size - list) / 4
          let items ← (List.range (min count.toNat available)).mapM fun i =>
            value type (list + 4 * i)
          return .array pos items (count.toNat - available)

/-- Read the value in a slot, following at most `room` structs and arrays into each other. -/
def value (img : Image) : Nat → ValueType → Nat → Reading Node
  | 0, _, _ => return .tooDeep
  | room + 1, type, slot => do
    unless ← spend valueCost do
      return .overBudget
    match type with
    | .struct =>
      match img.resolve? slot with
      | some pos =>
        img.guarded pos (img.structAt (img.value room) pos (img.word? pos == some header))
      | none => return .missing type slot
    | .array =>
      match img.resolve? slot with
      | some pos => img.guarded pos (img.arrayAt (img.value room) pos)
      | none => return .missing type slot
    | _ =>
      match img.scalarText? type slot with
      | some text =>
        let _ ← spend text.utf8ByteSize
        return .scalar text
      | none =>
        let _ ← spend (missingText type slot).utf8ByteSize
        return .missing type slot

/-- Read the whole image. The word in front of it passes for the header unseen. -/
def tree (img : Image) : Reading Node :=
  img.guarded img.start (img.structAt (img.value maxNesting) img.start true)

/-- The text of the image, its entries indented one level more than `indent`. -/
def render (img : Image) (indent : String) : String :=
  (img.tree.run .initial).1.render img.names indent

end Image

end ScriptRecord.Struct
