import ScriptRecord.Struct.Image
import ScriptRecord.Proofs.BytesAt
/-!
# Values and their layout in an image

A struct as a tree of typed values, the text of such a tree, and what it means that
an image holds it.  `StructAt` says only which bytes stand where: values may lie
anywhere, in any order, and one header may be pointed to from many slots.

Texts, costs and depths are those of the tree alone; nothing here reads an image.
-/

namespace ScriptRecord.Proofs.Struct.Layout

open ScriptRecord.Struct
open ScriptRecord.Proofs.BytesAt

/-! ## Values -/

/-- A value that is neither a struct nor an array. -/
inductive Scalar where
  | integer (value : Int32)
  | float (bits : UInt32)
  | string (bytes : List UInt8)
  | wString (units : List UInt16)
  | vector2 (x y : UInt32)
  | vector3 (x y z : UInt32)
  | key (k : Key)
  | keyRef (k : Key)
  | strPtr (k : Key)
  | strQs (k : Key)

mutual

inductive Value where
  | scalar (scalar : Scalar)
  | struct (members : List Member)
  /-- An array with elements of one type. -/
  | array (type : ValueType) (items : List Value)

/-- A value of a struct under its key. -/
inductive Member where
  | mk (key : Key) (value : Value)

end

def Scalar.type : Scalar → ValueType
  | .integer _ => .integer
  | .float _ => .float
  | .string _ => .string
  | .wString _ => .wString
  | .vector2 .. => .vector2
  | .vector3 .. => .vector3
  | .key _ => .key
  | .keyRef _ => .keyRef
  | .strPtr _ => .strPtr
  | .strQs _ => .strQs

def Value.type : Value → ValueType
  | .scalar s => s.type
  | .struct _ => .struct
  | .array .. => .array

/-! ## Texts -/

def Scalar.text (names : Names) : Scalar → String
  | .integer value => toString value.toInt
  | .float bits => FixedPoint.twoDecimals bits
  | .string bytes => String.ofList ('\'' :: asciiText bytes ++ ['\''])
  | .wString units => String.ofList ('"' :: Utf16.decode units ++ ['"'])
  | .vector2 x y =>
    "(" ++ FixedPoint.twoDecimals x ++ ", " ++ FixedPoint.twoDecimals y ++ ")"
  | .vector3 x y z =>
    "(" ++ FixedPoint.twoDecimals x ++ ", " ++ FixedPoint.twoDecimals y ++ ", " ++
      FixedPoint.twoDecimals z ++ ")"
  | .key k | .keyRef k | .strPtr k | .strQs k => names.resolve k

mutual

/-- The text of a value whose lines are indented by `indent`. -/
def Value.text (names : Names) (indent : String) : Value → String
  | .scalar s => s.text names
  | .struct members =>
    "(QbStruct) \x7b\n" ++ membersText names (indent ++ indentUnit) members ++ indent ++ "\x7d"
  | .array _ items => "[" ++ String.intercalate ", " (itemsText names indent items) ++ "]"

/-- One line for each member. -/
def membersText (names : Names) (indent : String) : List Member → String
  | [] => ""
  | .mk key value :: rest =>
    indent ++ value.type.name ++ " " ++ names.resolve key ++ " = " ++ value.text names indent ++
      ";\n" ++ membersText names indent rest

def itemsText (names : Names) (indent : String) : List Value → List String
  | [] => []
  | item :: rest => item.text names indent :: itemsText names indent rest

end

/-! ## Costs and depths -/

mutual

/-- The output that a value is charged for. -/
def Value.cost (names : Names) : Value → Nat
  | .scalar s => valueCost + (s.text names).utf8ByteSize
  | .struct members => valueCost + membersCost names members
  | .array _ items => valueCost + itemsCost names items

def membersCost (names : Names) : List Member → Nat
  | [] => 0
  | .mk _ value :: rest => value.cost names + membersCost names rest

def itemsCost (names : Names) : List Value → Nat
  | [] => 0
  | item :: rest => item.cost names + itemsCost names rest

end

mutual

/-- The number of values on the longest way into a value, with the value itself. -/
def Value.depth : Value → Nat
  | .scalar _ => 1
  | .struct members => membersDepth members + 1
  | .array _ items => itemsDepth items + 1

def membersDepth : List Member → Nat
  | [] => 0
  | .mk _ value :: rest => max value.depth (membersDepth rest)

def itemsDepth : List Value → Nat
  | [] => 0
  | item :: rest => max item.depth (itemsDepth rest)

end

/-! ## Layout -/

/-- A word of the image, high byte first. -/
def HasWord (img : Image) (pos : Nat) (word : UInt32) : Prop :=
  HasAt img.data pos (ByteOrder.big.bytes32 word)

instance (img : Image) (pos : Nat) (word : UInt32) : Decidable (HasWord img pos word) :=
  inferInstanceAs (Decidable (HasAt img.data pos (ByteOrder.big.bytes32 word)))

/-- The slot holds the offset of a position from the start of the image. -/
def Points (img : Image) (slot pos : Nat) : Prop :=
  ∃ offset : UInt32, HasWord img slot offset ∧ img.start + offset.toNat = pos

variable {img : Image} {slot pos : Nat}

theorem HasWord.word {word : UInt32} (h : HasWord img pos word) : img.word? pos = some word :=
  HasAt.word32 h

/-- A place holds one word only. -/
theorem HasWord.unique {word other : UInt32} (h : HasWord img pos word)
    (hother : HasWord img pos other) : word = other := by
  have hsame := hother.word
  rw [h.word] at hsame
  exact Option.some.inj hsame

theorem HasWord.le_size {word : UInt32} (h : HasWord img pos word) : pos + 4 ≤ img.data.size := by
  have hle := HasAt.le_size h
  rw [length_bytes32] at hle
  exact hle

theorem Points.resolve (h : Points img slot pos) : img.resolve? slot = some pos := by
  obtain ⟨offset, hword, hpos⟩ := h
  rw [Image.resolve?, hword.word, Option.map_some, hpos]

theorem Points.unique {other : Nat} (h : Points img slot pos) (hother : Points img slot other) :
    pos = other := by
  have hsame := hother.resolve
  rw [h.resolve] at hsame
  exact Option.some.inj hsame

theorem Points.le_size (h : Points img slot pos) : slot + 4 ≤ img.data.size := by
  obtain ⟨offset, hword, -⟩ := h
  exact hword.le_size

/-- A value in its slot, or at the position that the slot points to.  Texts end with
a zero, and a vector stands behind one more word. -/
def ScalarAt (img : Image) (slot : Nat) : Scalar → Prop
  | .integer value => HasWord img slot value.toUInt32
  | .float bits => HasWord img slot bits
  | .string bytes => 0 ∉ bytes ∧ ∃ pos, Points img slot pos ∧ HasAt img.data pos (bytes ++ [0])
  | .wString units =>
    0 ∉ units ∧ ∃ pos, Points img slot pos ∧
      HasAt img.data pos (units.flatMap ByteOrder.big.bytes16 ++ [0, 0])
  | .vector2 x y =>
    ∃ pos, Points img slot pos ∧
      HasAt img.data (pos + 4) ([x, y].flatMap ByteOrder.big.bytes32)
  | .vector3 x y z =>
    ∃ pos, Points img slot pos ∧
      HasAt img.data (pos + 4) ([x, y, z].flatMap ByteOrder.big.bytes32)
  | .key k | .keyRef k | .strPtr k | .strQs k => HasWord img slot k.checksum

mutual

/-- The value that a slot stands for. -/
inductive ValueAt (img : Image) : Nat → Value → Prop
  | scalar {slot : Nat} {s : Scalar} (held : ScalarAt img slot s) :
      ValueAt img slot (.scalar s)
  | struct {slot pos : Nat} {members : List Member} (points : Points img slot pos)
      (held : StructAt img pos members) : ValueAt img slot (.struct members)
  | array {slot pos : Nat} {type : ValueType} {items : List Value}
      (points : Points img slot pos) (held : ArrayAt img pos type items) :
      ValueAt img slot (.array type items)

/-- A struct with its header at a position: the header word, and the offset of the
first entry. -/
inductive StructAt (img : Image) : Nat → List Member → Prop
  | mk {pos : Nat} {first : UInt32} {members : List Member}
      (headed : HasWord img pos header) (link : HasWord img (pos + 4) first)
      (held : LinkedAt img first.toNat members) : StructAt img pos members

/-- Entries from the one at an offset on, each with the offset of the next. -/
inductive LinkedAt (img : Image) : Nat → List Member → Prop
  | nil {offset : Nat} (last : offset = 0) : LinkedAt img offset []
  | cons {offset : Nat} {key : Key} {value : Value} {next : UInt32} {rest : List Member}
      (further : offset ≠ 0)
      (tag : HasWord img (img.start + offset) value.type.entryTag)
      (named : HasWord img (img.start + offset + 4) key.checksum)
      (held : ValueAt img (img.start + offset + 8) value)
      (link : HasWord img (img.start + offset + 12) next)
      (others : LinkedAt img next.toNat rest) : LinkedAt img offset (.mk key value :: rest)

/-- An array with its header at a position: the type and the number of its elements,
and then the slot of a single element or the offset of a list of slots. -/
inductive ArrayAt (img : Image) : Nat → ValueType → List Value → Prop
  | empty {pos : Nat} {type : ValueType} (tag : HasWord img pos type.elementTag)
      (count : HasWord img (pos + 4) 0) : ArrayAt img pos type []
  | single {pos : Nat} {type : ValueType} {item : Value} (tag : HasWord img pos type.elementTag)
      (count : HasWord img (pos + 4) 1) (typed : item.type = type)
      (held : ValueAt img (pos + 8) item) : ArrayAt img pos type [item]
  | several {pos list : Nat} {type : ValueType} {items : List Value}
      (tag : HasWord img pos type.elementTag)
      (count : HasWord img (pos + 4) (UInt32.ofNat items.length))
      (length_lt : items.length < UInt32.size) (two_le : 2 ≤ items.length)
      (typed : ∀ item ∈ items, item.type = type) (points : Points img (pos + 8) list)
      (held : ItemsAt img list items) : ArrayAt img pos type items

/-- Values in slots one after another. -/
inductive ItemsAt (img : Image) : Nat → List Value → Prop
  | nil {slot : Nat} : ItemsAt img slot []
  | cons {slot : Nat} {item : Value} {rest : List Value} (held : ValueAt img slot item)
      (others : ItemsAt img (slot + 4) rest) : ItemsAt img slot (item :: rest)

end

/-- A struct or an array with its header at a position. -/
def HeaderAt (img : Image) (pos : Nat) : Value → Prop
  | .scalar _ => False
  | .struct members => StructAt img pos members
  | .array type items => ArrayAt img pos type items

end ScriptRecord.Proofs.Struct.Layout
