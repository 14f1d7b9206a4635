import ScriptRecord.NameTable
import ScriptRecord.ValueType
/-!
# Struct trees

What a struct image holds once its offsets have been followed, and the text of it. A tree also
keeps what could not be followed, so that its text says so in place.
-/

namespace ScriptRecord.Struct

/-- How the list of a struct's entries comes to its end. -/
inductive Stop where
  /-- The last entry links to none. -/
  | complete
  /-- The next entry is one already listed. -/
  | revisited (offset : Nat)
  /-- The next entry does not lie within the data. -/
  | cutShort (pos : Nat)
  deriving DecidableEq, Repr

mutual

/-- A value, with the position of its header if it is a struct or an array. -/
inductive Node where
  | scalar (text : String)
  /-- The slot or what it points to does not lie within the data. -/
  | missing (type : ValueType) (slot : Nat)
  /-- The value lies inside too many structs and arrays. -/
  | tooDeep
  /-- No output is left to spend on the value. -/
  | overBudget
  /-- The struct or array at this offset encloses the value. -/
  | enclosing (offset : Nat)
  | struct (pos : Nat) (headed : Bool) (fields : List Field) (stop : Stop)
  /-- An array, with the number of elements that do not lie within the data. -/
  | array (pos : Nat) (items : List Node) (beyond : Nat)
  /-- The header of the array does not lie within the data. -/
  | cutArray (pos : Nat)
  /-- The array holds elements of no known type. -/
  | strangeArray

/-- An entry of a struct at an offset. -/
inductive Field where
  | known (offset : Nat) (type : ValueType) (key : Key) (value : Node)
  /-- An entry with a value of no known type, given as the word in its slot. -/
  | strange (offset : Nat) (tag : UInt32) (key : Key) (word : Option UInt32)

end

/-- One level of indentation. -/
def indentUnit : String := "    "

/-- What is written for a value that does not lie within the data. -/
def missingText (type : ValueType) (slot : Nat) : String :=
  "\x7btruncated " ++ type.name ++ " at " ++ Hex.upper 4 slot ++ "\x7d"

/-- What is written for the word of a value of no known type. -/
def strangeText : Option UInt32 → String
  | some word => "\x7bunknown value: " ++ Hex.lower 8 word.toNat ++ "\x7d"
  | none => "\x7bunknown value\x7d"

/-- What is written where an offset leads back. -/
def loopText (offset : Nat) : String :=
  "\x7bloop at offset " ++ Hex.upper 4 offset ++ "\x7d"

/-- The line, if any, that says why the list of entries ends. -/
def Stop.render (indent : String) : Stop → String
  | .complete => ""
  | .revisited offset => indent ++ loopText offset ++ "\n"
  | .cutShort pos => indent ++ "\x7btruncated entry at " ++ Hex.upper 4 pos ++ "\x7d\n"

/-- What stands in front of a struct whose header is another word. -/
def headerWarning (headed : Bool) : String :=
  if headed then "" else "\x7bwarning: struct header not found\x7d"

/-- What is written for the elements that do not lie within the data. -/
def beyondTexts (beyond : Nat) : List String :=
  if beyond = 0 then [] else ["\x7b" ++ toString beyond ++ " more elements truncated\x7d"]

mutual

/-- The text of a value on lines that are indented by `indent`. -/
def Node.render (names : Names) (indent : String) : Node → String
  | .scalar text => text
  | .missing type slot => missingText type slot
  | .tooDeep => "\x7bnesting too deep\x7d"
  | .overBudget => "\x7boutput limit reached\x7d"
  | .enclosing offset => loopText offset
  | .struct _ headed fields stop =>
    let inner := indent ++ indentUnit
    let opening := headerWarning headed ++ "(QbStruct) \x7b\n"
    renderFields names inner opening fields ++ stop.render inner ++ indent ++ "\x7d"
  | .array _ items beyond =>
    "[" ++ String.intercalate ", " (renderItems names indent items ++ beyondTexts beyond) ++ "]"
  | .cutArray pos => "[\x7btruncated array at " ++ Hex.upper 4 pos ++ "\x7d]"
  | .strangeArray => "[\x7bunknown element type\x7d]"

/-- The line of an entry. -/
def Field.render (names : Names) (indent : String) : Field → String
  | .known _ type key value =>
    indent ++ type.name ++ " " ++ names.resolve key ++ " = " ++ value.render names indent ++ ";\n"
  | .strange _ tag key word =>
    indent ++ "\x7bunk type " ++ Hex.lower 8 tag.toNat ++ "\x7d " ++ names.resolve key ++ " = " ++
      strangeText word ++ ";\n"

/-- `out` and the lines of some entries after it. -/
def renderFields (names : Names) (indent out : String) : List Field → String
  | [] => out
  | field :: rest => renderFields names indent (out ++ field.render names indent) rest

/-- The texts of the elements of an array. -/
def renderItems (names : Names) (indent : String) : List Node → List String
  | [] => []
  | item :: rest => item.render names indent :: renderItems names indent rest

end

section

variable (names : Names) (indent : String) (pos : Nat)

theorem Node.render_struct (headed : Bool) (fields : List Field) (stop : Stop) :
    (Node.struct pos headed fields stop).render names indent =
      renderFields names (indent ++ indentUnit) (headerWarning headed ++ "(QbStruct) \x7b\n")
        fields ++ stop.render (indent ++ indentUnit) ++ indent ++ "\x7d" := rfl

theorem Node.render_array (items : List Node) (beyond : Nat) :
    (Node.array pos items beyond).render names indent =
      "[" ++ String.intercalate ", " (renderItems names indent items ++ beyondTexts beyond) ++
        "]" := rfl

end

end ScriptRecord.Struct
