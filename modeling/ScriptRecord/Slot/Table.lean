import ScriptRecord.Json.Text
import ScriptRecord.Slot
/-!
# Tables of slots

The slots of a payload for a reader, in columns or in JSON.
-/

namespace ScriptRecord.Slot

/-- A text at the right end of a column. -/
def atRight (width : Nat) (text : String) : String :=
  String.ofList (text.toList.leftpad width ' ')

/-- A text at the left end of a column. -/
def atLeft (width : Nat) (text : String) : String :=
  String.ofList (text.toList.rightpad width ' ')

def widthName (slot : Slot) : String :=
  if slot.wide then "wide" else "narrow"

def tableHead : String :=
  "Index  Offset  Chars  Width   Text\n"

/-- The row of a slot. -/
def tableRow (index : Nat) (slot : Slot) : String :=
  atRight 5 (toString index) ++ "    " ++ Hex.upper 4 slot.pos ++ "  " ++
    atRight 5 (toString slot.length) ++ "  " ++ atLeft 6 slot.widthName ++ "  " ++ slot.text ++ "\n"

/-- Slots in columns, numbered from zero. -/
def table (slots : List Slot) : String :=
  if slots.isEmpty then "No strings found\n"
  else tableHead ++ String.join (slots.mapIdx tableRow)

/-- A slot as an object whose members stand on lines of their own. -/
def toJson (slot : Slot) : String :=
  "  \x7b\n    \"text\": " ++ Json.quote slot.text ++
    ",\n    \"pos\": " ++ toString slot.pos ++
    ",\n    \"length\": " ++ toString slot.length ++
    ",\n    \"is_unicode\": " ++ (if slot.wide then "true" else "false") ++ "\n  \x7d"

/-- Slots as an array of objects. -/
def jsonOfList (slots : List Slot) : String :=
  if slots.isEmpty then "[]"
  else "[\n" ++ String.intercalate ",\n" (slots.map toJson) ++ "\n]"

end ScriptRecord.Slot
