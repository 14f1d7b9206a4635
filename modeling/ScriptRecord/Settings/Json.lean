import ScriptRecord.Container
import ScriptRecord.Json.Value
/-!
# Container settings in JSON

A container as an object with the fields `platform`, `endian` and `charset`, or as an array of
them in this order. A field that is missing keeps its standard value, an unknown one is ignored,
and one that occurs twice is refused.
-/

namespace ScriptRecord.Container

open ScriptRecord.Json (Value)

/-- A word out of a list: a string, or an object whose only member has that name and null for a
value. -/
def wordOf? : Value → Option String
  | .string (some word) => some word
  | .object [(some word, .null)] => some word
  | _ => none

/-- The charset that a value stands for. -/
def charsetOf? : Value → Option Charset
  | .string (some chars) => some (.ofText chars)
  | _ => none

/-- Fields of a container as far as they have been read. -/
structure Fields where
  platform : Option Platform := none
  order : Option ByteOrder := none
  charset : Option Charset := none

/-- The container with these fields. -/
def Fields.complete (fields : Fields) : Container :=
  ⟨fields.platform.getD standard.platform, fields.order.getD standard.order,
    fields.charset.getD standard.charset⟩

/-- Read the value of the platform. -/
def Fields.readPlatform? (fields : Fields) (value : Value) : Option Fields := do
  let platform ← (← wordOf? value) |> Platform.ofName?
  return { fields with platform := some platform }

/-- Read the value of the byte order. -/
def Fields.readOrder? (fields : Fields) (value : Value) : Option Fields := do
  let order ← (← wordOf? value) |> ByteOrder.ofName?
  return { fields with order := some order }

/-- Read the value of the charset. -/
def Fields.readCharset? (fields : Fields) (value : Value) : Option Fields := do
  return { fields with charset := some (← charsetOf? value) }

/-- Read one member of an object. -/
def Fields.readMember? (fields : Fields) (member : Option String × Value) : Option Fields :=
  match member with
  | (some "platform", value) => if fields.platform.isSome then none else fields.readPlatform? value
  | (some "endian", value) => if fields.order.isSome then none else fields.readOrder? value
  | (some "charset", value) => if fields.charset.isSome then none else fields.readCharset? value
  | (some _, _) => some fields
  | (none, _) => none

/-- The fields that a value holds. -/
def fieldsOf? : Value → Option Fields
  | .object members => members.foldlM Fields.readMember? {}
  | .array [] => some {}
  | .array [a] => Fields.readPlatform? {} a
  | .array [a, b] => do (← Fields.readPlatform? {} a).readOrder? b
  | .array [a, b, c] => do (← (← Fields.readPlatform? {} a).readOrder? b).readCharset? c
  | _ => none

/-- Read a container. -/
def ofJson? (text : String) : Option Container := do
  return (← fieldsOf? (← Json.parse? text)).complete

/-- The object of a container, without white space. -/
def toJson (container : Container) : String :=
  "\x7b" ++ Json.quote "platform" ++ ":" ++ Json.quote container.platform.name ++ "," ++
    Json.quote "endian" ++ ":" ++ Json.quote container.order.name ++ "," ++
    Json.quote "charset" ++ ":" ++ Json.quote container.charset.toText ++ "\x7d"

end ScriptRecord.Container
