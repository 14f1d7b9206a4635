import ScriptRecord.Container
import ScriptRecord.Toml.Document
/-!
# Settings

What a user wants to hold for all records unless a command says otherwise. Settings are kept as a
text of one line for each that is set.
-/

namespace ScriptRecord

structure Settings where
  platform : Option Platform := none
  order : Option ByteOrder := none
  /-- The characters of texts. -/
  charset : Option String := none
  /-- Path of the list that names are looked up in last. -/
  names : Option String := none
  deriving DecidableEq

namespace Settings

/-- Nothing is set. -/
def empty : Settings := {}

instance : Inhabited Settings := ⟨empty⟩

def isEmpty (settings : Settings) : Bool :=
  settings = empty

/-- The container of a record. What a command says about it comes before the settings. -/
def container (settings : Settings) (platform : Option Platform) (order : Option ByteOrder) :
    Container :=
  let usual := Container.ofPlatform ((platform.or settings.platform).getD .pc)
  { usual with
    order := (order.or settings.order).getD usual.order
    charset := (settings.charset.map Charset.ofText).getD usual.charset }

/-- A word out of a list: a string, or a table whose only key is the word, with nothing under
it. -/
def wordOf? : Toml.Value → Option String
  | .string word => some word
  | .table _ [(word, .table _ [])] => some word
  | .table _ [(word, .array [])] => some word
  | _ => none

def textOf? : Toml.Value → Option String
  | .string text => some text
  | _ => none

/-- The value under a key, if there is one. It must be of the kind that `read?` reads. -/
def field? {α : Type} (members : Toml.Members) (key : String) (read? : Toml.Value → Option α) :
    Option (Option α) :=
  match members.lookup key with
  | none => some none
  | some value => (read? value).map some

/-- Read settings. Keys that are not known are ignored. -/
def parse? (text : String) : Option Settings := do
  let members ← Toml.parse? text
  let platform ← field? members "platform" fun v => (wordOf? v).bind Platform.ofName?
  let order ← field? members "endian" fun v => (wordOf? v).bind ByteOrder.ofName?
  let charset ← field? members "charset" textOf?
  let names ← field? members "names" textOf?
  return { platform, order, charset, names }

/-- The line of a setting, if it is set. -/
def line (key : String) : Option String → String
  | some value => key ++ " = " ++ Toml.quote value ++ "\n"
  | none => ""

/-- The text that settings are kept as. -/
def render (settings : Settings) : String :=
  line "platform" (settings.platform.map Platform.name) ++
    line "endian" (settings.order.map ByteOrder.name) ++
    line "charset" settings.charset ++ line "names" settings.names

end Settings

end ScriptRecord
