import ScriptRecord.CommandLine.Arguments
import ScriptRecord.CommandLine.Request
/-!
# Commands

The commands by name, the words that each takes, and the request that they make up.
-/

namespace ScriptRecord.CommandLine

/-- Read a number below `2 ^ 64` in decimal digits. A plus sign may stand in front. -/
def number? (word : String) : Option Nat :=
  let digits := match word.toList with
    | '+' :: rest => rest
    | cs => cs
  if digits.isEmpty ∨ digits.any (fun c => !c.isDigit) then none
  else
    let n := digits.foldl (fun n c => n * 10 + (c.toNat - '0'.toNat)) 0
    if n < 0x10000000000000000 then some n else none

def SlotFormat.parse? : String → Option SlotFormat
  | "table" => some .table
  | "json" => some .json
  | _ => none

def acceptsPath (word : String) : Bool := !word.isEmpty

def acceptsNumber (word : String) : Bool := (number? word).isSome

def acceptsText (_ : String) : Bool := true

def acceptsPlatform (word : String) : Bool := (Platform.parse? word).isSome

def acceptsOrder (word : String) : Bool := (ByteOrder.parse? word).isSome

def acceptsFormat (word : String) : Bool := (SlotFormat.parse? word).isSome

/-- The options that say where a record is. -/
def sourceSwitches : List Switch :=
  [⟨"offset", none, acceptsNumber⟩, ⟨"platform", some 'p', acceptsPlatform⟩,
    ⟨"endian", some 'e', acceptsOrder⟩]

/-- The options of an edit. -/
def targetSwitches : List Switch :=
  [⟨"output", some 'o', acceptsPath⟩, ⟨"backup", none, none⟩]

namespace Given

def platform (given : Given) : Option Platform :=
  (given.value? "platform").bind Platform.parse?

def order (given : Given) : Option ByteOrder :=
  (given.value? "endian").bind ByteOrder.parse?

/-- Where the record is. The first place is that of its file. -/
def source? (given : Given) : Option Source := do
  return ⟨← given.place? 0, ((given.value? "offset").bind number?).getD 0, given.platform,
    given.order⟩

def target (given : Given) : Target :=
  ⟨given.value? "output", given.has "backup"⟩

end Given

structure Command where
  /-- The name and a short one, if there is one. -/
  names : List String
  form : Form
  /-- The request that words make up, if none is missing. -/
  request? : Given → Option Request

namespace Command

def all : List Command :=
  [{ names := ["info", "i"]
     form := ⟨sourceSwitches, [acceptsPath]⟩
     request? := fun given => return .info (← given.source?) },
   { names := ["decompile", "d"]
     form := ⟨sourceSwitches ++
      [⟨"names", some 'n', acceptsPath⟩, ⟨"output", some 'o', acceptsPath⟩], [acceptsPath]⟩
     request? := fun given =>
      return .decompile (← given.source?) (given.value? "names") (given.value? "output") },
   { names := ["strings", "s"]
     form := ⟨sourceSwitches ++ [⟨"format", some 'f', acceptsFormat⟩], [acceptsPath]⟩
     request? := fun given =>
      return .listSlots (← given.source?)
        (((given.value? "format").bind SlotFormat.parse?).getD .table) },
   { names := ["set-string"]
     form := ⟨sourceSwitches ++ targetSwitches, [acceptsPath, acceptsNumber, acceptsText]⟩
     request? := fun given =>
      return .setText (← given.source?) (← (given.place? 1).bind number?) (← given.place? 2)
        given.target },
   { names := ["export"]
     form := ⟨sourceSwitches ++ [⟨"output", some 'o', acceptsPath⟩], [acceptsPath]⟩
     request? := fun given =>
      return .exportPayload (← given.source?) (← given.value? "output") },
   { names := ["import"]
     form := ⟨sourceSwitches ++ targetSwitches, [acceptsPath, acceptsPath]⟩
     request? := fun given =>
      return .importPayload (← given.source?) (← given.place? 1) given.target },
   { names := ["dump"]
     form := ⟨sourceSwitches, [acceptsPath]⟩
     request? := fun given => return .dump (← given.source?) },
   { names := ["configure", "c"]
     form := ⟨[⟨"platform", none, acceptsPlatform⟩, ⟨"endian", none, acceptsOrder⟩,
      ⟨"charset", none, acceptsText⟩, ⟨"names", none, acceptsPath⟩, ⟨"show", none, none⟩], []⟩
     request? := fun given =>
      if given.has "show" then some .showSettings
      else some (.changeSettings
        ⟨given.platform, given.order, given.value? "charset", given.value? "names"⟩) }]

/-- The command with this name. -/
def ofName? (name : String) : Option Command :=
  all.find? fun command => command.names.contains name

/-- Read the words that follow the name of the command. -/
def read (command : Command) (words : List String) : Except Stop Request := do
  match command.request? (← Given.nothing.read command.form none words) with
  | some request => return request
  | none => throw .refused

end Command

/-- What the words in front of the name of a command can be. -/
def frontForm : Form := ⟨[], []⟩

/-- Read the words that ask for help with a command. -/
def readHelp : List String → Stop
  | [] => .help
  | [name] => if name = "help" ∨ (Command.ofName? name).isSome then .help else .refused
  | _ => .refused

/-- Read the words of a request, where `given` has been read so far. -/
def Request.readFrom (given : Given) : List String → Except Stop Request
  | [] => .error .refused
  | word :: rest =>
    if Given.looksLikeOption word then do
      let (given, _) ← given.readWord frontForm word
      readFrom given rest
    else if word = "help" then .error (readHelp rest)
    else
      match Command.ofName? word with
      | some command => command.read rest
      | none => .error .refused

/-- Read the words of a request. -/
def Request.read (words : List String) : Except Stop Request :=
  Request.readFrom .nothing words

end ScriptRecord.CommandLine
