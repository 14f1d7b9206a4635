import ScriptRecord.Script
/-!
# The workbench

Several scripts side by side, one of them current, and a stream with a position to read from.
Commands work on the current script or on the stream, and each has a result.
-/

namespace ScriptRecord

structure Workbench where
  scripts : Array Script
  /-- Index of the current script. -/
  current : Nat
  stream : Bytes
  /-- Where the next record is read. -/
  pos : Nat

/-- What can be done at a workbench. -/
inductive Workbench.Command where
  | add (container : Container)
  | create (type : ItemType) (container : Container)
  | duplicate
  | select (index : Nat)
  | setStream (stream : Bytes)
  | seek (pos : Nat)
  | read (container : Container) (codec : Codec)
  | readItem (container : Container) (codec : Codec)
  | write (codec : Codec)
  | length (codec : Codec)
  | setPayload (payload : Bytes)
  | setItemKey (key : Key)
  | setUnknown (word : UInt32)
  | slots
  | editText (index : Nat) (text : String)
  | commit
  | decompile (names : Names)

/-- What a command has to say. -/
inductive Workbench.Outcome where
  | done
  /-- There is no script to work on. -/
  | nothing
  | failed (error : Error)
  /-- The program has ended. -/
  | crashed
  | streamSize (size : Nat)
  | readTo (pos : Nat)
  /-- An item was read up to a position. Its length and its bytes when written back follow. -/
  | readItemTo (pos length : Nat) (type : ItemType) (back : Except Error Bytes)
  | wrote (bytes : Bytes)
  /-- These bytes were written before the error was found. -/
  | wroteBadly (error : Error) (bytes : Bytes)
  | length (length : Nat)
  | slots (slots : List Slot)
  /-- The text as it fits the slot, if there is such a slot. -/
  | fitted (text : Option String)
  | listing (text : String)

namespace Workbench

/-- A workbench without scripts. -/
def empty : Workbench := ⟨#[], 0, #[], 0⟩

def script? (bench : Workbench) : Option Script :=
  bench.scripts[bench.current]?

/-- Put a script on the bench and make it current. -/
def push (bench : Workbench) (script : Script) : Workbench :=
  { bench with scripts := bench.scripts.push script, current := bench.scripts.size }

/-- Put another state of the current script in its place. -/
def update (bench : Workbench) (script : Script) : Workbench :=
  { bench with scripts := bench.scripts.setIfInBounds bench.current script }

/-- Put a script on the bench that was read up to a position. -/
def pushRead (bench : Workbench) (script : Script) (pos : Nat) : Workbench :=
  { bench.push script with pos }

/-- Carry out a command that works on the current script. -/
def runOn (bench : Workbench) (script : Script) : Command → Workbench × Outcome
  | .duplicate => (bench.push script.copy, .done)
  | .write codec =>
    let bytes := script.toBytes codec
    let bench := { bench with stream := bench.stream ++ bytes }
    match script.write codec with
    | .ok _ => (bench, .wrote bytes)
    | .error error => (bench, .wroteBadly error bytes)
  | .length codec => (bench, .length (script.length codec))
  | .setPayload payload => (bench.update (script.setPayload payload), .done)
  | .setItemKey key => (bench.update (script.setItemKey key), .done)
  | .setUnknown word => (bench.update (script.setUnknown word), .done)
  | .slots => (bench.update script.keepSlots, .slots script.slots)
  | .editText index text =>
    let edited := script.editText index text
    (bench.update edited, .fitted (edited.slots[index]?.map Slot.fittedText))
  | .commit =>
    match script.commit with
    | .ok () script => (bench.update script, .done)
    | .error (.refused error) script => (bench.update script, .failed error)
    | .error .crashed script => (bench.update script, .crashed)
  | .decompile names =>
    match script.decompile names with
    | .ok text => (bench, .listing text)
    | .error error => (bench, .failed error)
  | _ => (bench, .nothing)

/-- Carry out a command. -/
def run (bench : Workbench) : Command → Workbench × Outcome
  | .add container => (bench.push (.fresh container), .done)
  | .create type container =>
    match Script.create type container with
    | .ok script => (bench.push script, .done)
    | .error error => (bench, .failed error)
  | .select index =>
    if index < bench.scripts.size then ({ bench with current := index }, .done)
    else (bench, .nothing)
  | .setStream stream => ({ bench with stream, pos := 0 }, .streamSize stream.size)
  | .seek pos => ({ bench with pos }, .done)
  | .read container codec =>
    match Script.read container codec bench.stream bench.pos with
    | .ok script pos => (bench.pushRead script pos, .readTo pos)
    | .error error _ => (bench, .failed error)
  | .readItem container codec =>
    match Script.readItem container codec bench.stream bench.pos with
    | .ok script pos =>
      let length := script.length Lzss.codec
      let type := script.record.header.type
      (bench.pushRead script pos, .readItemTo pos length type (script.write Lzss.codec))
    | .error error _ => (bench, .failed error)
  | command =>
    match bench.script? with
    | some script => bench.runOn script command
    | none => (bench, .nothing)

end Workbench

end ScriptRecord
