import ScriptRecord.Bytecode.Listing
import ScriptRecord.Record
import ScriptRecord.Slot.Commit
/-!
# Scripts

A record with its container. The slots of its payload are found when they are first asked for and
kept until the payload changes, so that edits of their texts can be collected and committed
together.
-/

namespace ScriptRecord

structure Script where
  record : Record
  container : Container
  /-- The slots of the payload with the edits since, if they have been asked for. -/
  cache : Option (List Slot)
  deriving DecidableEq

namespace Script

/-- The payload of a script that does nothing: a line and its end. -/
def emptyProgram : Bytes := #[0x01, 0x24]

/-- A script of its own that does nothing. -/
def fresh (container : Container) : Script :=
  ⟨⟨.ofType .script, 0, emptyProgram⟩, container, none⟩

/-- A fresh item of a type, which must be that of scripts. -/
def create (type : ItemType) (container : Container) : Except Error Script :=
  if type.isScript then .ok (fresh container) else .error (.notScriptItem type)

/-- The script of a record that has just been read. -/
def ofRecord (container : Container) (record : Record) : Script :=
  ⟨record, container, none⟩

/-- The script of a record that may have been read. -/
def ofResult (container : Container) : ReadResult Record → ReadResult Script
  | .ok record next => .ok (ofRecord container record) next
  | .error error stop => .error error stop

/-- A script that was read is that of a record that was read, up to the same position. -/
theorem ofResult_eq_ok {container : Container} {result : ReadResult Record} {script : Script}
    {next : Nat} (h : ofResult container result = .ok script next) :
    ∃ record, result = .ok record next ∧ script = ofRecord container record := by
  cases result with
  | ok record last =>
    cases h
    exact ⟨record, rfl, rfl⟩
  | error error stop => cases h

theorem ofResult_eq_error {container : Container} {result : ReadResult Record} {error : Error}
    {stop : Nat} (h : ofResult container result = .error error stop) :
    result = .error error stop := by
  cases result with
  | ok record next => cases h
  | error reported last =>
    cases h
    rfl

/-- Read the script at a position of a stream. -/
def read (container : Container) (codec : Codec) (stream : Bytes) (pos : Nat) :
    ReadResult Script :=
  ofResult container (Record.read container.order codec stream pos)

/-- Read the item at a position of a stream. -/
def readItem (container : Container) (codec : Codec) (stream : Bytes) (pos : Nat) :
    ReadResult Script :=
  ofResult container (Record.readItem container.order codec stream pos)

/-- The bytes of the script's record, whether or not their number is as predicted. -/
def toBytes (script : Script) (codec : Codec) : Bytes :=
  script.record.toBytes script.container.order codec

/-- The bytes of the script's record, if their number is as predicted. -/
def write (script : Script) (codec : Codec) : Except Error Bytes :=
  script.record.write script.container.order codec

/-- Number of bytes of the script's record. -/
def length (script : Script) (codec : Codec) : Nat :=
  script.record.length codec 0

def payload (script : Script) : Bytes :=
  script.record.payload

/-- Replace the payload. Edits that were not committed are lost. -/
def setPayload (script : Script) (payload : Bytes) : Script :=
  { script with record := { script.record with payload }, cache := none }

def setItemKey (script : Script) (key : Key) : Script :=
  { script with record := { script.record with
    header := { script.record.header with itemKey := key } } }

def setUnknown (script : Script) (word : UInt32) : Script :=
  { script with record := { script.record with unknown := word } }

/-- A copy of a script. It does not take over edits that were not committed. -/
def copy (script : Script) : Script :=
  { script with cache := none }

/-- The slots as they stand, edits included. -/
def slots (script : Script) : List Slot :=
  script.cache.getD (Slot.extract script.container script.payload)

/-- Keep the slots from now on. -/
def keepSlots (script : Script) : Script :=
  { script with cache := some script.slots }

/-- Change the text of a slot. The payload stays as it is until the edits are committed. -/
def editText (script : Script) (index : Nat) (text : String) : Script :=
  { script with cache := some (script.slots.modify index fun slot => { slot with text }) }

/-- Write the texts of the slots into the payload. Once they are in it, the slots have to be found
anew. -/
def commit (script : Script) : EStateM.Result Slot.Failure Script Unit :=
  match script.cache with
  | none => .ok () script
  | some slots =>
    match Slot.writeBack script.container slots script.payload with
    | .ok () payload => .ok () (script.setPayload payload)
    | .error failure payload =>
      .error failure { script with record := { script.record with payload } }

/-- The listing of the payload. -/
def decompile (script : Script) (names : Names) : Except Error String :=
  Bytecode.decompile script.payload names

end Script

end ScriptRecord
