import ScriptRecord.Error
import ScriptRecord.Slot
/-!
# Committing texts

Writing the texts of slots back into a payload. Every text is checked before the first is written,
so a commit that refuses a slot changes nothing. The checks add in machine words: a slot near the
last address can pass them, and then the program ends where that slot should be written.
-/

namespace ScriptRecord.Slot

/-- Why texts are not written back, or not all of them. -/
inductive Failure where
  /-- A slot is refused, and nothing has been written. -/
  | refused (error : Error)
  /-- The program ends at a write that is not inside the payload. Those before it are done. -/
  | crashed
  deriving DecidableEq, Repr

/-- The messages of a failure, outermost first. A crash has none of its own. -/
def Failure.chain : Failure → List String
  | .refused error => error.chain
  | .crashed => []

/-- The position behind `length` bytes at `pos` as a word of 64 bits has it. Positions past the
last one come round to the start. -/
def wordEnd (pos length : Nat) : Nat :=
  (pos + length) % UInt64.size

/-- The bytes that a slot, the one at `index`, puts into a payload of `size` bytes. -/
def toBytes (container : Container) (size index : Nat) (slot : Slot) :
    Except Error (List UInt8) :=
  match slot.fitted.find? fun c => !container.charset.contains c with
  | some c => .error (.invalidStringChar index c)
  | none =>
    match encode? container.order slot.wide slot.fitted with
    | none => .error (.stringWidth index slot.byteLength 0)
    | some bytes =>
      if bytes.length ≠ slot.byteLength then
        .error (.stringWidth index slot.byteLength bytes.length)
      else if size < wordEnd slot.pos bytes.length then
        .error (.stringOutOfBounds index slot.pos bytes.length size)
      else .ok bytes

/-- A stretch of bytes and where it goes. -/
structure Write where
  pos : Nat
  bytes : List UInt8
  deriving DecidableEq, Repr

/-- What some slots, the first of them at `index`, put into a payload of `size` bytes. -/
def writes (container : Container) (size index : Nat) : List Slot → Except Error (List Write)
  | [] => .ok []
  | slot :: rest => do
    let bytes ← slot.toBytes container size index
    let more ← writes container size (index + 1) rest
    return ⟨slot.pos, bytes⟩ :: more

/-- Carry out writes one after another. -/
def applyWrites (payload : Bytes) : List Write → EStateM.Result Failure Bytes Unit
  | [] => .ok () payload
  | write :: rest =>
    if write.pos + write.bytes.length ≤ payload.size then
      applyWrites (payload.overwrite write.pos write.bytes) rest
    else .error .crashed payload

/-- Write the texts of some slots into the payload, in place. -/
def writeBack (container : Container) (slots : List Slot) : EStateM Failure Bytes Unit :=
  fun payload =>
    match writes container payload.size 0 slots with
    | .ok writes => applyWrites payload writes
    | .error error => .error (.refused error) payload

/-- A payload after the texts of some slots have been written into it. -/
def commit (container : Container) (payload : Bytes) (slots : List Slot) : Except Failure Bytes :=
  match writeBack container slots payload with
  | .ok () payload => .ok payload
  | .error failure _ => .error failure

end ScriptRecord.Slot
