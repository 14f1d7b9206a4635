import Mathlib.Order.Bounds.Basic
import ScriptRecord.Codec.Faulty
import ScriptRecord.CommandLine.Run
import ScriptRecord.Proofs.CommandLine.Actions
import ScriptRecord.Proofs.Record.Acceptance
import ScriptRecord.Proofs.Record.Sequence
import ScriptRecord.Workbench
/-!
# Lengths of records

A record is as long as its stored payload makes it, and a second call to the codec
predicts that length.  Codecs that give another answer the second time are found out by
it, except for what the padding hides.  With any other codec nothing goes wrong, and the
sizes in a summary are those that are written.
-/

namespace ScriptRecord.Proofs.Record.Lengths

open ScriptRecord.CommandLine
open ScriptRecord.Proofs.BytesAt
open ScriptRecord.Proofs.CommandLine.Actions
open ScriptRecord.Proofs.Record.Acceptance
open ScriptRecord.Proofs.Record.ReadBack
open ScriptRecord.Proofs.Record.Sequence
open ScriptRecord.Proofs.Results

/-- What a summary says about the way a payload is stored. -/
def storageLines (size storedSize recordSize : Nat) : String :=
  "Stored:         " ++ (toString storedSize ++ " bytes" ++
      if storedSize = size then " (raw)" else "") ++ "\n" ++
    ("Record length:  " ++ (toString recordSize ++ " bytes") ++ "\n")

/-- The bytes of a record: its words, the stored payload, and zeros up to a multiple of four. -/
structure Written (script : Script) (stored bytes : Bytes) : Prop where
  parts : ∃ padding, bytes.toList =
    script.record.header.toBytes script.container.order ++
      script.container.order.bytes32 script.record.unknown ++
      script.container.order.bytes32 (UInt32.ofNat script.payload.size) ++
      script.container.order.bytes32 (UInt32.ofNat stored.size) ++
      (stored.toList ++ List.replicate padding 0)
  sizes : ∃ size storedSize, bytes.word32? script.container.order 16 = some size ∧
    bytes.word32? script.container.order 20 = some storedSize ∧
    size.toNat = script.payload.size ∧ storedSize.toNat = stored.size
  size_mod : bytes.size % 4 = 0
  le_size : 24 + stored.size ≤ bytes.size
  size_lt : bytes.size < 28 + stored.size

variable {script : Script} {codec : Codec}

/-! ## What is written -/

theorem written_toBytes (codec : Codec) (hsize : script.payload.size < UInt32.size) :
    Written script (script.record.stored codec 0) (script.toBytes codec) := by
  obtain ⟨padding, hparts⟩ := toList_toBytes script.record script.container.order codec
  have hat : HasAt (script.toBytes codec) 0 (script.record.front script.container.order
      (script.record.stored codec 0).size) :=
    ⟨[], _, hparts, rfl⟩
  obtain ⟨-, -, hpayload, hstored⟩ := fields_of_hasAt hat
  have hstoredSize : (script.record.stored codec 0).size < UInt32.size := by
    rw [size_stored]
    exact lt_of_le_of_lt (Nat.min_le_right _ _) hsize
  have htotal : (script.toBytes codec).size =
      Record.align (24 + (script.record.stored codec 0).size) :=
    size_toBytes script.record script.container.order codec
  simp only [Record.align, Record.alignment] at htotal
  exact {
    parts := ⟨padding, hparts⟩
    sizes := ⟨_, _, hpayload, hstored, UInt32.toNat_ofNat_of_lt' hsize,
      UInt32.toNat_ofNat_of_lt' hstoredSize⟩
    size_mod := by omega
    le_size := by omega
    size_lt := by omega }

theorem write_eq (script : Script) (codec : Codec) :
    script.write codec =
      if script.record.length codec 1 = (script.toBytes codec).size then
        .ok (script.toBytes codec)
      else .error (.lengthMismatch (script.record.length codec 1) (script.toBytes codec).size) :=
  rfl

theorem length_eq_size {call : Nat} (hcall : codec.compress call script.payload =
    codec.compress 0 script.payload) :
    script.record.length codec call = (script.toBytes codec).size := by
  have hsame : codec.compress call script.record.payload =
    codec.compress 0 script.record.payload := hcall
  rw [Script.toBytes, size_toBytes, size_stored, Record.length, hsame]

/-! ## What is reported -/

theorem labelled_payload (value : String) :
    Script.labelled "Payload" value = "Payload:        " ++ value ++ "\n" := rfl

theorem labelled_stored (value : String) :
    Script.labelled "Stored" value = "Stored:         " ++ value ++ "\n" := rfl

theorem labelled_length (value : String) :
    Script.labelled "Record length" value = "Record length:  " ++ value ++ "\n" := rfl

theorem labelled_storage (before payload stored length back : String) :
    before ++ Script.labelled "Payload" payload ++ Script.labelled "Stored" stored ++
        Script.labelled "Record length" length ++ back =
      before ++ ("Payload:        " ++ payload) ++ "\n" ++
        ("Stored:         " ++ stored ++ "\n" ++ ("Record length:  " ++ length ++ "\n")) ++
        back := by
  rw [labelled_payload, labelled_stored, labelled_length]
  simp only [String.append_assoc]

theorem exists_summary (script : Script) :
    ∃ front back, script.summary = front ++ "\n" ++
      storageLines script.payload.size (script.record.stored Lzss.codec 0).size
        (script.length Lzss.codec) ++ back := by
  unfold Script.summary storageLines
  dsimp only
  rw [labelled_storage]
  exact ⟨_, _, rfl⟩

variable {settings : Settings} {source : Source} {session opened : Session} {file : RecordFile}

theorem size_of_openRecord (h : openRecord settings source session = .ok file opened) :
    file.script.payload.size < UInt32.size := by
  obtain ⟨content, -, -, hlocate⟩ := locate_of_openRecord h
  obtain ⟨size, hread, -, -⟩ := exists_of_locate hlocate
  exact (storable_of_read hread).size_lt

/-- The report of a script has the sizes of the record that is written. -/
theorem info_lines (home : Location) (h : openRecord settings source session = .ok file opened) :
    ∃ front back, (Request.info source).run home settings session =
      .ok () { opened with
        printed := opened.printed ++ front ++ "\n" ++
          storageLines file.script.payload.size (file.script.record.stored Lzss.codec 0).size
            (file.script.toBytes Lzss.codec).size ++ back } := by
  obtain ⟨front, back, hsummary⟩ := exists_summary file.script
  have hlength : file.script.length Lzss.codec = (file.script.toBytes Lzss.codec).size :=
    length_eq_size rfl
  rw [hlength] at hsummary
  refine ⟨front, back ++
    ("File:           " ++ source.path ++ " @ 0x" ++ Hex.upper 1 source.offset ++ "\n"), ?_⟩
  simp only [Request.run, bind, EStateM.bind, h, printLine, print_eq, hsummary,
    String.append_assoc]

/-- What is written is a record of the right length, whether or not the second call to the
codec predicts it.  It is accepted if that call does, and else refused with both numbers; a
codec that gives one answer is never refused.  What is reported about a script that was
opened is what is written for it. -/
theorem write_predicted (script : Script) (codec : Codec)
    (hsize : script.payload.size < UInt32.size) :
    (∃ stored, (stored = if (codec.compress 0 script.payload).size < script.payload.size then
          codec.compress 0 script.payload else script.payload) ∧
      stored.size = min (codec.compress 0 script.payload).size script.payload.size ∧
      Written script stored (script.toBytes codec)) ∧
    IsLeast {m | 4 ∣ m ∧ 24 + min (codec.compress 1 script.payload).size script.payload.size ≤ m}
      (script.record.length codec 1) ∧
    (script.write codec = .ok (script.toBytes codec) ↔
      script.record.length codec 1 = (script.toBytes codec).size) ∧
    (script.write codec =
        .error (.lengthMismatch (script.record.length codec 1) (script.toBytes codec).size) ↔
      script.record.length codec 1 ≠ (script.toBytes codec).size) ∧
    (∀ bench : Workbench, bench.script? = some script →
      (bench.run (.write codec)).1 =
        { bench with stream := bench.stream ++ script.toBytes codec }) ∧
    ((∀ call, codec.compress call script.payload = codec.compress 0 script.payload) →
      script.write codec = .ok (script.toBytes codec) ∧
        script.length codec = (script.toBytes codec).size) ∧
    (∀ home settings source session opened file,
      openRecord settings source session = .ok file opened →
      ∃ size storedSize bytes front back, file.script.write Lzss.codec = .ok bytes ∧
        bytes.word32? file.script.container.order 16 = some size ∧
        bytes.word32? file.script.container.order 20 = some storedSize ∧
        (Request.info source).run home settings session =
          .ok () { opened with
            printed := opened.printed ++ front ++ "\n" ++
              storageLines size.toNat storedSize.toNat bytes.size ++ back }) := by
  refine ⟨⟨_, rfl, size_stored script.record codec 0, written_toBytes codec hsize⟩,
    align_isLeast _, ?_, ?_, ?_, ?_, ?_⟩
  · rw [write_eq]
    split <;> simp_all
  · rw [write_eq]
    split <;> simp_all
  · intro bench hscript
    simp only [Workbench.run, hscript, Workbench.runOn]
    split <;> rfl
  · intro hpure
    rw [write_eq, if_pos (length_eq_size (hpure 1))]
    exact ⟨rfl, length_eq_size rfl⟩
  · intro home settings source session opened file hopen
    obtain ⟨front, back, hrun⟩ := info_lines home hopen
    have hwritten := written_toBytes Lzss.codec (size_of_openRecord hopen)
    obtain ⟨size, storedSize, hpayload, hstored, hsizes⟩ := hwritten.sizes
    refine ⟨size, storedSize, _, front, back, write_script lossless_lzss file.script, hpayload,
      hstored, ?_⟩
    rw [hsizes.1, hsizes.2]
    exact hrun

/-- A codec that forgets its answer predicts a record without a payload. -/
theorem write_predicted_forgetful :
    let script := (Script.fresh .standard).setPayload (Array.replicate 40 0x20)
    script.payload.size < UInt32.size ∧
      script.write Codec.forgetful = .error (.lengthMismatch 24 64) := by
  intro script
  have hsize : script.payload.size < UInt32.size := by decide
  have hpredicted : script.record.length Codec.forgetful 1 = 24 := by decide
  have hwritten : (script.toBytes Codec.forgetful).size = 64 := by decide
  obtain ⟨-, -, -, hrefused, -⟩ := write_predicted script Codec.forgetful hsize
  rw [hpredicted, hwritten] at hrefused
  exact ⟨hsize, hrefused.mpr (by decide)⟩

end ScriptRecord.Proofs.Record.Lengths
