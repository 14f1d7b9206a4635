import ScriptRecord.Script
import ScriptRecord.Proofs.Lzss.RoundTrip
import ScriptRecord.Proofs.Record.ReadBack
/-!
# Scripts one after another

Records written one after another to a stream are read back in order, each from
where the one before it ended.  The induction is on the list of scripts; what it
keeps is that every record starts at a multiple of the alignment.
-/

namespace ScriptRecord.Proofs.Record.Sequence

open ScriptRecord.Proofs.BytesAt
open ScriptRecord.Proofs.Record.ReadBack
open ScriptRecord.Proofs.Results

/-- The bytes of some scripts, written one after another until one fails. -/
def writeAll (codec : Codec) : List Script → Except Error Bytes
  | [] => .ok #[]
  | script :: rest => do
    let bytes ← script.write codec
    let others ← writeAll codec rest
    return bytes ++ others

/-- `count` scripts, the first one from `pos` on and each other from where the one
before it ended, and the position after the last one. -/
def readAll (container : Container) (codec : Codec) (stream : Bytes) :
    Nat → Nat → ReadResult (List Script)
  | 0, pos => .ok [] pos
  | count + 1, pos =>
    match Script.read container codec stream pos with
    | .error error stop => .error error stop
    | .ok script next =>
      match readAll container codec stream count next with
      | .error error stop => .error error stop
      | .ok rest last => .ok (script :: rest) last

/-- A script whose record a container of these settings can hold.  Scripts that are
fresh or were read have a record of the right type. -/
structure Storable (container : Container) (script : Script) : Prop where
  container_eq : script.container = container
  type_eq : script.record.header.type = .script
  size_lt : script.payload.size < UInt32.size

variable {container : Container} {codec : Codec}

theorem lossless_lzss : Lossless Lzss.codec where
  pure _ _ := rfl
  restores := Lzss.RoundTrip.decompress_compress

/-! ## One script -/

theorem write_script (hcodec : Lossless codec) (script : Script) :
    script.write codec = .ok (script.toBytes codec) :=
  write_eq_ok hcodec script.record script.container.order

theorem size_script_mod (script : Script) :
    (script.toBytes codec).size % Record.alignment = 0 :=
  size_toBytes_mod script.record script.container.order codec

theorem read_script (hcodec : Lossless codec) {script : Script}
    (hscript : Storable container script) {stream : Bytes} {pos : Nat}
    (hpos : pos % Record.alignment = 0)
    (h : HasAt stream pos (script.toBytes codec).toList) :
    Script.read container codec stream pos =
      .ok script.copy (pos + (script.toBytes codec).size) := by
  have hcontainer := hscript.container_eq
  subst hcontainer
  have hrecord := read_of_hasAt hcodec hscript.type_eq hscript.size_lt hpos h
  rw [Script.read, hrecord]
  rfl

theorem storable_fresh (container : Container) : Storable container (Script.fresh container) where
  container_eq := rfl
  type_eq := rfl
  size_lt := by
    change Script.emptyProgram.size < UInt32.size
    decide

/-- Every script that was read can be written again. -/
theorem storable_of_read {stream : Bytes} {pos next : Nat} {script : Script}
    (h : Script.read container codec stream pos = .ok script next) :
    Storable container script := by
  obtain ⟨record, hread, rfl⟩ := Script.ofResult_eq_ok h
  obtain ⟨htype, hsize⟩ := script_of_read hread
  exact ⟨rfl, htype, hsize⟩

/-- A script that was read keeps no slots yet. -/
theorem cache_of_read {stream : Bytes} {pos next : Nat} {script : Script}
    (h : Script.read container codec stream pos = .ok script next) : script.cache = none := by
  obtain ⟨record, -, rfl⟩ := Script.ofResult_eq_ok h
  rfl

/-! ## All scripts -/

/-- The bytes of all records, one after another. -/
def allBytes (codec : Codec) (scripts : List Script) : List UInt8 :=
  scripts.flatMap fun script => (script.toBytes codec).toList

theorem writeAll_eq_ok (hcodec : Lossless codec) (scripts : List Script) :
    writeAll codec scripts = .ok (allBytes codec scripts).toArray := by
  induction scripts with
  | nil => rfl
  | cons script rest ih =>
      rw [writeAll, write_script hcodec, ih]
      simp [allBytes, bind, Except.bind, pure, Except.pure]

theorem readAll_of_hasAt (hcodec : Lossless codec) {stream : Bytes} (scripts : List Script)
    (hscripts : ∀ script ∈ scripts, Storable container script) {pos : Nat}
    (hpos : pos % Record.alignment = 0) (h : HasAt stream pos (allBytes codec scripts)) :
    readAll container codec stream scripts.length pos =
      .ok (scripts.map Script.copy) (pos + (allBytes codec scripts).length) := by
  induction scripts generalizing pos with
  | nil => rfl
  | cons script rest ih =>
      have hbytes : allBytes codec (script :: rest) =
          (script.toBytes codec).toList ++ allBytes codec rest := List.flatMap_cons ..
      rw [hbytes] at h
      have hread := read_script hcodec (hscripts script List.mem_cons_self) hpos h.left
      have hnext : (pos + (script.toBytes codec).size) % Record.alignment = 0 := by
        rw [Nat.add_mod, hpos, size_script_mod]
        rfl
      have htail := h.right
      rw [Array.length_toList] at htail
      have hrest := ih (fun s hs => hscripts s (List.mem_cons_of_mem script hs)) hnext htail
      rw [List.length_cons, readAll, hread]
      dsimp only
      rw [hrest, hbytes, List.length_append, Array.length_toList, Nat.add_assoc]
      rfl

/-- Scripts of one container, written one after another from a multiple of four on,
are read back as they were, without the edits that were not committed, and the last
one is read up to the end of its record. -/
theorem readAll_writeAll (codec : Codec) (hcodec : Lossless codec) (container : Container)
    (scripts : List Script) (hscripts : ∀ script ∈ scripts, Storable container script)
    (front back : Bytes) (hfront : front.size % 4 = 0) :
    ∃ bytes, writeAll codec scripts = .ok bytes ∧
      readAll container codec (front ++ bytes ++ back) scripts.length front.size =
        .ok (scripts.map Script.copy) (front.size + bytes.size) := by
  refine ⟨_, writeAll_eq_ok hcodec scripts, ?_⟩
  rw [List.size_toArray]
  exact readAll_of_hasAt hcodec scripts hscripts hfront
    (hasAt_middle front (allBytes codec scripts).toArray back)

/-- A script that is stored in a smaller form and one that is stored as it is. -/
theorem readAll_writeAll_both_forms :
    let long := (Script.fresh .standard).setPayload (Array.replicate 40 0x20)
    let short := Script.fresh .standard
    (∀ script ∈ [long, short], Storable .standard script) ∧
      ∃ bytes, writeAll Lzss.codec [long, short] = .ok bytes ∧
        readAll .standard Lzss.codec (#[1, 2, 3, 4] ++ bytes ++ #[5]) 2 4 =
          .ok [long.copy, short.copy] (4 + bytes.size) := by
  intro long short
  have hscripts : ∀ script ∈ [long, short], Storable .standard script := by
    intro script hscript
    simp only [List.mem_cons, List.not_mem_nil, or_false] at hscript
    rcases hscript with rfl | rfl
    · exact ⟨rfl, rfl, by decide⟩
    · exact storable_fresh .standard
  exact ⟨hscripts, readAll_writeAll Lzss.codec lossless_lzss .standard [long, short] hscripts
    #[1, 2, 3, 4] #[5] rfl⟩

end ScriptRecord.Proofs.Record.Sequence
