import ScriptRecord.Record
import ScriptRecord.Proofs.BytesAt
import ScriptRecord.Proofs.Results
/-!
# A record is read back from where it stands

The reader and the writer of a record take their decisions apart: whether the
payload is stored as it is, and how many zeros follow.  `read_of_hasAt` shows that
they agree on every record of a script, for any codec that keeps to the rules
(`Lossless`), at every position that records may start at.
-/

namespace ScriptRecord.Proofs.Record.ReadBack

open ScriptRecord.Proofs.BytesAt
open ScriptRecord.Proofs.Results

/-- A codec that gives one answer to each payload and restores it from that. -/
structure Lossless (codec : Codec) : Prop where
  pure : ∀ call payload, codec.compress call payload = codec.compress 0 payload
  restores : ∀ payload, codec.decompress (codec.compress 0 payload) payload.size = .ok payload

/-! ## Sizes -/

theorem le_align (n : Nat) : n ≤ Record.align n := by
  simp only [Record.align, Record.alignment]
  omega

theorem align_mod (n : Nat) : Record.align n % Record.alignment = 0 := by
  simp only [Record.align, Record.alignment]
  omega

/-- Padding does not depend on where a record starts. -/
theorem align_add {pos : Nat} (n : Nat) (hpos : pos % Record.alignment = 0) :
    Record.align (pos + n) = pos + Record.align n := by
  simp only [Record.align, Record.alignment] at *
  omega

theorem length_header (order : ByteOrder) (header : Header) :
    (header.toBytes order).length = Header.size := by
  rw [Header.toBytes, List.length_append, List.length_append, length_bytes32, length_bytes32,
    length_bytes32, Header.size]

theorem length_front (record : Record) (order : ByteOrder) (storedSize : Nat) :
    (record.front order storedSize).length = Record.frontSize := by
  simp only [Record.front, List.length_append, length_header, length_bytes32, Record.frontSize,
    Record.fieldsSize]

theorem size_stored (record : Record) (codec : Codec) (call : Nat) :
    (record.stored codec call).size =
      min (codec.compress call record.payload).size record.payload.size := by
  rw [Record.stored]
  split <;> omega

theorem size_toBytes (record : Record) (order : ByteOrder) (codec : Codec) :
    (record.toBytes order codec).size =
      Record.align (Record.frontSize + (record.stored codec 0).size) := by
  have hle := le_align (Record.frontSize + (record.stored codec 0).size)
  simp only [Record.toBytes, Array.size_append, List.size_toArray, length_front,
    Array.size_replicate]
  omega

/-- A record ends where the next one may start. -/
theorem size_toBytes_mod (record : Record) (order : ByteOrder) (codec : Codec) :
    (record.toBytes order codec).size % Record.alignment = 0 := by
  rw [size_toBytes, align_mod]

/-! ## Writing -/

/-- With a codec that gives one answer the predicted length is the length. -/
theorem write_eq_ok {codec : Codec} (hcodec : Lossless codec) (record : Record)
    (order : ByteOrder) : record.write order codec = .ok (record.toBytes order codec) := by
  have hlength : record.length codec 1 = (record.toBytes order codec).size := by
    rw [Record.length, hcodec.pure 1, size_toBytes, size_stored]
  rw [Record.write, if_pos hlength]

theorem toList_toBytes (record : Record) (order : ByteOrder) (codec : Codec) :
    ∃ padding, (record.toBytes order codec).toList =
      record.front order (record.stored codec 0).size ++
        ((record.stored codec 0).toList ++ List.replicate padding 0) := by
  rw [Record.toBytes, Array.toList_append, Array.toList_append, Array.toList_replicate,
    List.append_assoc]
  exact ⟨_, rfl⟩

/-! ## Reading -/

theorem header_of_hasAt {order : ByteOrder} {stream : Bytes} {pos : Nat} {header : Header}
    (htype : header.type = .script) (h : HasAt stream pos (header.toBytes order)) :
    Header.read order stream pos = .ok header := by
  have htag := h.left.left.word32
  have hitem := h.left.right.word32
  have hfile := h.right.word32
  rw [length_bytes32] at hitem
  rw [List.length_append, length_bytes32, length_bytes32] at hfile
  have hkind : ItemType.ofTag header.type.tag = header.type := by
    rw [htype]
    rfl
  rw [Header.read, htag, hitem, hfile]
  dsimp only
  rw [hkind]

/-- The words between the header and the stored payload. -/
theorem fields_of_hasAt {order : ByteOrder} {stream : Bytes} {pos storedSize : Nat}
    {record : Record} (h : HasAt stream pos (record.front order storedSize)) :
    HasAt stream pos (record.header.toBytes order) ∧
      stream.word32? order (pos + Header.size) = some record.unknown ∧
      stream.word32? order (pos + Header.size + 4) = some (UInt32.ofNat record.payload.size) ∧
      stream.word32? order (pos + Header.size + 8) = some (UInt32.ofNat storedSize) := by
  simp only [Record.front, List.append_assoc] at h
  have hfields := h.right
  rw [length_header] at hfields
  have hsizes := hfields.right
  rw [length_bytes32] at hsizes
  have hstored := hsizes.right.word32
  rw [length_bytes32] at hstored
  exact ⟨h.left, hfields.left.word32, hsizes.left.word32, hstored⟩

/-- What is stored turns into the payload again, whichever form it is in. -/
theorem restore_stored {codec : Codec} (hcodec : Lossless codec) (record : Record) (offset : Nat) :
    Record.restore codec (record.stored codec 0) offset record.payload.size =
      .ok record.payload := by
  rw [Record.restore]
  by_cases hsmaller : (codec.compress 0 record.payload).size < record.payload.size
  · have hstored : record.stored codec 0 = codec.compress 0 record.payload := by
      rw [Record.stored]
      exact if_pos hsmaller
    rw [hstored, if_pos hsmaller, hcodec.restores]
    exact if_pos rfl
  · have hstored : record.stored codec 0 = record.payload := by
      rw [Record.stored]
      exact if_neg hsmaller
    rw [hstored, if_neg (Nat.lt_irrefl _)]
    exact if_pos rfl

/-- A record of a script is read back from where it stands, and the position after
it is where its bytes end. -/
theorem read_of_hasAt {codec : Codec} (hcodec : Lossless codec) {order : ByteOrder}
    {stream : Bytes} {pos : Nat} {record : Record} (htype : record.header.type = .script)
    (hsize : record.payload.size < UInt32.size) (hpos : pos % Record.alignment = 0)
    (h : HasAt stream pos (record.toBytes order codec).toList) :
    Record.read order codec stream pos =
      .ok record (pos + (record.toBytes order codec).size) := by
  obtain ⟨padding, hparts⟩ := toList_toBytes record order codec
  rw [hparts] at h
  have hstoredSize : (record.stored codec 0).size < UInt32.size := by
    have hle := size_stored record codec 0
    omega
  obtain ⟨hfront, hunknown, hpayloadWord, hstoredWord⟩ := fields_of_hasAt h.left
  have hheader := header_of_hasAt htype hfront
  -- The stored payload, and the padding behind it.
  have hstored := h.right.left.slice
  rw [length_front, Array.length_toList, Array.toArray_toList] at hstored
  have hend : Record.align (pos + Record.frontSize + (record.stored codec 0).size) =
      pos + (record.toBytes order codec).size := by
    rw [size_toBytes, Nat.add_assoc, align_add _ hpos]
  rw [Record.read, Record.readOr, hheader]
  dsimp only
  rw [htype]
  simp only [ItemType.isScript, decide_true, ↓reduceIte]
  rw [Record.readBody]
  dsimp only
  rw [hunknown, hpayloadWord, hstoredWord]
  dsimp only
  rw [UInt32.toNat_ofNat_of_lt' hstoredSize, hstored]
  dsimp only
  rw [UInt32.toNat_ofNat_of_lt' hsize, restore_stored hcodec, hend]

/-! ## What was read -/

theorem size_of_restore {codec : Codec} {stored payload : Bytes} {offset size : Nat}
    (h : Record.restore codec stored offset size = .ok payload) : payload.size = size := by
  have hcheck {found : Bytes} {error : Error}
      (hchecked : (if found.size = size then .ok found else .error error) = Except.ok payload) :
      payload.size = size := by
    split at hchecked
    · rename_i hsize
      cases hchecked
      exact hsize
    · cases hchecked
  unfold Record.restore at h
  dsimp only at h
  -- Both forms of the stored payload are checked against the size.
  split at h
  · obtain ⟨found, -, hchecked⟩ := bind_eq_ok h
    exact hcheck hchecked
  · exact hcheck h

/-- A record that was read is that of a script.  Its payload was restored from what is
stored, and it ends at the next multiple of the alignment. -/
theorem exists_of_read {order : ByteOrder} {codec : Codec} {stream : Bytes} {pos next : Nat}
    {record : Record} (h : Record.read order codec stream pos = .ok record next) :
    ∃ (size : UInt32) (stored : Bytes), record.header.type = .script ∧
      Record.restore codec stored (pos + Record.frontSize) size.toNat = .ok record.payload ∧
      next = Record.align (pos + Record.frontSize + stored.size) := by
  unfold Record.read Record.readOr at h
  split at h
  · split at h
    · rename_i htype
      unfold Record.readBody at h
      dsimp only at h
      split at h
      · split at h
        · split at h
          · rename_i hpayload
            cases h
            exact ⟨_, _, of_decide_eq_true htype, hpayload, rfl⟩
          · cases h
        · cases h
      · cases h
    · cases h
  · cases h

theorem script_of_read {order : ByteOrder} {codec : Codec} {stream : Bytes} {pos next : Nat}
    {record : Record} (h : Record.read order codec stream pos = .ok record next) :
    record.header.type = .script ∧ record.payload.size < UInt32.size := by
  obtain ⟨size, stored, htype, hpayload, -⟩ := exists_of_read h
  refine ⟨htype, ?_⟩
  rw [size_of_restore hpayload]
  exact UInt32.toNat_lt_size _

end ScriptRecord.Proofs.Record.ReadBack
