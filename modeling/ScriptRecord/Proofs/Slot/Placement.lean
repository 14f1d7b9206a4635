import ScriptRecord.Proofs.Slot.Texts
/-!
# Slots hold text

The slots of a payload lie inside of it, one behind the other, and hold nothing but
text (`extract_placed`): a one-byte slot has allowed bytes only, and every cell of a
two-byte slot is a word of the container whose high byte is zero and whose low byte
is allowed.  Nothing is asked of the charset.  One-byte text may read as fewer
characters than it has bytes; its slot then ends before the run does.
-/

namespace ScriptRecord.Proofs.Slot.Placement

open ScriptRecord.Proofs.Slot.Cells
open ScriptRecord.Proofs.Slot.Texts

/-- A slot inside a payload that holds text from its first to its last cell. -/
structure Placed (container : Container) (payload : Bytes) (slot : Slot) : Prop where
  inside : slot.pos + slot.byteLength ≤ payload.size
  narrow : slot.wide = false → ∀ i < slot.length, ∃ byte,
    payload[slot.pos + i]? = some byte ∧ container.charset.containsByte byte = true
  platform : slot.wide = true → container.allowsWide = true
  /-- A word that is the value of one byte has a zero for its high byte. -/
  wide : slot.wide = true → ∀ i < slot.length, ∃ low : UInt8,
    payload.word16? container.order (slot.pos + 2 * i) = some low.toUInt16 ∧
      container.charset.containsByte low = true

variable {container : Container} {payload : Bytes} {run : Run} {pos : Nat}

/-! ## Cells -/

theorem getElem?_of_cell (h : Cell container payload false pos) :
    payload[pos]? = some (payload.getD pos 0) := by
  have hlt : pos < payload.size := h.inside
  rw [Array.getElem?_eq_getElem hlt, Array.getElem_eq_getD 0]

theorem word_of_cell (hallowed : container.allowsWide = true)
    (h : Cell container payload true pos) :
    payload.word16? container.order pos =
      some (payload.getD (pos + charAt container) 0).toUInt16 := by
  have hlt : pos + 2 ≤ payload.size := h.inside
  have hword := word16_of_cell hallowed h
  rw [← Array.getElem_eq_getD (h := by omega) 0, ← Array.getElem_eq_getD (h := by omega) 0] at hword
  rw [Bytes.word16?, dif_pos hlt, hword, UInt16.ofNat_uInt8ToNat]

/-! ## Slots -/

theorem placed_ofRun (h : Sound container payload run) :
    Placed container payload (Slot.ofRun container.order payload run) where
  inside := Nat.le_trans (ofRun_end_le h) h.stop_le
  narrow := by
    intro hnarrow i hi
    have hcell : Cell container payload false (run.start + i) := by
      have htext := h.text i (Nat.lt_of_lt_of_le hi (length_ofRun_le h))
      rw [show run.wide = false from hnarrow, width_narrow, Nat.one_mul] at htext
      exact htext
    exact ⟨_, getElem?_of_cell hcell, hcell.char⟩
  platform := h.allowed
  wide := by
    intro hwide i hi
    have hcell : Cell container payload true (run.start + 2 * i) := by
      have htext := h.text i (Nat.lt_of_lt_of_le hi (length_ofRun_le h))
      rw [show run.wide = true from hwide, width_wide] at htext
      exact htext
    exact ⟨_, word_of_cell (h.allowed hwide) hcell, hcell.char⟩

/-- A slot ends where the next one starts or before. -/
theorem extract_ordered (container : Container) (payload : Bytes) :
    (Slot.extract container payload).Pairwise fun earlier later =>
      earlier.pos + earlier.byteLength ≤ later.pos := by
  have hruns := runs_sound container payload
  rw [Slot.extract, Array.toList_map, List.pairwise_map]
  apply hruns.ordered.imp_of_mem
  intro earlier later hearlier _ hle
  exact Nat.le_trans (ofRun_end_le (hruns.sound earlier hearlier)) hle

/-- The slots of a payload are in order and apart, each inside the payload, on text, and
of two-byte characters only where the platform has them. -/
theorem extract_placed (container : Container) (payload : Bytes) :
    (∀ slot ∈ Slot.extract container payload, Placed container payload slot) ∧
      (Slot.extract container payload).Pairwise fun earlier later =>
        earlier.pos + earlier.byteLength ≤ later.pos := by
  refine ⟨?_, extract_ordered container payload⟩
  intro slot hslot
  obtain ⟨run, hrun, rfl⟩ := exists_run_of_mem_extract hslot
  exact placed_ofRun hrun

end ScriptRecord.Proofs.Slot.Placement
