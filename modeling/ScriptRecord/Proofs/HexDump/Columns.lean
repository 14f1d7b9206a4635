import Mathlib.Data.List.Basic
import Mathlib.Logic.Function.Basic
import ScriptRecord.HexDump
import ScriptRecord.Proofs.Text.HexDigits
import ScriptRecord.Proofs.Text.Members
/-!
# The columns of a hex dump

A dump is cut into lines at its line feeds, because there are no control characters in the
lines.  They all have the same columns: sixteen groups for the digits of a byte, two for the
mark and sixteen for the characters.  The groups of all the lines give the bytes back
(`render_columns`).
-/

namespace ScriptRecord.Proofs.HexDump.Columns

open ScriptRecord.Proofs.Text.HexDigits
open ScriptRecord.Proofs.Text.Members

/-- A control character. -/
def Control (c : Char) : Prop :=
  c.toNat < 0x20 ∨ (0x7F ≤ c.toNat ∧ c.toNat < 0xA0)

instance (c : Char) : Decidable (Control c) :=
  inferInstanceAs (Decidable (_ ∨ _))

/-- The character with the number of a byte, or a point for a control. -/
def visible (b : UInt8) : Char :=
  if Control (Char.ofNat b.toNat) then '.' else Char.ofNat b.toNat

/-- The bytes that stand in groups of three columns, two of them digits.  There is none in a group
of spaces. -/
def readGroups : List Char → List UInt8
  | high :: low :: _ :: rest =>
      match Hex.valueFrom? 0 [high, low] with
      | some n => UInt8.ofNat n :: readGroups rest
      | none => readGroups rest
  | _ => []

/-- A line before its line feed. -/
def lineOf (bytes : List UInt8) : List Char :=
  bytes.flatMap HexDump.cell ++ List.replicate (3 * (16 - bytes.length)) ' ' ++ [':', ' '] ++
    bytes.map HexDump.shown ++ List.replicate (16 - bytes.length) ' '

/-- The bytes of each line. -/
def chunks (data : Bytes) : List (List UInt8) :=
  (List.range ((data.size + 15) / 16)).map fun i => (data.extract (16 * i) (16 * i + 16)).toList

variable {bytes : List UInt8} {data : Bytes}

/-! ## Columns of a line -/

theorem length_cells (bytes : List UInt8) :
    (bytes.flatMap HexDump.cell).length = 3 * bytes.length := by
  induction bytes with
  | nil => rfl
  | cons b bytes ih =>
      rw [List.flatMap_cons, List.length_append, ih, List.length_cons, Nat.mul_succ, Nat.add_comm]
      rfl

theorem length_lineOf (h : bytes.length ≤ 16) : (lineOf bytes).length = 66 := by
  unfold lineOf
  simp only [List.length_append, length_cells, List.length_map, List.length_replicate,
    List.length_cons, List.length_nil]
  omega

theorem take_lineOf (h : bytes.length ≤ 16) : (lineOf bytes).take 48 =
    bytes.flatMap HexDump.cell ++ List.replicate (3 * (16 - bytes.length)) ' ' := by
  have hlength : (bytes.flatMap HexDump.cell ++
      List.replicate (3 * (16 - bytes.length)) ' ').length = 48 := by
    rw [List.length_append, length_cells, List.length_replicate]
    omega
  unfold lineOf
  rw [List.append_assoc, List.append_assoc, List.take_left' hlength]

theorem drop_lineOf (h : bytes.length ≤ 16) : (lineOf bytes).drop 50 =
    bytes.map HexDump.shown ++ List.replicate (16 - bytes.length) ' ' := by
  have hlength : (bytes.flatMap HexDump.cell ++ List.replicate (3 * (16 - bytes.length)) ' ' ++
      [':', ' ']).length = 50 := by
    rw [List.length_append, List.length_append, length_cells, List.length_replicate]
    simp only [List.length_cons, List.length_nil]
    omega
  unfold lineOf
  rw [List.append_assoc, List.drop_left' hlength]

theorem readGroups_spaces (gap : Nat) : readGroups (List.replicate (3 * gap) ' ') = [] := by
  induction gap with
  | zero => rfl
  | succ gap ih =>
      have hspaces : Hex.valueFrom? 0 [' ', ' '] = none := by decide +kernel
      show readGroups (' ' :: ' ' :: ' ' :: List.replicate (3 * gap) ' ') = []
      rw [readGroups, hspaces]
      exact ih

/-- The digits of a byte are read as this byte. -/
theorem valueFrom?_cell (b : UInt8) :
    Hex.valueFrom? 0 [Hex.upperDigit (b.toNat / 16), Hex.upperDigit (b.toNat % 16)] =
      some b.toNat := by
  have hhigh : b.toNat / 16 < 16 := Nat.div_lt_of_lt_mul b.toNat_lt
  have hlow : b.toNat % 16 < 16 := Nat.mod_lt b.toNat (by decide)
  have hread := ((writes_nil.concat hhigh).concat hlow).valueFrom?
  rwa [Nat.mul_zero, Nat.zero_add, Nat.div_add_mod] at hread

theorem readGroups_cells (bytes : List UInt8) (gap : Nat) :
    readGroups (bytes.flatMap HexDump.cell ++ List.replicate (3 * gap) ' ') = bytes := by
  induction bytes with
  | nil => exact readGroups_spaces gap
  | cons b bytes ih =>
      rw [List.flatMap_cons, List.append_assoc, HexDump.cell]
      simp only [List.cons_append, List.nil_append]
      rw [readGroups, valueFrom?_cell]
      simp only [ih, UInt8.ofNat_toNat]

theorem shown_eq_visible (b : UInt8) : HexDump.shown b = visible b := by
  have hcontrol : Control (Char.ofNat b.toNat) ↔
      b.toNat < 0x20 ∨ (0x7F ≤ b.toNat ∧ b.toNat < 0xA0) := by
    rw [Control, toNat_ofNat_byte]
  exact (if_congr hcontrol rfl rfl).symm

theorem not_control_visible (b : UInt8) : ¬ Control (visible b) := by
  unfold visible
  split
  · decide
  · assumption

theorem not_control_lineOf (bytes : List UInt8) : ∀ c ∈ lineOf bytes, ¬ Control c := by
  have hdigit : ∀ n < 16, ¬ Control (Hex.upperDigit n) := by decide +kernel
  have hspaces (count : Nat) : ∀ c ∈ List.replicate count ' ', ¬ Control c := fun c hc => by
    rw [List.eq_of_mem_replicate hc]
    decide
  have hcells : ∀ c ∈ bytes.flatMap HexDump.cell, ¬ Control c := fun c hc => by
    obtain ⟨b, -, hb⟩ := List.mem_flatMap.mp hc
    have hlt : b.toNat < 256 := b.toNat_lt
    simp only [HexDump.cell, List.mem_cons, List.not_mem_nil, or_false] at hb
    rcases hb with rfl | rfl | rfl
    · exact hdigit _ (by omega)
    · exact hdigit _ (by omega)
    · decide
  have hmark : ∀ c ∈ [':', ' '], ¬ Control c := forall_of_all (by decide)
  have hshown : ∀ c ∈ bytes.map HexDump.shown, ¬ Control c :=
    List.forall_mem_map.mpr fun b _ => shown_eq_visible b ▸ not_control_visible b
  unfold lineOf
  simp only [List.forall_mem_append]
  exact ⟨⟨⟨⟨hcells, hspaces _⟩, hmark⟩, hshown⟩, hspaces _⟩

/-! ## Lines of a dump -/

theorem chunk_eq (data : Bytes) (i : Nat) :
    (data.extract (16 * i) (16 * i + 16)).toList = (data.toList.drop (16 * i)).take 16 := by
  rw [Array.toList_extract, List.extract_eq_take_drop, Nat.add_sub_cancel_left]

theorem length_of_mem_chunks (h : bytes ∈ chunks data) : bytes.length ≤ 16 := by
  obtain ⟨i, -, rfl⟩ := List.mem_map.mp h
  rw [chunk_eq, List.length_take]
  exact Nat.min_le_left ..

theorem flatten_chunks (data : Bytes) : (chunks data).flatten = data.toList := by
  have hfront (count : Nat) : ((List.range count).map fun i =>
      (data.extract (16 * i) (16 * i + 16)).toList).flatten = data.toList.take (16 * count) := by
    induction count with
    | zero => rfl
    | succ count ih =>
        rw [List.range_succ, List.map_append, List.flatten_append, ih, List.map_singleton,
          List.flatten_singleton, chunk_eq, Nat.mul_succ, List.take_add]
  rw [chunks, hfront, List.take_of_length_le]
  rw [Array.length_toList]
  omega

/-- A dump is made up of its lines, each of them with a line feed behind it. -/
theorem render_toList (data : Bytes) :
    (HexDump.render data).toList = ((chunks data).map lineOf).flatMap (· ++ ['\n']) := by
  rw [HexDump.render, String.toList_ofList, HexDump.rows, chunks, List.flatMap_def, List.map_map,
    List.map_map]
  rfl

theorem splitOn_lines {lines : List (List Char)} (h : ∀ row ∈ lines, '\n' ∉ row) :
    (lines.flatMap (· ++ ['\n'])).splitOn '\n' = lines ++ [[]] := by
  induction lines with
  | nil => rfl
  | cons row lines ih =>
      obtain ⟨hrow, hlines⟩ := List.forall_mem_cons.mp h
      rw [List.flatMap_cons, List.append_assoc, List.singleton_append,
        List.splitOn_append_cons_self_of_not_mem hrow, ih hlines, List.cons_append]

theorem splitOn_render (data : Bytes) :
    (HexDump.render data).toList.splitOn '\n' = (chunks data).map lineOf ++ [[]] := by
  rw [render_toList, splitOn_lines]
  refine List.forall_mem_map.mpr fun bytes _ hfeed => ?_
  exact not_control_lineOf bytes '\n' hfeed (by decide)

theorem readGroups_lines (data : Bytes) :
    ((chunks data).map lineOf).flatMap (fun row => readGroups (row.take 48)) = data.toList := by
  have hread : ∀ bytes ∈ chunks data, readGroups ((lineOf bytes).take 48) = bytes := by
    intro bytes h
    rw [take_lineOf (length_of_mem_chunks h), readGroups_cells]
  calc ((chunks data).map lineOf).flatMap (fun row => readGroups (row.take 48))
      = ((chunks data).map fun bytes => readGroups ((lineOf bytes).take 48)).flatten := by
        rw [List.flatMap_def, List.map_map]
        rfl
    _ = (chunks data).flatten := by rw [List.map_congr_left hread, List.map_id']
    _ = data.toList := flatten_chunks data

theorem getElem?_line (data : Bytes) {i j : Nat} (hj : j < 16) (h : 16 * i + j < data.size) :
    ∃ row, ((chunks data).map lineOf)[i]? = some row ∧
      row[50 + j]? = some (visible data[16 * i + j]) := by
  have hi : i < (data.size + 15) / 16 := by omega
  refine ⟨lineOf ((data.toList.drop (16 * i)).take 16), ?_, ?_⟩
  · rw [chunks, List.map_map, List.getElem?_map, List.getElem?_range hi, Option.map_some,
      Function.comp_apply, chunk_eq]
  · have hlength : ((data.toList.drop (16 * i)).take 16).length ≤ 16 := by
      rw [List.length_take]
      exact Nat.min_le_left ..
    have hbyte : ((data.toList.drop (16 * i)).take 16)[j]? = some data[16 * i + j] := by
      rw [List.getElem?_take_of_lt hj, List.getElem?_drop, Array.getElem?_toList,
        Array.getElem?_eq_getElem h]
    have hinside := (List.getElem?_eq_some_iff.mp hbyte).1
    rw [← List.getElem?_drop, drop_lineOf hlength,
      List.getElem?_append_left (by rwa [List.length_map]), List.getElem?_map, hbyte,
      Option.map_some, shown_eq_visible]

/-- A dump has a line of 66 columns for every sixteen bytes, the digits of which are in the first 48
columns and the characters in the last 16.  No two payloads have the same dump. -/
theorem render_columns :
    (∀ data : Bytes, ∃ lines,
      (HexDump.render data).toList.splitOn '\n' = lines ++ [[]] ∧
        lines.length = (data.size + 15) / 16 ∧
        (∀ row ∈ lines, row.length = 66 ∧ ∀ c ∈ row, ¬ Control c) ∧
        lines.flatMap (fun row => readGroups (row.take 48)) = data.toList ∧
        ∀ i j (_ : j < 16) (_ : 16 * i + j < data.size), ∃ row, lines[i]? = some row ∧
          row[50 + j]? = some (visible data[16 * i + j])) ∧
      Function.Injective HexDump.render := by
  constructor
  · intro data
    refine ⟨(chunks data).map lineOf, splitOn_render data, ?_, ?_, readGroups_lines data,
      fun i j hj h => getElem?_line data hj h⟩
    · rw [List.length_map, chunks, List.length_map, List.length_range]
    · exact List.forall_mem_map.mpr fun bytes h =>
        ⟨length_lineOf (length_of_mem_chunks h), not_control_lineOf bytes⟩
  · intro data other hsame
    have hlines : (chunks data).map lineOf = (chunks other).map lineOf := by
      apply List.append_cancel_right
      rw [← splitOn_render, ← splitOn_render, hsame]
    have hbytes : data.toList = other.toList := by
      rw [← readGroups_lines data, hlines, readGroups_lines]
    exact Array.toList_inj.mp hbytes

end ScriptRecord.Proofs.HexDump.Columns
