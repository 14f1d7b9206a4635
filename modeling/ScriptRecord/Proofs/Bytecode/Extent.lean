import ScriptRecord.Proofs.BytesAt
import ScriptRecord.Bytecode.Instruction
/-!
# How far operands reach

An operand says with its first bytes how many bytes it takes (`extent`).  If they are
all there it is read and takes just these, and otherwise it is truncated; nothing else
can be wrong with it.  Only a struct has no extent in this sense: it is found by its
bytes, behind any number of zeros (`ZerosAt`), and that can fail in two ways.
-/

namespace ScriptRecord.Proofs.Bytecode.Extent

open ScriptRecord.Bytecode
open ScriptRecord.Proofs.BytesAt

/-- The bytes that an operand takes.  If a length or a count in front of it is cut short,
the bytes of that alone; of a struct, those of its length. -/
def extent (data : Bytes) (pos : Nat) : Layout → Nat
  | .none => 0
  | .skip count => count
  | .key | .integer | .hex | .float | .jump => 4
  | .vector2 => 8
  | .vector3 => 12
  | .string | .wideString => 4 + Operand.length ((data.word32? .little pos).getD 0)
  | .choices => 4 + 6 * ((data.word32? .little pos).getD 0).toNat
  | .struct => 2

/-- So many zeros stand at a position, and no more. -/
structure ZerosAt (data : Bytes) (pos count : Nat) : Prop where
  zeros : ∀ i < count, data[pos + i]? = some 0
  ends : data[pos + count]? ≠ some 0

variable {data : Bytes} {pos : Nat}

/-! ## Values that are read together -/

/-- Values that can all be read are read together. -/
theorem exists_mapM {α β : Type} {f : α → Option β} {xs : List α}
    (h : ∀ x ∈ xs, ∃ y, f x = some y) : ∃ ys, xs.mapM f = some ys := by
  induction xs with
  | nil => exact ⟨[], rfl⟩
  | cons x xs ih =>
      obtain ⟨y, hy⟩ := h x List.mem_cons_self
      obtain ⟨ys, hys⟩ := ih fun z hz => h z (List.mem_cons_of_mem x hz)
      refine ⟨y :: ys, ?_⟩
      rw [List.mapM_cons, hy, hys]
      rfl

theorem mapM_eq_none {α β : Type} {f : α → Option β} {xs : List α} {x : α} (hx : x ∈ xs)
    (h : f x = none) : xs.mapM f = none := by
  induction xs with
  | nil => cases hx
  | cons y xs ih =>
      rw [List.mapM_cons]
      rcases List.mem_cons.mp hx with rfl | hmem
      · rw [h]
        rfl
      · rw [ih hmem]
        cases f y <;> rfl

/-! ## Operands that fit -/

theorem read_word_of_fits (make : UInt32 → Operand) (h : pos + 4 ≤ data.size) :
    ∃ operand, Operand.sized 4 ((data.word32? .little pos).map make) = .ok (operand, 4) := by
  obtain ⟨word, hword⟩ := @exists_word32 data pos .little h
  exact ⟨make word, by rw [hword]; rfl⟩

theorem readVector_of_fits {count : Nat} (h : pos + 4 * count ≤ data.size) :
    ∃ operand, Operand.readVector data pos count = .ok (operand, 4 * count) := by
  have hwords : ∃ words, (List.range count).mapM (fun i => data.word32? .little (pos + 4 * i)) =
      some words := by
    apply exists_mapM
    intro i hi
    rw [List.mem_range] at hi
    exact exists_word32 (by omega)
  obtain ⟨words, hwords⟩ := hwords
  refine ⟨.vector words, ?_⟩
  rw [Operand.readVector, hwords]
  rfl

theorem readText_of_fits (make : List UInt8 → Operand)
    (h : pos + (4 + Operand.length ((data.word32? .little pos).getD 0)) ≤ data.size) :
    ∃ operand, Operand.readText data pos make =
      .ok (operand, 4 + Operand.length ((data.word32? .little pos).getD 0)) := by
  obtain ⟨word, hword⟩ := @exists_word32 data pos .little (by omega)
  rw [hword, Option.getD_some] at h ⊢
  refine ⟨make (data.extract (pos + 4) (pos + 4 + Operand.length word)).toList, ?_⟩
  rw [Operand.readText, hword]
  dsimp only
  rw [Bytes.slice?, if_pos (by omega)]
  rfl

theorem readChoices_of_fits
    (h : pos + (4 + 6 * ((data.word32? .little pos).getD 0).toNat) ≤ data.size) :
    ∃ operand, Operand.readChoices data pos =
      .ok (operand, 4 + 6 * ((data.word32? .little pos).getD 0).toNat) := by
  obtain ⟨count, hcount⟩ := @exists_word32 data pos .little (by omega)
  rw [hcount, Option.getD_some] at h ⊢
  have htargets : ∃ targets, Operand.choiceTargets data (pos + 4) count.toNat = some targets := by
    apply exists_mapM
    intro i hi
    rw [List.mem_range] at hi
    obtain ⟨weight, hweight⟩ := @exists_word16 data (pos + 4 + 2 * i) .little (by omega)
    obtain ⟨distance, hdistance⟩ :=
      @exists_word32 data (pos + 4 + 2 * count.toNat + 4 * i) .little (by omega)
    exact ⟨_, by rw [hweight]; simp only [Option.bind_eq_bind, Option.bind_some]; rw [hdistance]; rfl⟩
  obtain ⟨targets, htargets⟩ := htargets
  refine ⟨.choices targets, ?_⟩
  rw [Operand.readChoices, hcount]
  dsimp only
  rw [if_neg (by omega), htargets, Nat.mul_comm count.toNat]
  rfl

/-- An operand whose bytes are all there is read, and takes these bytes. -/
theorem read_of_fits {layout : Layout} (hplain : layout ≠ .struct)
    (h : pos + extent data pos layout ≤ data.size) :
    ∃ operand, Operand.read data pos layout = .ok (operand, extent data pos layout) := by
  cases layout with
  | none => exact ⟨.none, rfl⟩
  | skip count =>
      have hinside : pos + count ≤ data.size := h
      refine ⟨.hidden, ?_⟩
      rw [Operand.read, Bytes.slice?, if_pos hinside]
      rfl
  | key | integer | hex | float | jump => exact read_word_of_fits _ h
  | vector2 | vector3 => exact readVector_of_fits h
  | string | wideString => exact readText_of_fits _ h
  | choices => exact readChoices_of_fits h
  | struct => exact absurd rfl hplain

/-! ## Operands that are cut short -/

theorem read_word_of_short (make : UInt32 → Operand) (h : data.size < pos + 4) :
    Operand.sized 4 ((data.word32? .little pos).map make) = .error .truncated := by
  rw [word32_eq_none h]
  rfl

theorem readVector_of_short {count : Nat} (h : data.size < pos + 4 * (count + 1)) :
    Operand.readVector data pos (count + 1) = .error .truncated := by
  have hlast : data.word32? .little (pos + 4 * count) = none := word32_eq_none (by omega)
  rw [Operand.readVector, mapM_eq_none (List.mem_range.mpr (Nat.lt_succ_self count)) hlast]
  rfl

theorem readText_of_short (make : List UInt8 → Operand)
    (h : data.size < pos + (4 + Operand.length ((data.word32? .little pos).getD 0))) :
    Operand.readText data pos make = .error .truncated := by
  rw [Operand.readText]
  cases hword : data.word32? .little pos with
  | none => rfl
  | some word =>
      rw [hword, Option.getD_some] at h
      dsimp only
      rw [Bytes.slice?, if_neg (by omega)]
      rfl

theorem readChoices_of_short
    (h : data.size < pos + (4 + 6 * ((data.word32? .little pos).getD 0).toNat)) :
    Operand.readChoices data pos = .error .truncated := by
  rw [Operand.readChoices]
  cases hcount : data.word32? .little pos with
  | none => rfl
  | some count =>
      rw [hcount, Option.getD_some] at h
      have hinside : pos + 4 ≤ data.size := by
        by_contra hshort
        rw [word32_eq_none (by omega)] at hcount
        cases hcount
      dsimp only
      rw [if_pos (by omega)]

/-- Of any operand but a struct, nothing else can be wrong than that it is cut short. -/
theorem read_of_short {layout : Layout} (hplain : layout ≠ .struct)
    (h : data.size < pos + extent data pos layout) (hpos : pos ≤ data.size) :
    Operand.read data pos layout = .error .truncated := by
  cases layout with
  | none => exact absurd h (Nat.not_lt_of_le hpos)
  | skip count =>
      have houtside : data.size < pos + count := h
      rw [Operand.read, Bytes.slice?, if_neg (Nat.not_le_of_lt houtside)]
      rfl
  | key | integer | hex | float | jump => exact read_word_of_short _ h
  | vector2 | vector3 => exact readVector_of_short h
  | string | wideString => exact readText_of_short _ h
  | choices => exact readChoices_of_short h
  | struct => exact absurd rfl hplain

/-! ## Structs -/

theorem ZerosAt.unique {count other : Nat} (h : ZerosAt data pos count)
    (hother : ZerosAt data pos other) : count = other := by
  rcases Nat.lt_trichotomy count other with hlt | heq | hgt
  · exact absurd (hother.zeros count hlt) h.ends
  · exact heq
  · exact absurd (h.zeros other hgt) hother.ends

/-- The search for a byte other than zero passes over the zeros. -/
theorem exists_zerosAt (data : Bytes) (pos : Nat) :
    ∃ count, ZerosAt data pos count ∧ data.seek (· != 0) pos = pos + count := by
  fun_induction Bytes.seek data (· != 0) pos with
  | case1 pos hlt hbyte =>
      refine ⟨0, ⟨fun i hi => absurd hi (Nat.not_lt_zero i), ?_⟩, rfl⟩
      rw [Nat.add_zero, Array.getElem?_eq_getElem hlt]
      simpa using hbyte
  | case2 pos hlt hbyte ih =>
      obtain ⟨count, hzeros, hseek⟩ := ih
      have hzero : data[pos] = 0 := by simpa using hbyte
      refine ⟨count + 1, ⟨?_, ?_⟩, by rw [hseek]; omega⟩
      · intro i hi
        cases i with
        | zero => rw [Nat.add_zero, Array.getElem?_eq_getElem hlt, hzero]
        | succ i =>
            rw [Nat.add_comm i, ← Nat.add_assoc]
            exact hzeros.zeros i (Nat.lt_of_succ_lt_succ hi)
      · rw [Nat.add_comm count, ← Nat.add_assoc]
        exact hzeros.ends
  | case3 pos hge =>
      refine ⟨0, ⟨fun i hi => absurd hi (Nat.not_lt_zero i), ?_⟩, rfl⟩
      rw [Array.getElem?_eq_none (by omega)]
      exact (Option.some_ne_none 0).symm

theorem readStruct_of_zerosAt {length : UInt16} {fill : Nat}
    (hlength : data.word16? .little pos = some length) (hfill : ZerosAt data (pos + 2) fill) :
    Operand.readStruct data pos =
      if (data.extract (pos + 2 + fill) (pos + 2 + fill + 2)).toList = [0x01, 0x00] then
        .ok (.struct (pos + fill), 4 + fill +
          ((pos + fill : Nat) + length.toInt16.toInt - (pos + 2 + fill + 2 : Nat)).toNat)
      else .error (.noStruct (pos + 2 + fill)
        (data.extract (pos + 2 + fill) (pos + 2 + fill + 2)).toList) := by
  obtain ⟨count, hcount, hseek⟩ := exists_zerosAt data (pos + 2)
  rw [hcount.unique hfill] at hseek
  have hstart : pos + 2 + fill - 2 = pos + fill := by omega
  rw [Operand.readStruct, hlength]
  dsimp only
  rw [hseek, hstart]
  congr 3
  omega

end ScriptRecord.Proofs.Bytecode.Extent
