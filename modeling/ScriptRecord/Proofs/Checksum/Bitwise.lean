import ScriptRecord.Proofs.Checksum.Register
/-!
# The checksum bit by bit

`bitwise` takes a message into the register one bit at a time, lowest bit of a byte
first, without a table.  The key of a name is this checksum of the UTF-8 bytes of the
folded name (`ofName_bitwise`), whether the name is folded character by character or
byte by byte (`utf8_folded`).
-/

namespace ScriptRecord.Proofs.Checksum.Bitwise

open ScriptRecord.Checksum
open ScriptRecord.Proofs.Checksum.Register

/-- Take one bit of a message into the register. Where it differs from the bit that is shifted
out, the generator is added. -/
def takeBit (register : UInt32) (bit : Bool) : UInt32 :=
  if register.toNat.testBit 0 = bit then register >>> 1 else (register >>> 1) ^^^ 0xEDB88320

/-- The bits of a byte, lowest first. -/
def bits (byte : UInt8) : List Bool :=
  (List.range 8).map byte.toNat.testBit

/-- The reflected cyclic redundancy check of some bytes, with no final inversion. -/
def bitwise (bytes : List UInt8) : UInt32 :=
  (bytes.flatMap bits).foldl takeBit 0xFFFFFFFF

/-- A character with ASCII capitals in lower case and a backslash for a slash. -/
def fold (c : Char) : Char :=
  if 'A' ≤ c ∧ c ≤ 'Z' then Char.ofNat (c.toNat + 32) else if c = '/' then '\\' else c

/-- The byte that folding leaves in place of one. Bytes above ASCII stay. -/
def foldByte (byte : UInt8) : UInt8 :=
  if 0x41 ≤ byte ∧ byte ≤ 0x5A then byte + 32 else if byte = 0x2F then 0x5C else byte

/-- A name as far as its key depends on it. -/
def folded (name : String) : String :=
  String.ofList (name.toList.map fold)

/-- The bytes of a text. -/
def utf8 (text : String) : List UInt8 :=
  text.toUTF8.data.toList

/-! ## Bits of a message -/

theorem takeBit_eq (register : UInt32) (bit : Bool) :
    takeBit register bit = bitStep (register ^^^ UInt32.ofNat bit.toNat) := by
  have hshift : UInt32.ofNat bit.toNat >>> 1 = 0 := by cases bit <;> rfl
  have hparity : (register ^^^ UInt32.ofNat bit.toNat).toNat % 2 = 0 ↔
      register.toNat.testBit 0 = bit := by
    rw [UInt32.toNat_xor, Nat.xor_mod_two_eq, Nat.testBit_zero]
    cases bit with
    | false => simp
    | true =>
        have hone : (UInt32.ofNat true.toNat).toNat = 1 := rfl
        rw [hone, decide_eq_true_iff]
        omega
  rw [bitStep_eq, UInt32.shiftRight_xor, hshift, UInt32.xor_zero, if_congr hparity rfl rfl]
  rfl

/-- Bits that come in one by one do the same as if the register met all of them at first. -/
theorem foldl_takeBit {n value : Nat} (register : UInt32) (hn : n ≤ 32) (hvalue : value < 2 ^ n) :
    ((List.range n).map value.testBit).foldl takeBit register =
      bitSteps n (register ^^^ UInt32.ofNat value) := by
  induction n generalizing value register with
  | zero =>
      have hzero : value = 0 := by omega
      rw [hzero]
      exact UInt32.xor_zero.symm
  | succ n ih =>
      have hword : 2 ^ (n + 1) ≤ 2 ^ 32 := Nat.pow_le_pow_right (by decide) hn
      have hhalf : value / 2 < 2 ^ n := by omega
      have hlater : value.testBit ∘ Nat.succ = (value / 2).testBit := by
        funext i
        exact Nat.testBit_succ ..
      have hfirst : (value.testBit 0).toNat = value % 2 := by
        rw [Nat.testBit_zero]
        rcases Nat.mod_two_eq_zero_or_one value with h | h <;> rw [h] <;> rfl
      have hsplit : bitStep (UInt32.ofNat value) =
          UInt32.ofNat (value / 2) ^^^ bitStep (UInt32.ofNat (value % 2)) := by
        have h := bitSteps_split 1 (value / 2) (value % 2) (by omega) (by omega)
        rwa [Nat.pow_one, Nat.div_add_mod] at h
      rw [List.range_succ_eq_map, List.map_cons, List.map_map, hlater, List.foldl_cons,
        ih _ (by omega) hhalf, bitSteps, takeBit_eq, hfirst, bitStep_xor, bitStep_xor, hsplit,
        UInt32.xor_assoc, UInt32.xor_comm (UInt32.ofNat (value / 2))]

theorem foldl_bits (register : UInt32) (byte : UInt8) :
    (bits byte).foldl takeBit register = byteStep register byte := by
  rw [bits, foldl_takeBit register (by decide) byte.toNat_lt, byteStep_eq,
    UInt32.ofNat_uInt8ToNat]

theorem bitwise_eq (bytes : List UInt8) : bitwise bytes = ofBytes bytes := by
  rw [bitwise, List.foldl_flatMap, ofBytes]
  simp only [foldl_bits]
  rfl

/-! ## Folding -/

theorem fold_eq_normalize (c : Char) : fold c = Key.normalize c := by
  rw [fold, Key.normalize]
  by_cases hcapital : 'A' ≤ c ∧ c ≤ 'Z'
  · have hrange : c.val ≥ 'A'.val ∧ c.val ≤ 'Z'.val := hcapital
    have hle : c.toNat ≤ 90 := hcapital.2
    have hslash : c ≠ '/' := by
      rintro rfl
      exact absurd hcapital (by decide)
    have hlower : c.toLower.toNat = (c.val + 32).toNat := congrArg Char.toNat (dif_pos hrange)
    have hsum : (c.val + 32).toNat = c.toNat + 32 := by
      rw [UInt32.toNat_add]
      exact Nat.mod_eq_of_lt (by change c.toNat + 32 < 2 ^ 32; omega)
    rw [if_pos hcapital, if_neg hslash]
    apply Char.toNat_inj.mp
    rw [hlower, hsum, Char.ofNat, dif_pos (.inl (by omega))]
    rfl
  · have hlower : c.toLower = c := dif_neg hcapital
    rw [if_neg hcapital, hlower]

theorem foldByte_of_le {byte : UInt8} (h : 0x80 ≤ byte.toNat) : foldByte byte = byte := by
  have hcapital : ¬ (0x41 ≤ byte ∧ byte ≤ 0x5A) := fun hle => by
    have hupper : byte.toNat ≤ 0x5A := hle.2
    omega
  have hslash : byte ≠ 0x2F := by
    rintro rfl
    exact absurd h (by decide)
  rw [foldByte, if_neg hcapital, if_neg hslash]

theorem fold_of_le {c : Char} (h : 0x80 ≤ c.toNat) : fold c = c := by
  have hcapital : ¬ ('A' ≤ c ∧ c ≤ 'Z') := fun hle => by
    have hupper : c.toNat ≤ 90 := hle.2
    omega
  have hslash : c ≠ '/' := by
    rintro rfl
    exact absurd h (by decide)
  rw [fold, if_neg hcapital, if_neg hslash]

/-- All bytes of a character that takes several are above ASCII. -/
theorem le_of_mem_utf8EncodeChar {c : Char} {byte : UInt8} (h : 0x80 ≤ c.toNat)
    (hbyte : byte ∈ String.utf8EncodeChar c) : 0x80 ≤ byte.toNat := by
  have hbig {n : Nat} (hle : 0x80 ≤ n) (hlt : n < 0x100) : 0x80 ≤ (UInt8.ofNat n).toNat := by
    rwa [UInt8.toNat_ofNat_of_lt' hlt]
  have hseveral : ¬ c.val.toNat ≤ 127 := Nat.not_le.mpr h
  simp only [String.utf8EncodeChar, if_neg hseveral] at hbyte
  split at hbyte
  · simp only [List.mem_cons, List.not_mem_nil, or_false] at hbyte
    rcases hbyte with rfl | rfl <;> exact hbig (by omega) (by omega)
  · split at hbyte
    · simp only [List.mem_cons, List.not_mem_nil, or_false] at hbyte
      rcases hbyte with rfl | rfl | rfl <;> exact hbig (by omega) (by omega)
    · simp only [List.mem_cons, List.not_mem_nil, or_false] at hbyte
      rcases hbyte with rfl | rfl | rfl | rfl <;> exact hbig (by omega) (by omega)

theorem map_foldByte (c : Char) :
    (String.utf8EncodeChar c).map foldByte = String.utf8EncodeChar (fold c) := by
  by_cases hascii : c.toNat < 0x80
  · have hall : ∀ n < 0x80, (String.utf8EncodeChar (Char.ofNat n)).map foldByte =
        String.utf8EncodeChar (fold (Char.ofNat n)) := by decide +kernel
    have h := hall c.toNat hascii
    rwa [Char.ofNat_toNat] at h
  · have hle := Nat.not_lt.mp hascii
    rw [fold_of_le hle, List.map_congr_left fun byte hbyte =>
      foldByte_of_le (le_of_mem_utf8EncodeChar hle hbyte), List.map_id']

theorem utf8_ofList (text : List Char) :
    utf8 (String.ofList text) = text.flatMap String.utf8EncodeChar := by
  rw [utf8, String.toUTF8_eq_toByteArray, String.toByteArray_ofList, List.utf8Encode,
    List.data_toByteArray]

theorem utf8_folded (name : String) : utf8 (folded name) = (utf8 name).map foldByte := by
  conv_rhs => rw [← String.ofList_toList (s := name)]
  rw [folded, utf8_ofList, utf8_ofList, List.map_flatMap, List.flatMap_map]
  simp only [map_foldByte]

theorem ofName_eq (name : String) : Key.ofName name = ⟨ofBytes (utf8 (folded name))⟩ := by
  rw [Key.ofName, Key.ofChars, folded, utf8_ofList, List.flatMap_map]
  simp only [fold_eq_normalize]

/-- The key of a name is the checksum of its folded form, bit by bit, so names that fold to the same
text have the same key.  To fold the characters and to fold the bytes is the same. -/
theorem ofName_bitwise (name : String) :
    (Key.ofName name).checksum = bitwise (utf8 (folded name)) ∧
      utf8 (folded name) = (utf8 name).map foldByte ∧
      ∀ other, folded other = folded name → Key.ofName other = Key.ofName name := by
  refine ⟨by rw [ofName_eq, bitwise_eq], utf8_folded name, fun other h => ?_⟩
  rw [ofName_eq, ofName_eq, h]

/-- The usual check inverts the last register, and has E8B7BE43 for this text. -/
example : bitwise (utf8 (folded "A")) = ~~~0xE8B7BE43 := by decide +kernel

end ScriptRecord.Proofs.Checksum.Bitwise
