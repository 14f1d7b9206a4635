import ScriptRecord.Key
import Mathlib.Data.Nat.Bitwise
/-!
# The checksum register

Shifting a bit out of the register is linear in exclusive or (`bitStep_xor`), and no two
registers lead to the same one (`bitStep_injective`), as the generator has its highest
bit set.  What stands above the bits that are shifted out only moves down
(`bitSteps_split`).  So the table step takes a byte in by eight shifts, whatever the
register and the byte are (`byteStep_eq`).
-/

namespace ScriptRecord.Proofs.Checksum.Register

open ScriptRecord.Checksum

variable {register : UInt32} {n high : Nat}

/-! ## One shift -/

theorem bitStep_eq (register : UInt32) :
    bitStep register =
      if register.toNat % 2 = 0 then register >>> 1 else (register >>> 1) ^^^ polynomial := by
  have hlow : register &&& 1 = 0 ↔ register.toNat % 2 = 0 := by
    rw [← UInt32.toNat_inj, UInt32.toNat_and]
    exact Nat.and_one_is_mod _ ▸ Iff.rfl
  rw [bitStep, if_congr hlow rfl rfl]

theorem xor_cancel (a b c : UInt32) : (a ^^^ c) ^^^ (b ^^^ c) = a ^^^ b := by
  rw [UInt32.xor_comm b, UInt32.xor_assoc, ← UInt32.xor_assoc c, UInt32.xor_self, UInt32.zero_xor]

theorem bitStep_xor (a b : UInt32) : bitStep (a ^^^ b) = bitStep a ^^^ bitStep b := by
  have hparity : (a ^^^ b).toNat % 2 = (a.toNat + b.toNat) % 2 := by
    rw [UInt32.toNat_xor, Nat.xor_mod_two_eq]
  simp only [bitStep_eq, UInt32.shiftRight_xor, hparity]
  by_cases ha : a.toNat % 2 = 0 <;> by_cases hb : b.toNat % 2 = 0
  · rw [if_pos (by omega), if_pos ha, if_pos hb]
  · rw [if_neg (by omega), if_pos ha, if_neg hb, UInt32.xor_assoc]
  · rw [if_neg (by omega), if_neg ha, if_pos hb, UInt32.xor_assoc, UInt32.xor_comm (b >>> 1),
      UInt32.xor_assoc]
  · -- Both add the generator, and it cancels.
    rw [if_pos (by omega), if_neg ha, if_neg hb, xor_cancel]

theorem toNat_shift (register count : UInt32) (n : Nat) (h : count.toNat % 32 = n) :
    (register >>> count).toNat = register.toNat / 2 ^ n := by
  rw [UInt32.toNat_shiftRight, h, Nat.shiftRight_eq_div_pow]

/-- Nothing but zero is shifted to zero: the highest bit of the generator is set, and a shifted
register has none there to meet it. -/
theorem eq_zero_of_bitStep (h : bitStep register = 0) : register = 0 := by
  have hlt := register.toNat_lt
  have hhalf := toNat_shift register 1 1 rfl
  rw [bitStep_eq] at h
  by_cases heven : register.toNat % 2 = 0
  · rw [if_pos heven] at h
    rw [h] at hhalf
    apply UInt32.toNat_inj.mp
    simp only [UInt32.toNat_zero] at hhalf ⊢
    omega
  · rw [if_neg heven] at h
    rw [UInt32.xor_eq_zero_iff.mp h] at hhalf
    have hgenerator : polynomial.toNat = 0xEDB88320 := rfl
    omega

theorem bitStep_injective : Function.Injective bitStep := by
  intro a b h
  apply UInt32.xor_eq_zero_iff.mp
  apply eq_zero_of_bitStep
  rw [bitStep_xor, h, UInt32.xor_self]

/-! ## Several shifts -/

theorem bitSteps_xor (n : Nat) (a b : UInt32) :
    bitSteps n (a ^^^ b) = bitSteps n a ^^^ bitSteps n b := by
  induction n generalizing a b with
  | zero => rfl
  | succ n ih => rw [bitSteps, bitSteps, bitSteps, bitStep_xor, ih]

theorem bitSteps_injective (n : Nat) : Function.Injective (bitSteps n) := by
  induction n with
  | zero => exact fun _ _ h => h
  | succ n ih => exact fun _ _ h => bitStep_injective (ih h)

theorem bitSteps_add (m n : Nat) (register : UInt32) :
    bitSteps (m + n) register = bitSteps n (bitSteps m register) := by
  induction m generalizing register with
  | zero => rw [Nat.zero_add, bitSteps]
  | succ m ih => rw [Nat.succ_add, bitSteps, bitSteps, ih]

theorem bitStep_double (h : 2 * high < 2 ^ 32) :
    bitStep (UInt32.ofNat (2 * high)) = UInt32.ofNat high := by
  have hdouble : (UInt32.ofNat (2 * high)).toNat = 2 * high := UInt32.toNat_ofNat_of_lt' h
  have hhigh : high < 2 ^ 32 := by omega
  have hhalf : (UInt32.ofNat high).toNat = high := UInt32.toNat_ofNat_of_lt' hhigh
  apply UInt32.toNat_inj.mp
  rw [bitStep_eq, if_pos (by omega), toNat_shift _ 1 1 rfl, hdouble, hhalf]
  omega

/-- Clear bits at the low end are shifted out without a trace. -/
theorem bitSteps_clear (h : 2 ^ n * high < 2 ^ 32) :
    bitSteps n (UInt32.ofNat (2 ^ n * high)) = UInt32.ofNat high := by
  induction n with
  | zero => rw [bitSteps, Nat.pow_zero, Nat.one_mul]
  | succ n ih =>
      have hdouble : 2 ^ (n + 1) * high = 2 * (2 ^ n * high) := by
        rw [Nat.pow_succ, Nat.mul_comm _ 2, Nat.mul_assoc]
      rw [hdouble] at h ⊢
      rw [bitSteps, bitStep_double h]
      exact ih (by omega)

/-- What stands above the bits that are shifted out only moves down. -/
theorem bitSteps_split (n high low : Nat) (h : 2 ^ n * high < 2 ^ 32) (hlow : low < 2 ^ n) :
    bitSteps n (UInt32.ofNat (2 ^ n * high + low)) =
      UInt32.ofNat high ^^^ bitSteps n (UInt32.ofNat low) := by
  have hdisjoint : 2 ^ n * high + low = (2 ^ n * high) ^^^ low := by
    apply Nat.eq_of_testBit_eq
    intro i
    rw [Nat.testBit_xor, Nat.testBit_two_pow_mul_add _ hlow, Nat.testBit_two_pow_mul]
    by_cases hi : i < n
    · simp [hi, Nat.not_le.mpr hi]
    · have hclear := Nat.testBit_lt_two_pow
        (Nat.lt_of_lt_of_le hlow (Nat.pow_le_pow_right (by decide) (Nat.not_lt.mp hi)))
      simp [hi, hclear, Nat.not_lt.mp hi]
  rw [hdisjoint, UInt32.ofNat_xor, bitSteps_xor, bitSteps_clear h]

/-! ## One byte -/

/-- A byte meets only the bits that are shifted out. -/
theorem shift_xor_byte (register : UInt32) (byte : UInt8) :
    (register ^^^ byte.toUInt32) >>> 8 = register >>> 8 := by
  have hbyte : byte.toUInt32 >>> 8 = 0 := by
    apply UInt32.toNat_inj.mp
    rw [toNat_shift _ 8 8 rfl, UInt8.toNat_toUInt32]
    exact Nat.div_eq_of_lt byte.toNat_lt
  rw [UInt32.shiftRight_xor, hbyte, UInt32.xor_zero]

/-- The table holds eight shifts of each byte, so a byte step is eight shifts of the register that
the byte has met. -/
theorem byteStep_eq (register : UInt32) (byte : UInt8) :
    byteStep register byte = bitSteps 8 (register ^^^ byte.toUInt32) := by
  have hhigh := shift_xor_byte register byte
  simp only [byteStep, table, Vector.getElem_ofFn]
  generalize register ^^^ byte.toUInt32 = input at hhigh ⊢
  have hlt := input.toNat_lt
  have hsplit := bitSteps_split 8 (input.toNat / 2 ^ 8) (input.toNat % 2 ^ 8)
    (by omega) (by omega)
  rw [Nat.div_add_mod, UInt32.ofNat_toNat, ← toNat_shift input 8 8 rfl, UInt32.ofNat_toNat,
    hhigh] at hsplit
  rw [hsplit, UInt32.toNat_toUInt8]

end ScriptRecord.Proofs.Checksum.Register
