import ScriptRecord.Proofs.Checksum.Bitwise
import Mathlib.Data.Nat.Digits.Lemmas
/-!
# Names that differ in a few bytes

The register has room for four bytes at once, so up to four of them meet it like one
number (`foldl_window`) and no two such numbers lead to the same register.  Bytes that
follow keep two registers apart (`foldl_injective`).  Hence names whose folded bytes
differ within four places have the same key only if they fold to the same text
(`ofName_eq_iff_of_close`).
-/

namespace ScriptRecord.Proofs.Checksum.CloseNames

open ScriptRecord.Checksum
open ScriptRecord.Proofs.Checksum.Register
open ScriptRecord.Proofs.Checksum.Bitwise

/-- Two byte strings of one length that agree outside of four places in a row. -/
structure Close (x y : List UInt8) : Prop where
  length_eq : x.length = y.length
  elsewhere : ∃ start, ∀ i, i < start ∨ start + 4 ≤ i → x[i]? = y[i]?

/-- Some bytes as one number, the first byte lowest. -/
def word (bytes : List UInt8) : Nat :=
  Nat.ofDigits 256 (bytes.map UInt8.toNat)

variable {x y w w' : List UInt8} {register : UInt32}

/-! ## Windows -/

theorem word_cons (byte : UInt8) (bytes : List UInt8) :
    word (byte :: bytes) = 2 ^ 8 * word bytes + byte.toNat := by
  rw [word, List.map_cons, Nat.ofDigits_cons, Nat.add_comm]
  rfl

theorem digit_lt (bytes : List UInt8) : ∀ digit ∈ bytes.map UInt8.toNat, digit < 256 := by
  simp only [List.mem_map]
  rintro _ ⟨byte, -, rfl⟩
  exact byte.toNat_lt

theorem word_lt (bytes : List UInt8) : word bytes < 256 ^ bytes.length := by
  have h := Nat.ofDigits_lt_base_pow_length (by decide : 1 < 256) (digit_lt bytes)
  rwa [List.length_map] at h

theorem eq_of_word_eq (hlength : w.length = w'.length) (h : word w = word w') : w = w' := by
  have hdigits := Nat.ofDigits_inj_of_len_eq (by decide : 1 < 256)
    (by rw [List.length_map, List.length_map, hlength]) (digit_lt w) (digit_lt w') h
  exact List.map_injective_iff.mpr (fun _ _ => UInt8.toNat_inj.mp) hdigits

theorem foldl_window (register : UInt32) (hshort : w.length ≤ 4) :
    w.foldl byteStep register =
      bitSteps (8 * w.length) (register ^^^ UInt32.ofNat (word w)) := by
  induction w generalizing register with
  | nil => exact UInt32.xor_zero.symm
  | cons byte bytes ih =>
      rw [List.length_cons] at hshort
      have hpow : 256 ^ bytes.length ≤ 256 ^ 3 := Nat.pow_le_pow_right (by decide) (by omega)
      have hlt := word_lt bytes
      have hsplit := bitSteps_split 8 (word bytes) byte.toNat (by omega) byte.toNat_lt
      rw [List.foldl_cons, ih _ (by omega), byteStep_eq, List.length_cons, Nat.mul_succ,
        Nat.add_comm, bitSteps_add, word_cons, bitSteps_xor 8, bitSteps_xor 8, hsplit,
        UInt32.ofNat_uInt8ToNat, UInt32.xor_assoc, UInt32.xor_comm (UInt32.ofNat (word bytes))]

theorem toNat_word (hshort : w.length ≤ 4) : (UInt32.ofNat (word w)).toNat = word w := by
  have hpow : 256 ^ w.length ≤ 256 ^ 4 := Nat.pow_le_pow_right (by decide) hshort
  exact UInt32.toNat_ofNat_of_lt' ((word_lt w).trans_le hpow)

theorem eq_of_foldl_window (hlength : w.length = w'.length) (hshort : w.length ≤ 4)
    (h : w.foldl byteStep register = w'.foldl byteStep register) : w = w' := by
  have hshort' : w'.length ≤ 4 := hlength ▸ hshort
  rw [foldl_window _ hshort, foldl_window _ hshort', hlength] at h
  have hwords := (UInt32.xor_right_inj register).mp (bitSteps_injective _ h)
  apply eq_of_word_eq hlength
  rw [← toNat_word hshort, hwords, toNat_word hshort']

/-! ## The bytes around a window -/

theorem byteStep_injective (byte : UInt8) :
    Function.Injective fun register => byteStep register byte := by
  intro a b h
  simp only [byteStep_eq] at h
  exact (UInt32.xor_left_inj _).mp (bitSteps_injective 8 h)

theorem foldl_injective (bytes : List UInt8) : Function.Injective (bytes.foldl byteStep) := by
  induction bytes with
  | nil => exact fun _ _ h => h
  | cons byte bytes ih => exact fun _ _ h => byteStep_injective byte (ih h)

theorem Close.exists_window (h : Close x y) :
    ∃ front w w' back, x = front ++ (w ++ back) ∧ y = front ++ (w' ++ back) ∧
      w.length = w'.length ∧ w.length ≤ 4 := by
  obtain ⟨start, helsewhere⟩ := h.elsewhere
  have hfront : y.take start = x.take start := by
    apply List.ext_getElem?
    intro i
    rw [List.getElem?_take, List.getElem?_take]
    by_cases hi : i < start
    · rw [if_pos hi, if_pos hi, helsewhere i (.inl hi)]
    · rw [if_neg hi, if_neg hi]
  have hback : (y.drop start).drop 4 = (x.drop start).drop 4 := by
    apply List.ext_getElem?
    intro i
    rw [List.drop_drop, List.drop_drop, List.getElem?_drop, List.getElem?_drop,
      helsewhere _ (.inr (Nat.le_add_right _ _))]
  refine ⟨x.take start, (x.drop start).take 4, (y.drop start).take 4, (x.drop start).drop 4,
    ?_, ?_, ?_, List.length_take_le ..⟩
  · rw [List.take_append_drop, List.take_append_drop]
  · rw [← hfront, ← hback, List.take_append_drop, List.take_append_drop]
  · simp only [List.length_take, List.length_drop, h.length_eq]

theorem eq_of_ofBytes_eq (h : Close x y) (heq : ofBytes x = ofBytes y) : x = y := by
  obtain ⟨front, w, w', back, rfl, rfl, hlength, hshort⟩ := h.exists_window
  simp only [ofBytes, List.foldl_append] at heq
  rw [eq_of_foldl_window hlength hshort (foldl_injective back heq)]

/-! ## Names -/

theorem utf8_injective : Function.Injective utf8 := by
  intro a b h
  exact String.toByteArray_inj.mp (ByteArray.ext (Array.toList_inj.mp h))

/-- Names whose folded forms are close have one key if and only if they are the same when folded. -/
theorem ofName_eq_iff_of_close {a b : String} (h : Close (utf8 (folded a)) (utf8 (folded b))) :
    Key.ofName a = Key.ofName b ↔ folded a = folded b := by
  rw [ofName_eq, ofName_eq, Key.mk.injEq]
  constructor
  · exact fun heq => utf8_injective (eq_of_ofBytes_eq h heq)
  · exact fun heq => by rw [heq]

/-- The window is `A9 5C 31 61` in one name and `A8 5C 39 78` in the other, in the middle of a
character on its left. -/
theorem ofName_eq_iff_of_close_accents :
    Close (utf8 (folded "Café/1A2b")) (utf8 (folded "CAFè\\9x2B")) ∧
      folded "Café/1A2b" ≠ folded "CAFè\\9x2B" ∧
      Key.ofName "Café/1A2b" ≠ Key.ofName "CAFè\\9x2B" := by
  have hclose : Close (utf8 (folded "Café/1A2b")) (utf8 (folded "CAFè\\9x2B")) := by
    have hlength : (utf8 (folded "Café/1A2b")).length = 10 ∧
        (utf8 (folded "CAFè\\9x2B")).length = 10 := by decide +kernel
    have hnear : ∀ i < 10, i < 4 ∨ 4 + 4 ≤ i →
        (utf8 (folded "Café/1A2b"))[i]? = (utf8 (folded "CAFè\\9x2B"))[i]? := by decide +kernel
    refine ⟨hlength.1.trans hlength.2.symm, 4, fun i hi => ?_⟩
    by_cases hlt : i < 10
    · exact hnear i hlt hi
    · rw [List.getElem?_eq_none (by omega), List.getElem?_eq_none (by omega)]
  have hne : folded "Café/1A2b" ≠ folded "CAFè\\9x2B" := by decide +kernel
  exact ⟨hclose, hne, fun heq => hne ((ofName_eq_iff_of_close hclose).mp heq)⟩

end ScriptRecord.Proofs.Checksum.CloseNames
