import Mathlib.Data.List.Basic
import ScriptRecord.Charset
/-!
# Members of a charset

A charset is known by the characters that it contains (`eq_of_contains`), and these are
what its text lists, in order.  So the text of a charset gives the same charset again
(`ofString_toText`), while a text without members is only written as the empty one.
-/

namespace ScriptRecord.Proofs.Text.Members

variable {set other : Charset} {c : Char}

theorem toNat_ofNat {n : Nat} (h : n < 256) : (Char.ofNat n).toNat = n := by
  rw [Char.ofNat, dif_pos (.inl (by omega))]
  rfl

theorem toNat_ofNat_byte (b : UInt8) : (Char.ofNat b.toNat).toNat = b.toNat :=
  toNat_ofNat b.toNat_lt

theorem lt_of_contains (h : set.contains c = true) : c.toNat < 256 := by
  unfold Charset.contains at h
  split at h
  · assumption
  · cases h

theorem containsByte_ofNat (h : set.contains c = true) :
    set.containsByte (UInt8.ofNat c.toNat) = true := by
  have hlt := lt_of_contains h
  rw [Charset.contains, dif_pos hlt] at h
  simp only [Charset.containsByte, UInt8.toNat_ofNat', Nat.mod_eq_of_lt hlt]
  exact h

theorem contains_ofNat {b : UInt8} (h : set.containsByte b = true) :
    set.contains (Char.ofNat b.toNat) = true := by
  have hlt : b.toNat < 256 := b.toNat_lt
  have hchar := toNat_ofNat_byte b
  rw [Charset.containsByte] at h
  rw [Charset.contains, dif_pos (hchar.symm ▸ hlt)]
  simpa only [hchar] using h

theorem contains_ofString (text : String) (c : Char) :
    (Charset.ofString text).contains c = true ↔ c.toNat < 256 ∧ c ∈ text.toList := by
  unfold Charset.contains Charset.ofString
  by_cases hc : c.toNat < 256
  · rw [dif_pos hc]
    simp only [Vector.getElem_ofFn, List.any_eq_true, beq_iff_eq, hc, true_and]
    constructor
    · rintro ⟨d, hd, heq⟩
      rwa [← Char.ext (UInt32.toNat_inj.mp heq)]
    · intro hmem
      exact ⟨c, hmem, rfl⟩
  · simp [hc]

theorem eq_of_contains (h : ∀ c, set.contains c = true ↔ other.contains c = true) :
    set = other := by
  have hmember (set : Charset) (i : Nat) (hi : i < 256) :
      set.contains (Char.ofNat i) = set.members[i] := by
    unfold Charset.contains
    rw [dif_pos (by rwa [toNat_ofNat hi])]
    simp only [toNat_ofNat hi]
  have hmembers : set.members = other.members := by
    ext i hi
    rw [← hmember set i hi, ← hmember other i hi]
    exact Bool.eq_iff_iff.mpr (h (Char.ofNat i))
  cases set
  cases other
  rw [Charset.mk.injEq]
  exact hmembers

/-! ## The text of a charset -/

theorem mem_toText : c ∈ set.toText.toList ↔ set.contains c = true := by
  rw [Charset.toText, String.toList_ofList, Charset.toList, List.mem_filter, and_iff_right_iff_imp]
  intro h
  exact List.mem_map.mpr ⟨c.toNat, List.mem_range.mpr (lt_of_contains h), Char.ofNat_toNat c⟩

/-- The members stand in the order of their numbers, each of them once. -/
theorem pairwise_toText (set : Charset) : set.toText.toList.Pairwise (· < ·) := by
  rw [Charset.toText, String.toList_ofList, Charset.toList]
  refine List.Pairwise.filter _ (List.pairwise_map.mpr ?_)
  refine List.pairwise_lt_range.imp_of_mem fun {a b} ha hb hlt => ?_
  show (Char.ofNat a).toNat < (Char.ofNat b).toNat
  rwa [toNat_ofNat (List.mem_range.mp ha), toNat_ofNat (List.mem_range.mp hb)]

theorem ofString_toText (set : Charset) : Charset.ofString set.toText = set := by
  apply eq_of_contains
  intro c
  rw [contains_ofString, mem_toText, and_iff_right_iff_imp]
  exact lt_of_contains

theorem isEmpty_iff : set.isEmpty = true ↔ ∀ c, set.contains c = false := by
  have hnil : set.isEmpty = true ↔ set.toText.toList = [] := by
    rw [Charset.isEmpty, Charset.size, Charset.toText, String.toList_ofList, beq_iff_eq,
      List.length_eq_zero_iff]
  rw [hnil, List.eq_nil_iff_forall_not_mem]
  simp only [mem_toText, Bool.not_eq_true]

/-- Only characters below 256 make a charset that is not empty. -/
theorem isEmpty_ofString (text : String) :
    (Charset.ofString text).isEmpty = true ↔ ∀ c ∈ text.toList, 256 ≤ c.toNat := by
  rw [isEmpty_iff]
  refine forall_congr' fun c => ?_
  rw [← Bool.not_eq_true, contains_ofString, not_and, imp_not_comm, Nat.not_lt]

end ScriptRecord.Proofs.Text.Members
