import ScriptRecord.Key
import Mathlib.Algebra.Group.Nat.Defs
import Mathlib.Data.List.Induction
/-!
# Written numbers

`Writes` says which digits stand for a number: all of them are hexadecimal digits in
upper case, and the number is their value.  Zeros in front change nothing, so a key is
written in exactly eight digits (`writes_toHex`).  Digits of either case are read as the
number that they stand for, and nothing else is read (`valueFrom?_eq_some_iff_writes`).
-/

namespace ScriptRecord.Proofs.Text.HexDigits

/-- The digits, each at the place of its value. -/
def alphabet : List Char := "0123456789ABCDEF".toList

/-- The value of some digits, the first one highest. -/
def value (digits : List Char) : Nat :=
  digits.foldl (fun high c => 16 * high + alphabet.idxOf c) 0

/-- Digits that stand for a number. -/
structure Writes (digits : List Char) (n : Nat) : Prop where
  inside : ∀ c ∈ digits, c ∈ alphabet
  value_eq : value digits = n

variable {digits : List Char} {n : Nat}

/-- A property of some characters, checked for one after the other. -/
theorem forall_of_all {p : Char → Prop} [DecidablePred p] {text : List Char}
    (h : text.all (fun c => decide (p c)) = true) : ∀ c ∈ text, p c := fun c hc =>
  of_decide_eq_true (List.all_eq_true.mp h c hc)

theorem upperDigit_spec (h : n < 16) :
    Hex.upperDigit n ∈ alphabet ∧ alphabet.idxOf (Hex.upperDigit n) = n := by
  have hall : ∀ n < 16, Hex.upperDigit n ∈ alphabet ∧
      alphabet.idxOf (Hex.upperDigit n) = n := by decide +kernel
  exact hall n h

theorem Writes.concat {last : Nat} (h : Writes digits n) (hlast : last < 16) :
    Writes (digits ++ [Hex.upperDigit last]) (16 * n + last) where
  inside := by
    intro c hc
    rcases List.mem_append.mp hc with hfront | hback
    · exact h.inside c hfront
    · rw [List.mem_singleton.mp hback]
      exact (upperDigit_spec hlast).1
  value_eq := by
    rw [value, List.foldl_append, ← value, h.value_eq, List.foldl_cons, List.foldl_nil,
      (upperDigit_spec hlast).2]

theorem writes_nil : Writes [] 0 := ⟨nofun, rfl⟩

theorem writes_digits (n : Nat) : Writes (Hex.digits Hex.upperDigit n) n := by
  fun_induction Hex.digits Hex.upperDigit n with
  | case1 n h =>
      have hone := writes_nil.concat h
      rwa [Nat.mul_zero, Nat.zero_add, List.nil_append] at hone
  | case2 n _ ih =>
      have hmore := ih.concat (Nat.mod_lt n (by decide))
      rwa [Nat.div_add_mod] at hmore

theorem length_digits_le (width : Nat) (h : n < 16 ^ (width + 1)) :
    (Hex.digits Hex.upperDigit n).length ≤ width + 1 := by
  induction width generalizing n with
  | zero =>
      rw [Hex.digits, if_pos (by omega)]
      exact Nat.le_refl 1
  | succ width ih =>
      rw [Hex.digits]
      split
      · exact Nat.succ_pos _
      · rw [Nat.pow_succ] at h
        have hrest := ih (n := n / 16) (by omega)
        rw [List.length_append, List.length_singleton]
        omega

theorem value_zeros (count : Nat) : value (List.replicate count '0') = 0 := by
  induction count with
  | zero => rfl
  | succ count ih =>
      rw [List.replicate_succ', value, List.foldl_append, ← value, ih]
      decide +kernel

/-- Zeros in front change nothing. -/
theorem Writes.zeros (h : Writes digits n) (count : Nat) :
    Writes (List.replicate count '0' ++ digits) n where
  inside := by
    intro c hc
    rcases List.mem_append.mp hc with hfront | hback
    · rw [List.eq_of_mem_replicate hfront]
      decide +kernel
    · exact h.inside c hback
  value_eq := by
    rw [value, List.foldl_append, ← value, value_zeros, ← value, h.value_eq]

/-- A key is written in eight digits. -/
theorem writes_toHex (key : Key) :
    ∃ digits, key.toHex = String.ofList digits ∧ digits.length = 8 ∧
      Writes digits key.checksum.toNat := by
  have hlength := length_digits_le 7 key.checksum.toNat_lt
  refine ⟨_, rfl, ?_, (writes_digits key.checksum.toNat).zeros _⟩
  rw [List.length_leftpad]
  omega

/-! ## Reading -/

theorem lt_of_toUpper_mem {c : Char} (h : c.toUpper ∈ alphabet) : c.toNat < 0x80 := by
  have hsmall : ∀ d ∈ alphabet, d.toNat < 0x80 := forall_of_all (by decide +kernel)
  by_contra hascii
  -- Beyond ASCII a character is its own capital.
  have hupper : c.toUpper = c := dif_neg fun hletter => by
    have hle : c.toNat ≤ 'z'.toNat := hletter.2
    exact hascii (Nat.lt_of_le_of_lt hle (by decide))
  exact hascii (hsmall c (hupper ▸ h))

theorem mem_of_toUpper_mem {c : Char} (h : c.toUpper ∈ alphabet) :
    c ∈ alphabet ++ "abcdef".toList := by
  have hall : ∀ n < 0x80, (Char.ofNat n).toUpper ∈ alphabet →
      Char.ofNat n ∈ alphabet ++ "abcdef".toList := by decide +kernel
  have hc := hall c.toNat (lt_of_toUpper_mem h)
  rw [Char.ofNat_toNat] at hc
  exact hc h

theorem digitValue?_eq (c : Char) :
    Hex.digitValue? c =
      if c.toUpper ∈ alphabet then some (alphabet.idxOf c.toUpper) else none := by
  by_cases hascii : c.toNat < 0x80
  · have hall : ∀ n < 0x80, Hex.digitValue? (Char.ofNat n) =
        if (Char.ofNat n).toUpper ∈ alphabet then some (alphabet.idxOf (Char.ofNat n).toUpper)
        else none := by decide +kernel
    have h := hall c.toNat hascii
    rwa [Char.ofNat_toNat] at h
  · have habove {d : Char} (hd : d.toNat < 0x80) : ¬ c ≤ d := fun hle => by
      have hval : c.toNat ≤ d.toNat := hle
      omega
    rw [if_neg fun h => hascii (lt_of_toUpper_mem h), Hex.digitValue?,
      if_neg fun h => habove (d := '9') (by decide) h.2,
      if_neg fun h => habove (d := 'F') (by decide) h.2,
      if_neg fun h => habove (d := 'f') (by decide) h.2]

theorem valueFrom?_eq_some_iff {high : Nat} :
    Hex.valueFrom? high digits = some n ↔
      (∀ c ∈ digits.map Char.toUpper, c ∈ alphabet) ∧
        (digits.map Char.toUpper).foldl (fun high c => 16 * high + alphabet.idxOf c) high = n := by
  induction digits generalizing high with
  | nil => simp [Hex.valueFrom?]
  | cons c digits ih =>
      rw [Hex.valueFrom?, digitValue?_eq, List.map_cons, List.forall_mem_cons, List.foldl_cons,
        Nat.mul_comm 16]
      by_cases hc : c.toUpper ∈ alphabet
      · rw [if_pos hc]
        exact ih.trans (and_congr_left fun _ => ⟨fun h => ⟨hc, h⟩, fun h => h.2⟩)
      · rw [if_neg hc]
        exact iff_of_false nofun fun h => hc h.1.1

/-- Digits of either case are read as the number that they stand for in upper case. -/
theorem valueFrom?_eq_some_iff_writes :
    Hex.valueFrom? 0 digits = some n ↔ Writes (digits.map Char.toUpper) n :=
  valueFrom?_eq_some_iff.trans ⟨fun h => ⟨h.1, h.2⟩, fun h => ⟨h.inside, h.value_eq⟩⟩

theorem map_toUpper (hinside : ∀ c ∈ digits, c ∈ alphabet) : digits.map Char.toUpper = digits := by
  have hall : ∀ c ∈ alphabet, c.toUpper = c := forall_of_all (by decide +kernel)
  rw [List.map_congr_left fun c hc => hall c (hinside c hc), List.map_id']

theorem Writes.valueFrom? (h : Writes digits n) : Hex.valueFrom? 0 digits = some n := by
  rw [valueFrom?_eq_some_iff_writes, map_toUpper h.inside]
  exact h

theorem Writes.lt (h : Writes digits n) : n < 16 ^ digits.length := by
  rw [← h.value_eq]
  have hinside := h.inside
  clear h
  induction digits using List.reverseRecOn with
  | nil => decide
  | append_singleton digits c ih =>
      have hfront := ih fun d hd => hinside d (List.mem_append_left _ hd)
      have hmem : c ∈ alphabet := hinside c (List.mem_append_right _ (List.mem_singleton_self c))
      have hc : alphabet.idxOf c < 16 := List.idxOf_lt_length_of_mem hmem
      rw [value, List.foldl_append, ← value, List.foldl_cons, List.foldl_nil, List.length_append,
        List.length_singleton, Nat.pow_succ]
      omega

end ScriptRecord.Proofs.Text.HexDigits
