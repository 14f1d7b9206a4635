import ScriptRecord.Proofs.Text.HexDigits
import ScriptRecord.Text.Blank
/-!
# Keys as they are spelled

A word is read as a key if it has one digit or more behind an optional marker, and a plus
sign may stand between the two (`ofHexChars?_eq_some_iff`).  Digits and sign are eight
characters at most.  So the digits that a key is written in are read as this key, with a
marker or without one (`ofHexChars?_toHex`).
-/

namespace ScriptRecord.Proofs.Checksum.Spelling

open ScriptRecord.Proofs.Text.HexDigits

/-- What may stand in front of the digits. -/
def markers : List (List Char) := [[], ['0', 'x'], ['0', 'X']]

/-- A sign and hexadecimal digits of either case, eight characters at most, that give a key. -/
structure Signed (sign text : List Char) (key : Key) : Prop where
  parts : ∃ digits, text = sign ++ digits ∧ digits ≠ [] ∧
    Writes (digits.map Char.toUpper) key.checksum.toNat
  short : text.length ≤ 8

/-- A key behind a marker. -/
def Spelled (sign text : List Char) (key : Key) : Prop :=
  ∃ marker ∈ markers, ∃ digits, text = marker ++ digits ∧ Signed sign digits key

/-- What is read as a key: one that is spelled without a sign or with a plus sign. -/
def Accepted (text : List Char) (key : Key) : Prop :=
  Spelled [] text key ∨ Spelled ['+'] text key

variable {sign text digits : List Char} {key : Key}

/-! ## Digits and sign -/

theorem mem_of_writes {n : Nat} (h : Writes (digits.map Char.toUpper) n) :
    ∀ c ∈ digits, c ∈ alphabet ++ "abcdef".toList := fun _ hc =>
  mem_of_toUpper_mem (h.inside _ (List.mem_map_of_mem hc))

theorem utf8ByteSize_cons (c : Char) (text : List Char) :
    (String.ofList (c :: text)).utf8ByteSize = c.utf8Size + (String.ofList text).utf8ByteSize := by
  have hsize (text : List Char) : (String.ofList text).utf8ByteSize =
      (text.flatMap String.utf8EncodeChar).length := by
    show (String.ofList text).toByteArray.size = _
    rw [String.toByteArray_ofList, List.utf8Encode, List.size_toByteArray]
  rw [hsize, hsize, List.flatMap_cons, List.length_append, String.length_utf8EncodeChar]

theorem length_le_utf8ByteSize (text : List Char) :
    text.length ≤ (String.ofList text).utf8ByteSize := by
  induction text with
  | nil => exact Nat.zero_le _
  | cons c text ih =>
      have hpos := c.utf8Size_pos
      rw [utf8ByteSize_cons, List.length_cons]
      omega

theorem utf8ByteSize_of_plain (h : ∀ c ∈ text, c.utf8Size = 1) :
    (String.ofList text).utf8ByteSize = text.length := by
  induction text with
  | nil => rfl
  | cons c text ih =>
      obtain ⟨hc, htext⟩ := List.forall_mem_cons.mp h
      rw [utf8ByteSize_cons, hc, ih htext, List.length_cons, Nat.add_comm]

/-- With eight digits at most the number fits a key. -/
theorem valueFrom?_eq_key_iff (hshort : digits.length ≤ 8) :
    (Hex.valueFrom? 0 digits).map (fun n => Key.mk (UInt32.ofNat n)) = some key ↔
      Writes (digits.map Char.toUpper) key.checksum.toNat := by
  rw [Option.map_eq_some_iff]
  constructor
  · rintro ⟨n, hn, rfl⟩
    have hwrites := valueFrom?_eq_some_iff_writes.mp hn
    have hlt := hwrites.lt
    have hpow : 16 ^ (digits.map Char.toUpper).length ≤ 16 ^ 8 :=
      Nat.pow_le_pow_right (by decide) (by rwa [List.length_map])
    have hfits : (UInt32.ofNat n).toNat = n :=
      UInt32.toNat_ofNat_of_lt' (Nat.lt_of_lt_of_le hlt hpow)
    rwa [hfits]
  · intro hwrites
    refine ⟨_, valueFrom?_eq_some_iff_writes.mpr hwrites, ?_⟩
    rw [UInt32.ofNat_toNat]

theorem Signed.mem (hsign : sign = [] ∨ sign = ['+']) (h : Signed sign text key) :
    ∀ c ∈ text, c ∈ '+' :: (alphabet ++ "abcdef".toList) := by
  obtain ⟨digits, rfl, -, hwrites⟩ := h.parts
  intro c hc
  rcases List.mem_append.mp hc with hfront | hdigit
  · rcases hsign with rfl | rfl
    · contradiction
    · rw [List.mem_singleton.mp hfront]
      exact List.mem_cons_self
  · exact List.mem_cons_of_mem _ (mem_of_writes hwrites c hdigit)

theorem Signed.ne_nil (h : Signed sign text key) : text ≠ [] := by
  obtain ⟨digits, rfl, hne, -⟩ := h.parts
  exact List.append_ne_nil_of_right_ne_nil sign hne

/-- Sign and digits are single bytes. -/
theorem Signed.utf8ByteSize_eq (hsign : sign = [] ∨ sign = ['+']) (h : Signed sign text key) :
    (String.ofList text).utf8ByteSize = text.length := by
  have hsmall : ∀ c ∈ '+' :: (alphabet ++ "abcdef".toList), c.utf8Size = 1 :=
    forall_of_all (by decide +kernel)
  exact utf8ByteSize_of_plain fun c hc => hsmall c (h.mem hsign c hc)

theorem signed_of_ofHexChars? (h : Key.ofHexChars? text = some key) :
    Signed [] (Key.digitsOf text) key ∨ Signed ['+'] (Key.digitsOf text) key := by
  unfold Key.ofHexChars? at h
  generalize Key.digitsOf text = word at h ⊢
  by_cases hbad : word.isEmpty ∨ 8 < (String.ofList word).utf8ByteSize
  · rw [if_pos hbad] at h
    contradiction
  rw [if_neg hbad] at h
  have hshort : word.length ≤ 8 := by
    have hle := length_le_utf8ByteSize word
    omega
  split at h
  · contradiction
  · next rest hrest =>
      rw [List.length_cons] at hshort
      refine .inr ⟨⟨rest, rfl, ?_, (valueFrom?_eq_key_iff (by omega)).mp h⟩, hshort⟩
      rintro rfl
      exact hrest rfl
  · refine .inl ⟨⟨word, rfl, ?_, (valueFrom?_eq_key_iff hshort).mp h⟩, hshort⟩
    rintro rfl
    exact hbad (.inl rfl)

theorem ofHexChars?_of_signed
    (h : Signed [] (Key.digitsOf text) key ∨ Signed ['+'] (Key.digitsOf text) key) :
    Key.ofHexChars? text = some key := by
  unfold Key.ofHexChars?
  generalize Key.digitsOf text = word at h ⊢
  have hne : word ≠ [] := h.elim Signed.ne_nil Signed.ne_nil
  have hshort : word.length ≤ 8 := h.elim Signed.short Signed.short
  have hsize : (String.ofList word).utf8ByteSize = word.length :=
    h.elim (Signed.utf8ByteSize_eq (.inl rfl)) (Signed.utf8ByteSize_eq (.inr rfl))
  rw [if_neg (by simp [hne, hsize, hshort])]
  rcases h with h | h <;> obtain ⟨digits, rfl, hdigits, hwrites⟩ := h.parts
  · -- No digit is a plus sign, so that all of the word is read.
    have hplus : '+' ∉ word := fun hc =>
      absurd (mem_of_writes hwrites '+' hc) (by decide +kernel)
    split
    · exact absurd List.mem_cons_self hplus
    · exact absurd List.mem_cons_self hplus
    · exact (valueFrom?_eq_key_iff hshort).mpr hwrites
  · rw [List.length_append, List.length_singleton] at hshort
    rw [List.singleton_append]
    split
    · next heq => exact absurd (List.cons.inj heq).2 hdigits
    · next rest _ heq =>
        rw [← (List.cons.inj heq).2]
        exact (valueFrom?_eq_key_iff (by omega)).mpr hwrites
    · next heq => exact absurd rfl (heq digits)

/-- Behind a marker there are digits alone, or a plus sign and digits. -/
theorem ofHexChars?_eq_some_iff_signed :
    Key.ofHexChars? text = some key ↔
      Signed [] (Key.digitsOf text) key ∨ Signed ['+'] (Key.digitsOf text) key :=
  ⟨signed_of_ofHexChars?, ofHexChars?_of_signed⟩

/-! ## Markers -/

theorem exists_marker (text : List Char) :
    ∃ marker ∈ markers, text = marker ++ Key.digitsOf text := by
  unfold Key.digitsOf
  split
  · exact ⟨['0', 'x'], by simp [markers], rfl⟩
  · exact ⟨['0', 'X'], by simp [markers], rfl⟩
  · exact ⟨[], by simp [markers], rfl⟩

theorem digitsOf_append {marker : List Char} (hmarker : marker ∈ markers)
    (hplain : ∀ c ∈ text, c ≠ 'x' ∧ c ≠ 'X') : Key.digitsOf (marker ++ text) = text := by
  simp only [markers, List.mem_cons, List.not_mem_nil, or_false] at hmarker
  rcases hmarker with rfl | rfl | rfl
  · rw [List.nil_append]
    unfold Key.digitsOf
    split
    · exact absurd rfl (hplain 'x' (by simp)).1
    · exact absurd rfl (hplain 'X' (by simp)).2
    · rfl
  · rfl
  · rfl

theorem spelled_iff (hsign : sign = [] ∨ sign = ['+']) :
    Spelled sign text key ↔ Signed sign (Key.digitsOf text) key := by
  constructor
  · rintro ⟨marker, hmarker, digits, rfl, hsigned⟩
    have hmark : ∀ c ∈ '+' :: (alphabet ++ "abcdef".toList), c ≠ 'x' ∧ c ≠ 'X' :=
      forall_of_all (by decide +kernel)
    rwa [digitsOf_append hmarker fun c hc => hmark c (hsigned.mem hsign c hc)]
  · intro hsigned
    obtain ⟨marker, hmarker, htext⟩ := exists_marker text
    exact ⟨marker, hmarker, _, htext, hsigned⟩

theorem ofHexChars?_eq_some_iff : Key.ofHexChars? text = some key ↔ Accepted text key := by
  unfold Accepted
  rw [spelled_iff (.inl rfl), spelled_iff (.inr rfl)]
  exact ofHexChars?_eq_some_iff_signed

/-- A word that is read as a key has something in it, but no blank and no number sign. -/
theorem Accepted.solid (h : Accepted text key) :
    text ≠ [] ∧ ∀ c ∈ text, Text.isBlank c = false ∧ c ≠ '#' := by
  have hsolid {sign : List Char} (hsign : sign = [] ∨ sign = ['+']) (h : Spelled sign text key) :
      text ≠ [] ∧ ∀ c ∈ text, Text.isBlank c = false ∧ c ≠ '#' := by
    obtain ⟨marker, hmarker, word, rfl, hsigned⟩ := h
    obtain ⟨digits, rfl, hne, -⟩ := hsigned.parts
    refine ⟨by simp [hne], fun c hc => ?_⟩
    rcases List.mem_append.mp hc with hfront | hword
    · have hall : ∀ c ∈ markers.flatten, Text.isBlank c = false ∧ c ≠ '#' :=
        forall_of_all (by decide +kernel)
      exact hall c (List.mem_flatten.mpr ⟨marker, hmarker, hfront⟩)
    · have hall : ∀ c ∈ '+' :: (alphabet ++ "abcdef".toList), Text.isBlank c = false ∧ c ≠ '#' :=
        forall_of_all (by decide +kernel)
      exact hall c (hsigned.mem hsign c hword)
  exact h.elim (hsolid (.inl rfl)) (hsolid (.inr rfl))

/-- The eight digits of a key are read as this key. -/
theorem ofHexChars?_toHex {marker : List Char} (hmarker : marker ∈ markers) (key : Key) :
    Key.ofHexChars? (marker ++ key.toHex.toList) = some key := by
  obtain ⟨digits, hhex, hlength, hwrites⟩ := writes_toHex key
  rw [ofHexChars?_eq_some_iff, hhex, String.toList_ofList]
  refine .inl ⟨marker, hmarker, digits, rfl, ⟨digits, rfl, ?_, ?_⟩, Nat.le_of_eq hlength⟩
  · rintro rfl
    contradiction
  · rwa [map_toUpper hwrites.inside]

end ScriptRecord.Proofs.Checksum.Spelling
