import ScriptRecord.Proofs.Struct.Layout
/-!
# Texts and vectors of an image

What the reader gets from the bytes of a scalar: the bytes up to the zero that ends a
text, the numbers of a vector.  `scalarText_of_scalarAt` puts them together.
-/

namespace ScriptRecord.Proofs.Struct.Scalars

open ScriptRecord.Struct
open ScriptRecord.Proofs.Struct.Layout
open ScriptRecord.Proofs.BytesAt

variable {img : Image} {slot pos : Nat}

/-! ## Texts -/

theorem narrowEnd_of_hasAt {data : Bytes} {bytes : List UInt8} (hnonzero : 0 ∉ bytes)
    (h : HasAt data pos (bytes ++ [0])) : data.seek (· == 0) pos = pos + bytes.length := by
  apply h.seek
  · intro byte hbyte
    apply beq_eq_false_iff_ne.mpr
    rintro rfl
    exact hnonzero hbyte
  · rfl

theorem narrowText_of_hasAt {bytes : List UInt8} (hnonzero : 0 ∉ bytes)
    (h : HasAt img.data pos (bytes ++ [0])) :
    img.narrowText pos = String.ofList ('\'' :: asciiText bytes ++ ['\'']) := by
  rw [Image.narrowText, narrowEnd_of_hasAt hnonzero h, h.left.extract]

theorem bytes16_big (unit : UInt16) :
    ByteOrder.big.bytes16 unit =
      [UInt8.ofNat (unit.toNat / 256 % 256), UInt8.ofNat (unit.toNat % 256)] := rfl

theorem wideUnits_bytes16 (units : List UInt16) :
    wideUnits (units.flatMap ByteOrder.big.bytes16) = units := by
  induction units with
  | nil => rfl
  | cons unit units ih =>
      have hunit := word16_bytes16 .big unit (bytes16_big unit)
      rw [List.flatMap_cons, bytes16_big, List.cons_append, List.singleton_append, wideUnits,
        hunit, ih]

/-- A unit with two zero bytes is the zero unit. -/
theorem eq_zero_of_bytes16 {unit : UInt16} (h : ByteOrder.big.bytes16 unit = [0, 0]) :
    unit = 0 :=
  (word16_bytes16 .big unit h).symm

/-- The units of a text are passed over in pairs of bytes, so that a zero byte inside
one of them or between two of them does not end the text. -/
theorem wideEnd_of_hasAt {data : Bytes} {units : List UInt16} (hnonzero : 0 ∉ units)
    (h : HasAt data pos (units.flatMap ByteOrder.big.bytes16 ++ [0, 0])) :
    wideEnd data pos = pos + 2 * units.length := by
  induction units generalizing pos with
  | nil =>
      have hle : pos + 2 ≤ data.size := h.le_size
      have hfirst := h.getD
      have hsecond := h.tail.getD
      rw [wideEnd, if_pos hle, if_pos ⟨hfirst, hsecond⟩]
      rfl
  | cons unit units ih =>
      rw [List.flatMap_cons, List.append_assoc] at h
      have hunit := h.left
      have hle := hunit.le_size
      have hrest := h.right
      rw [length_bytes16] at hle hrest
      have hnotEnd : ¬ (data.getD pos 0 = 0 ∧ data.getD (pos + 1) 0 = 0) := by
        rintro ⟨hfirst, hsecond⟩
        rw [bytes16_big] at hunit
        rw [hunit.getD] at hfirst
        rw [hunit.tail.getD] at hsecond
        have hbytes := bytes16_big unit
        rw [hfirst, hsecond] at hbytes
        apply hnonzero
        rw [eq_zero_of_bytes16 hbytes]
        exact List.mem_cons_self
      rw [wideEnd, if_pos hle, if_neg hnotEnd,
        ih (fun hmem => hnonzero (List.mem_cons_of_mem unit hmem)) hrest, List.length_cons]
      omega

theorem wideText_of_hasAt {units : List UInt16} (hnonzero : 0 ∉ units)
    (h : HasAt img.data pos (units.flatMap ByteOrder.big.bytes16 ++ [0, 0])) :
    img.wideText pos = String.ofList ('"' :: Utf16.decode units ++ ['"']) := by
  have htext := h.left.extract
  rw [length_flatMap_of_width (length_bytes16 .big)] at htext
  rw [Image.wideText, wideEnd_of_hasAt hnonzero h, htext]
  dsimp only
  rw [wideUnits_bytes16]

/-! ## Vectors -/

theorem vectorText_of_hasAt {words : List UInt32}
    (h : HasAt img.data pos (words.flatMap ByteOrder.big.bytes32)) :
    img.vectorText? pos words.length =
      some ("(" ++ String.intercalate ", " (words.map FixedPoint.twoDecimals) ++ ")") := by
  have hwords : (List.range words.length).mapM (fun i => img.word? (pos + 4 * i)) = some words :=
    h.words
  rw [Image.vectorText?, hwords]
  rfl

/-! ## Scalars -/

/-- The text that is read for a scalar is the text of the scalar. -/
theorem scalarText_of_scalarAt {s : Scalar} (h : ScalarAt img slot s) :
    img.scalarText? s.type slot = some (s.text img.names) := by
  cases s with
  | integer value =>
      have hword := HasWord.word h
      rw [Scalar.type, Image.scalarText?, hword, Option.map_some, Int32.toInt32_toUInt32,
        Scalar.text]
  | float bits =>
      have hword := HasWord.word h
      rw [Scalar.type, Image.scalarText?, hword, Option.map_some, Scalar.text]
  | string bytes =>
      obtain ⟨hnonzero, pos, hpoints, htext⟩ := h
      rw [Scalar.type, Image.scalarText?, hpoints.resolve, Option.map_some,
        narrowText_of_hasAt hnonzero htext, Scalar.text]
  | wString units =>
      obtain ⟨hnonzero, pos, hpoints, htext⟩ := h
      rw [Scalar.type, Image.scalarText?, hpoints.resolve, Option.map_some,
        wideText_of_hasAt hnonzero htext, Scalar.text]
  | vector2 x y =>
      obtain ⟨pos, hpoints, hnumbers⟩ := h
      rw [Scalar.type, Image.scalarText?, hpoints.resolve, Option.bind_some]
      have htext := vectorText_of_hasAt hnumbers
      rw [List.map_cons, List.map_cons, List.map_nil, String.intercalate_cons_cons,
        String.intercalate_singleton] at htext
      simp only [Scalar.text, String.append_assoc] at htext ⊢
      exact htext
  | vector3 x y z =>
      obtain ⟨pos, hpoints, hnumbers⟩ := h
      rw [Scalar.type, Image.scalarText?, hpoints.resolve, Option.bind_some]
      have htext := vectorText_of_hasAt hnumbers
      rw [List.map_cons, List.map_cons, List.map_cons, List.map_nil,
        String.intercalate_cons_cons, String.intercalate_cons_cons,
        String.intercalate_singleton] at htext
      simp only [Scalar.text, String.append_assoc] at htext ⊢
      exact htext
  | key k | keyRef k | strPtr k | strQs k =>
      have hword := HasWord.word h
      rw [Scalar.type, Image.scalarText?, hword, Option.map_some, Scalar.text]

end ScriptRecord.Proofs.Struct.Scalars
