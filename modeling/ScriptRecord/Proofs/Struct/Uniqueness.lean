import ScriptRecord.Proofs.Struct.Scalars
/-!
# One value in a place

An image holds at most one value of a type in a slot, and at most one struct or array
behind a header.  So the bytes of an image alone settle what its text should be
(`struct_unique`), and an offset that is met twice leads to the same value twice.
-/

namespace ScriptRecord.Proofs.Struct.Uniqueness

open ScriptRecord.Struct
open ScriptRecord.Proofs.Struct.Layout
open ScriptRecord.Proofs.Struct.Scalars
open ScriptRecord.Proofs.BytesAt

variable {img : Image} {slot pos : Nat}

/-! ## Tags -/

theorem ofEntryTag_entryTag (type : ValueType) :
    ValueType.ofEntryTag? type.entryTag = some type := by
  cases type <;> decide

theorem ofElementTag_elementTag (type : ValueType) :
    ValueType.ofElementTag? type.elementTag = some type := by
  cases type <;> decide

theorem entryTag_injective {type other : ValueType} (h : type.entryTag = other.entryTag) :
    type = other := by
  apply Option.some.inj
  calc
    some type = ValueType.ofEntryTag? type.entryTag := (ofEntryTag_entryTag type).symm
    _ = ValueType.ofEntryTag? other.entryTag := congrArg _ h
    _ = some other := ofEntryTag_entryTag other

theorem elementTag_injective {type other : ValueType} (h : type.elementTag = other.elementTag) :
    type = other := by
  apply Option.some.inj
  calc
    some type = ValueType.ofElementTag? type.elementTag := (ofElementTag_elementTag type).symm
    _ = ValueType.ofElementTag? other.elementTag := congrArg _ h
    _ = some other := ofElementTag_elementTag other

theorem elementTag_ne_header (type : ValueType) : type.elementTag ≠ header := by
  cases type <;> decide

/-! ## Scalars -/

theorem narrow_unique {data : Bytes} {xs ys : List UInt8} (hxs : 0 ∉ xs) (hys : 0 ∉ ys)
    (hx : HasAt data pos (xs ++ [0])) (hy : HasAt data pos (ys ++ [0])) : xs = ys := by
  have hend := narrowEnd_of_hasAt hxs hx
  rw [narrowEnd_of_hasAt hys hy] at hend
  exact hx.left.unique hy.left (by omega)

theorem wide_unique {data : Bytes} {xs ys : List UInt16} (hxs : 0 ∉ xs) (hys : 0 ∉ ys)
    (hx : HasAt data pos (xs.flatMap ByteOrder.big.bytes16 ++ [0, 0]))
    (hy : HasAt data pos (ys.flatMap ByteOrder.big.bytes16 ++ [0, 0])) : xs = ys := by
  have hend := wideEnd_of_hasAt hxs hx
  rw [wideEnd_of_hasAt hys hy] at hend
  have hbytes : xs.flatMap ByteOrder.big.bytes16 = ys.flatMap ByteOrder.big.bytes16 := by
    apply hx.left.unique hy.left
    rw [length_flatMap_of_width (length_bytes16 .big),
      length_flatMap_of_width (length_bytes16 .big)]
    omega
  rw [← wideUnits_bytes16 xs, hbytes, wideUnits_bytes16]

theorem words_unique {xs ys : List UInt32}
    (hx : HasAt img.data pos (xs.flatMap ByteOrder.big.bytes32))
    (hy : HasAt img.data pos (ys.flatMap ByteOrder.big.bytes32)) (hlength : xs.length = ys.length) :
    xs = ys := by
  apply List.ext_getElem hlength
  intro i hi hi'
  exact HasWord.unique (hx.entry (length_bytes32 .big) i hi) (hy.entry (length_bytes32 .big) i hi')

theorem key_eq {k l : Key} (h : k.checksum = l.checksum) : k = l := by
  cases k
  exact congrArg Key.mk h

theorem scalar_unique {s t : Scalar} (hs : ScalarAt img slot s) (ht : ScalarAt img slot t)
    (htype : s.type = t.type) : s = t := by
  cases s with
  | integer value =>
      cases t <;> try contradiction
      have hvalue := congrArg UInt32.toInt32 (HasWord.unique hs ht)
      rw [Int32.toInt32_toUInt32, Int32.toInt32_toUInt32] at hvalue
      rw [hvalue]
  | float bits =>
      cases t <;> try contradiction
      rw [HasWord.unique hs ht]
  | string bytes =>
      cases t <;> try contradiction
      obtain ⟨hnonzero, pos, hpoints, htext⟩ := hs
      obtain ⟨hnonzero', pos', hpoints', htext'⟩ := ht
      rw [← hpoints.unique hpoints'] at htext'
      rw [narrow_unique hnonzero hnonzero' htext htext']
  | wString units =>
      cases t <;> try contradiction
      obtain ⟨hnonzero, pos, hpoints, htext⟩ := hs
      obtain ⟨hnonzero', pos', hpoints', htext'⟩ := ht
      rw [← hpoints.unique hpoints'] at htext'
      rw [wide_unique hnonzero hnonzero' htext htext']
  | vector2 x y =>
      cases t <;> try contradiction
      obtain ⟨pos, hpoints, hnumbers⟩ := hs
      obtain ⟨pos', hpoints', hnumbers'⟩ := ht
      rw [← hpoints.unique hpoints'] at hnumbers'
      have hwords := words_unique hnumbers hnumbers' rfl
      simp only [List.cons.injEq, and_true] at hwords
      rw [hwords.1, hwords.2]
  | vector3 x y z =>
      cases t <;> try contradiction
      obtain ⟨pos, hpoints, hnumbers⟩ := hs
      obtain ⟨pos', hpoints', hnumbers'⟩ := ht
      rw [← hpoints.unique hpoints'] at hnumbers'
      have hwords := words_unique hnumbers hnumbers' rfl
      simp only [List.cons.injEq, and_true] at hwords
      rw [hwords.1, hwords.2.1, hwords.2.2]
  | key k | keyRef k | strPtr k | strQs k =>
      cases t <;> try contradiction
      rw [key_eq (HasWord.unique hs ht)]

/-! ## Values -/

theorem scalarType_ne_struct (s : Scalar) : s.type ≠ .struct := by
  intro h
  cases s <;> contradiction

theorem scalarType_ne_array (s : Scalar) : s.type ≠ .array := by
  intro h
  cases s <;> contradiction

theorem array_tag {type : ValueType} {items : List Value} (h : ArrayAt img pos type items) :
    HasWord img pos type.elementTag := by
  cases h with
  | empty tag => exact tag
  | single tag => exact tag
  | several tag => exact tag

/-- Arrays of all three forms state the number of their elements. -/
theorem array_count {type : ValueType} {items : List Value} (h : ArrayAt img pos type items) :
    HasWord img (pos + 4) (UInt32.ofNat items.length) ∧ items.length < UInt32.size := by
  have hone : 1 < UInt32.size := by decide
  cases h with
  | empty _ count => exact ⟨count, Nat.zero_lt_of_lt hone⟩
  | single _ count => exact ⟨count, hone⟩
  | several _ count length_lt => exact ⟨count, length_lt⟩

theorem array_length_unique {type other : ValueType} {xs ys : List Value}
    (hx : ArrayAt img pos type xs) (hy : ArrayAt img pos other ys) : xs.length = ys.length := by
  obtain ⟨hcount, hlt⟩ := array_count hx
  obtain ⟨hcount', hlt'⟩ := array_count hy
  calc
    xs.length = (UInt32.ofNat xs.length).toNat := (UInt32.toNat_ofNat_of_lt' hlt).symm
    _ = (UInt32.ofNat ys.length).toNat := congrArg _ (HasWord.unique hcount hcount')
    _ = ys.length := UInt32.toNat_ofNat_of_lt' hlt'

mutual

theorem value_unique {slot : Nat} {v w : Value} (hv : ValueAt img slot v) (hw : ValueAt img slot w)
    (htype : v.type = w.type) : v = w := by
  match hv with
  | .scalar hs =>
      cases hw with
      | scalar ht => rw [scalar_unique hs ht htype]
      | struct => exact absurd htype (scalarType_ne_struct _)
      | array => exact absurd htype (scalarType_ne_array _)
  | .struct hpoints hmembers =>
      cases hw with
      | scalar => exact absurd htype.symm (scalarType_ne_struct _)
      | struct hpoints' hmembers' =>
          rw [← hpoints.unique hpoints'] at hmembers'
          rw [struct_unique hmembers hmembers']
      | array => contradiction
  | .array hpoints hitems =>
      cases hw with
      | scalar => exact absurd htype.symm (scalarType_ne_array _)
      | struct => contradiction
      | array hpoints' hitems' =>
          rw [← hpoints.unique hpoints'] at hitems'
          obtain ⟨rfl, rfl⟩ := array_unique hitems hitems'
          rfl
termination_by structural hv

theorem struct_unique {pos : Nat} {xs ys : List Member} (hx : StructAt img pos xs)
    (hy : StructAt img pos ys) : xs = ys := by
  match hx with
  | .mk _ hlink hlinked =>
      cases hy with
      | mk _ hlink' hlinked' =>
          rw [← HasWord.unique hlink hlink'] at hlinked'
          exact linked_unique hlinked hlinked'
termination_by structural hx

theorem linked_unique {offset : Nat} {xs ys : List Member} (hx : LinkedAt img offset xs)
    (hy : LinkedAt img offset ys) : xs = ys := by
  match hx with
  | .nil hlast =>
      cases hy with
      | nil => rfl
      | cons hfurther => exact absurd hlast hfurther
  | .cons hfurther htag hkey hvalue hlink hothers =>
      cases hy with
      | nil hlast => exact absurd hlast hfurther
      | cons _ htag' hkey' hvalue' hlink' hothers' =>
          have htype := entryTag_injective (HasWord.unique htag htag')
          rw [← HasWord.unique hlink hlink'] at hothers'
          rw [key_eq (HasWord.unique hkey hkey'), value_unique hvalue hvalue' htype,
            linked_unique hothers hothers']
termination_by structural hx

theorem array_unique {pos : Nat} {type other : ValueType} {xs ys : List Value}
    (hx : ArrayAt img pos type xs) (hy : ArrayAt img pos other ys) : type = other ∧ xs = ys := by
  have hlength := array_length_unique hx hy
  obtain rfl := elementTag_injective (HasWord.unique (array_tag hx) (array_tag hy))
  refine ⟨rfl, ?_⟩
  match hx with
  | .empty .. => exact (List.length_eq_zero_iff.mp hlength.symm).symm
  | .single _ _ htyped hvalue =>
      cases hy with
      | empty => contradiction
      | single _ _ htyped' hvalue' =>
          rw [value_unique hvalue hvalue' (htyped.trans htyped'.symm)]
      | several _ _ _ htwo =>
          rw [← hlength, List.length_singleton] at htwo
          omega
  | .several _ _ _ htwo htyped hpoints hitems =>
      cases hy with
      | empty =>
          rw [hlength, List.length_nil] at htwo
          omega
      | single =>
          rw [hlength, List.length_singleton] at htwo
          omega
      | several _ _ _ _ htyped' hpoints' hitems' =>
          rw [← hpoints.unique hpoints'] at hitems'
          exact items_unique hitems hitems' hlength htyped htyped'
termination_by structural hx

theorem items_unique {slot : Nat} {type : ValueType} {xs ys : List Value}
    (hx : ItemsAt img slot xs) (hy : ItemsAt img slot ys) (hlength : xs.length = ys.length)
    (hxs : ∀ x ∈ xs, x.type = type) (hys : ∀ y ∈ ys, y.type = type) : xs = ys := by
  match hx with
  | .nil => exact (List.length_eq_zero_iff.mp hlength.symm).symm
  | .cons hvalue hothers =>
      cases hy with
      | nil => contradiction
      | cons hvalue' hothers' =>
          have htype := (hxs _ List.mem_cons_self).trans (hys _ List.mem_cons_self).symm
          rw [value_unique hvalue hvalue' htype,
            items_unique hothers hothers' (Nat.succ.inj hlength)
              (fun x hx => hxs x (List.mem_cons_of_mem _ hx))
              (fun y hy => hys y (List.mem_cons_of_mem _ hy))]
termination_by structural hx

end

/-- Behind a header there is one struct or one array. -/
theorem header_unique {v w : Value} (hv : HeaderAt img pos v) (hw : HeaderAt img pos w) :
    v = w := by
  cases v with
  | scalar => exact hv.elim
  | struct members =>
      cases w with
      | scalar => exact hw.elim
      | struct => rw [struct_unique hv hw]
      | array type items =>
          obtain ⟨headed, -, -⟩ := hv
          exact absurd (HasWord.unique (array_tag hw) headed) (elementTag_ne_header type)
  | array type items =>
      cases w with
      | scalar => exact hw.elim
      | struct =>
          obtain ⟨headed, -, -⟩ := hw
          exact absurd (HasWord.unique (array_tag hv) headed) (elementTag_ne_header type)
      | array =>
          obtain ⟨rfl, rfl⟩ := array_unique hv hw
          rfl

end ScriptRecord.Proofs.Struct.Uniqueness
