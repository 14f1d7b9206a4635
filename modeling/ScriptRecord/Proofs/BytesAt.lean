import ScriptRecord.ByteOrder
import Mathlib.Data.Nat.Basic
/-!
# Bytes at a position

`HasAt` says which bytes stand at a position of some data, whatever stands before
and after them.  Readers are proved against it: a word or a run of bytes that was
written at a position is read back from there.
-/

namespace ScriptRecord.Proofs.BytesAt

/-- The data has these bytes at this position. -/
def HasAt (data : Bytes) (pos : Nat) (bytes : List UInt8) : Prop :=
  ∃ front back, data.toList = front ++ bytes ++ back ∧ front.length = pos

variable {data : Bytes} {pos : Nat} {bytes : List UInt8}

theorem hasAt_iff : HasAt data pos bytes ↔ pos ≤ data.size ∧ bytes <+: data.toList.drop pos := by
  constructor
  · rintro ⟨front, back, hdata, rfl⟩
    constructor
    · rw [← Array.length_toList, hdata]
      simp only [List.length_append]
      omega
    · rw [hdata, List.append_assoc, List.drop_left]
      exact List.prefix_append bytes back
  · rintro ⟨hle, back, hback⟩
    refine ⟨data.toList.take pos, back, ?_, ?_⟩
    · rw [List.append_assoc, hback, List.take_append_drop]
    · rw [List.length_take, Array.length_toList, Nat.min_eq_left hle]

instance : Decidable (HasAt data pos bytes) :=
  decidable_of_iff _ hasAt_iff.symm

theorem hasAt_middle (front bytes back : Bytes) :
    HasAt (front ++ bytes ++ back) front.size bytes.toList :=
  ⟨front.toList, back.toList, by simp, by simp⟩

theorem HasAt.left {xs ys : List UInt8} (h : HasAt data pos (xs ++ ys)) : HasAt data pos xs := by
  obtain ⟨front, back, hdata, hfront⟩ := h
  exact ⟨front, ys ++ back, by simp [hdata], hfront⟩

theorem HasAt.right {xs ys : List UInt8} (h : HasAt data pos (xs ++ ys)) :
    HasAt data (pos + xs.length) ys := by
  obtain ⟨front, back, hdata, hfront⟩ := h
  exact ⟨front ++ xs, back, by simp [hdata], by simp [hfront]⟩

theorem HasAt.le_size (h : HasAt data pos bytes) : pos + bytes.length ≤ data.size := by
  obtain ⟨front, back, hdata, hfront⟩ := h
  rw [← Array.length_toList, hdata]
  simp only [List.length_append]
  omega

theorem HasAt.getElem (h : HasAt data pos bytes) (i : Nat) (hi : i < bytes.length) :
    ∃ hlt : pos + i < data.size, data[pos + i] = bytes[i] := by
  have hle := h.le_size
  obtain ⟨front, back, hdata, hfront⟩ := h
  refine ⟨by omega, ?_⟩
  rw [← Array.getElem_toList]
  simp only [hdata, List.append_assoc]
  rw [List.getElem_append_right (by omega), List.getElem_append_left (by omega)]
  congr 1
  omega

theorem HasAt.head {byte : UInt8} (h : HasAt data pos (byte :: bytes)) :
    ∃ hlt : pos < data.size, data[pos] = byte :=
  h.getElem 0 (Nat.zero_lt_succ bytes.length)

theorem HasAt.getD {byte : UInt8} (h : HasAt data pos (byte :: bytes)) :
    data.getD pos 0 = byte := by
  obtain ⟨hlt, hbyte⟩ := h.head
  rw [← Array.getElem_eq_getD (h := hlt) 0, hbyte]

theorem HasAt.tail {byte : UInt8} (h : HasAt data pos (byte :: bytes)) :
    HasAt data (pos + 1) bytes := by
  rw [← List.singleton_append] at h
  exact h.right

theorem hasAt_of_getElem? (hle : pos + bytes.length ≤ data.size)
    (h : ∀ i (hi : i < bytes.length), data[pos + i]? = some bytes[i]) : HasAt data pos bytes := by
  rw [hasAt_iff]
  refine ⟨by omega, List.prefix_iff_eq_take.mpr ?_⟩
  apply List.ext_getElem
  · simp only [List.length_take, List.length_drop, Array.length_toList]
    omega
  · intro i hi _
    have hbyte := h i hi
    rw [Array.getElem?_eq_getElem (by omega), Option.some_inj] at hbyte
    rw [List.getElem_take, List.getElem_drop]
    exact hbyte.symm

/-! ## Runs of bytes -/

theorem HasAt.extract (h : HasAt data pos bytes) :
    data.extract pos (pos + bytes.length) = bytes.toArray := by
  obtain ⟨front, back, hdata, hfront⟩ := h
  apply Array.toList_inj.mp
  rw [Array.toList_extract, hdata, List.extract_eq_take_drop, ← hfront,
    List.append_assoc, List.drop_left, Nat.add_sub_cancel_left, List.take_left]

theorem hasAt_iff_extract (hne : bytes ≠ []) :
    HasAt data pos bytes ↔ (data.extract pos (pos + bytes.length)).toList = bytes := by
  constructor
  · intro h
    rw [h.extract]
  · intro h
    have hlength := congrArg List.length h
    rw [Array.length_toList, Array.size_extract] at hlength
    have hpos := List.length_pos_iff.mpr hne
    rw [Array.toList_extract, List.extract_eq_take_drop] at h
    rw [hasAt_iff, ← h]
    exact ⟨by omega, List.take_prefix _ _⟩

theorem HasAt.slice (h : HasAt data pos bytes) :
    data.slice? pos bytes.length = some bytes.toArray := by
  rw [Bytes.slice?, if_pos h.le_size, h.extract]

theorem HasAt.unique {xs ys : List UInt8} (hx : HasAt data pos xs)
    (hy : HasAt data pos ys) (hlength : xs.length = ys.length) : xs = ys := by
  have hextract := hy.extract
  rw [← hlength, hx.extract] at hextract
  exact congrArg Array.toList hextract

/-- A search passes over bytes that do not satisfy its condition. -/
theorem HasAt.seek {p : UInt8 → Bool} {skipped : List UInt8} {stop : UInt8}
    (h : HasAt data pos (skipped ++ [stop])) (hskipped : ∀ byte ∈ skipped, p byte = false)
    (hstop : p stop = true) : data.seek p pos = pos + skipped.length := by
  induction skipped generalizing pos with
  | nil =>
      obtain ⟨hlt, hbyte⟩ := h.head
      rw [Bytes.seek, dif_pos hlt, hbyte, if_pos hstop]
      rfl
  | cons byte skipped ih =>
      obtain ⟨hlt, hbyte⟩ := h.head
      have hfalse := hskipped byte List.mem_cons_self
      rw [Bytes.seek, dif_pos hlt, hbyte, hfalse, if_neg Bool.false_ne_true,
        ih h.tail fun b hb => hskipped b (List.mem_cons_of_mem byte hb), List.length_cons]
      omega

/-! ## Tables -/

theorem length_flatMap_of_width {α : Type} {f : α → List UInt8} {width : Nat}
    (hwidth : ∀ x, (f x).length = width) (xs : List α) :
    (xs.flatMap f).length = width * xs.length := by
  induction xs with
  | nil => rfl
  | cons x xs ih => rw [List.flatMap_cons, List.length_append, hwidth, ih, List.length_cons,
      Nat.mul_succ, Nat.add_comm]

/-- In a table of entries of one width the place of an entry follows from its index. -/
theorem HasAt.entry {α : Type} {f : α → List UInt8} {width : Nat} {xs : List α}
    (h : HasAt data pos (xs.flatMap f)) (hwidth : ∀ x, (f x).length = width) (i : Nat)
    (hi : i < xs.length) : HasAt data (pos + width * i) (f xs[i]) := by
  induction xs generalizing pos i with
  | nil => exact absurd hi (Nat.not_lt_zero i)
  | cons x xs ih =>
      rw [List.flatMap_cons] at h
      cases i with
      | zero => exact h.left
      | succ i =>
          have hrest := h.right
          rw [hwidth] at hrest
          have hentry := ih hrest i (Nat.lt_of_succ_lt_succ hi)
          rw [Nat.add_assoc, Nat.add_comm width, ← Nat.mul_succ] at hentry
          exact hentry

/-- Values that can all be read give the list of what was read. -/
theorem mapM_range_eq_some {β : Type} {f : Nat → Option β} {values : List β} {count : Nat}
    (hcount : values.length = count)
    (h : ∀ i (hi : i < values.length), f i = some values[i]) :
    (List.range count).mapM f = some values := by
  subst hcount
  induction values generalizing f with
  | nil => rfl
  | cons value values ih =>
      have hfirst : f 0 = some value := h 0 (Nat.zero_lt_succ values.length)
      have hrest := ih (f := fun i => f (i + 1)) fun i hi => h (i + 1) (Nat.succ_lt_succ hi)
      rw [List.length_cons, List.range_succ_eq_map, List.mapM_cons, hfirst, List.mapM_map]
      have hshift : (f ∘ Nat.succ) = fun i => f (i + 1) := rfl
      rw [hshift, hrest]
      rfl

/-! ## Words -/

theorem exists_word32 {order : ByteOrder} (h : pos + 4 ≤ data.size) :
    ∃ word, data.word32? order pos = some word :=
  ⟨_, dif_pos h⟩

theorem word32_eq_none {order : ByteOrder} (h : data.size < pos + 4) :
    data.word32? order pos = none :=
  dif_neg (Nat.not_le_of_lt h)

theorem exists_word16 {order : ByteOrder} (h : pos + 2 ≤ data.size) :
    ∃ word, data.word16? order pos = some word :=
  ⟨_, dif_pos h⟩

theorem word16_eq_none {order : ByteOrder} (h : data.size < pos + 2) :
    data.word16? order pos = none :=
  dif_neg (Nat.not_le_of_lt h)

theorem length_lowBytes (n width : Nat) : (ByteOrder.lowBytes n width).length = width := by
  induction width generalizing n with
  | zero => rfl
  | succ width ih => rw [ByteOrder.lowBytes, List.length_cons, ih]

theorem length_bytes32 (order : ByteOrder) (word : UInt32) : (order.bytes32 word).length = 4 := by
  cases order with
  | big => rw [ByteOrder.bytes32, ByteOrder.bytesOf, List.length_reverse, length_lowBytes]
  | little => rw [ByteOrder.bytes32, ByteOrder.bytesOf, length_lowBytes]

theorem length_bytes16 (order : ByteOrder) (word : UInt16) : (order.bytes16 word).length = 2 := by
  cases order with
  | big => rw [ByteOrder.bytes16, ByteOrder.bytesOf, List.length_reverse, length_lowBytes]
  | little => rw [ByteOrder.bytes16, ByteOrder.bytesOf, length_lowBytes]

theorem word32_bytes32 (order : ByteOrder) (word : UInt32) {a b c d : UInt8}
    (h : order.bytes32 word = [a, b, c, d]) : order.word32 a b c d = word := by
  have hlt := word.toNat_lt
  cases order with
  | big =>
      simp only [ByteOrder.bytes32, ByteOrder.bytesOf, ByteOrder.lowBytes, List.reverse_cons,
        List.reverse_nil, List.nil_append, List.cons_append, List.cons.injEq] at h
      obtain ⟨rfl, rfl, rfl, rfl, _⟩ := h
      apply UInt32.toNat_inj.mp
      simp only [ByteOrder.word32, UInt32.toNat_ofNat', UInt8.toNat_ofNat']
      omega
  | little =>
      simp only [ByteOrder.bytes32, ByteOrder.bytesOf, ByteOrder.lowBytes, List.cons.injEq] at h
      obtain ⟨rfl, rfl, rfl, rfl, _⟩ := h
      apply UInt32.toNat_inj.mp
      simp only [ByteOrder.word32, UInt32.toNat_ofNat', UInt8.toNat_ofNat']
      omega

theorem word16_bytes16 (order : ByteOrder) (word : UInt16) {a b : UInt8}
    (h : order.bytes16 word = [a, b]) : order.word16 a b = word := by
  have hlt := word.toNat_lt
  cases order with
  | big =>
      simp only [ByteOrder.bytes16, ByteOrder.bytesOf, ByteOrder.lowBytes, List.reverse_cons,
        List.reverse_nil, List.nil_append, List.cons_append, List.cons.injEq] at h
      obtain ⟨rfl, rfl, _⟩ := h
      apply UInt16.toNat_inj.mp
      simp only [ByteOrder.word16, UInt16.toNat_ofNat', UInt8.toNat_ofNat']
      omega
  | little =>
      simp only [ByteOrder.bytes16, ByteOrder.bytesOf, ByteOrder.lowBytes, List.cons.injEq] at h
      obtain ⟨rfl, rfl, _⟩ := h
      apply UInt16.toNat_inj.mp
      simp only [ByteOrder.word16, UInt16.toNat_ofNat', UInt8.toNat_ofNat']
      omega

theorem bytes16_word16 (order : ByteOrder) (a b : UInt8) :
    order.bytes16 (order.word16 a b) = [a, b] := by
  have ha := a.toNat_lt
  have hb := b.toNat_lt
  have hbyte (n : Nat) (c : UInt8) (h : n % 256 = c.toNat) : UInt8.ofNat n = c :=
    UInt8.toNat_inj.mp (by rw [UInt8.toNat_ofNat', h])
  cases order <;>
    simp only [ByteOrder.bytes16, ByteOrder.word16, ByteOrder.bytesOf, ByteOrder.lowBytes,
      UInt16.toNat_ofNat', List.reverse_cons, List.reverse_nil, List.nil_append,
      List.cons_append, List.cons.injEq, and_true] <;>
    refine ⟨hbyte _ _ ?_, hbyte _ _ ?_⟩ <;>
    omega

/-- A word is read back from where it was written, in the same byte order. -/
theorem HasAt.word32 {order : ByteOrder} {word : UInt32}
    (h : HasAt data pos (order.bytes32 word)) : data.word32? order pos = some word := by
  have hlength := length_bytes32 order word
  have hle := h.le_size
  rw [hlength] at hle
  rw [Bytes.word32?, dif_pos hle]
  congr 1
  apply word32_bytes32
  apply List.ext_getElem
  · exact hlength
  · intro i hi _
    obtain ⟨_, hbyte⟩ := h.getElem i hi
    rw [← hbyte]
    match i, hlength ▸ hi with
    | 0, _ | 1, _ | 2, _ | 3, _ => rfl

/-- A table of words is read back in order. -/
theorem HasAt.words {order : ByteOrder} {words : List UInt32}
    (h : HasAt data pos (words.flatMap order.bytes32)) :
    (List.range words.length).mapM (fun i => data.word32? order (pos + 4 * i)) = some words := by
  apply mapM_range_eq_some rfl
  intro i hi
  exact (h.entry (length_bytes32 order) i hi).word32

theorem HasAt.word16 {order : ByteOrder} {word : UInt16}
    (h : HasAt data pos (order.bytes16 word)) : data.word16? order pos = some word := by
  have hlength := length_bytes16 order word
  have hle := h.le_size
  rw [hlength] at hle
  rw [Bytes.word16?, dif_pos hle]
  congr 1
  apply word16_bytes16
  apply List.ext_getElem
  · exact hlength
  · intro i hi _
    obtain ⟨_, hbyte⟩ := h.getElem i hi
    rw [← hbyte]
    match i, hlength ▸ hi with
    | 0, _ | 1, _ => rfl

/-! ## Data behind other data -/

section Behind

variable {front : Bytes}

theorem word32_behind {order : ByteOrder} :
    (front ++ data).word32? order (front.size + pos) = data.word32? order pos := by
  have hbyte (i : Nat) (hi : pos + i < data.size)
      (hi' : front.size + pos + i < (front ++ data).size) :
      (front ++ data)[front.size + pos + i] = data[pos + i] := by
    rw [Array.getElem_append_right (by omega)]
    congr 1
    omega
  have hsize : (front ++ data).size = front.size + data.size := Array.size_append
  rw [Bytes.word32?, Bytes.word32?]
  by_cases hle : pos + 4 ≤ data.size
  · rw [dif_pos hle, dif_pos (by omega)]
    congr 2
    · exact hbyte 0 (by omega) (by omega)
    · exact hbyte 1 (by omega) (by omega)
    · exact hbyte 2 (by omega) (by omega)
    · exact hbyte 3 (by omega) (by omega)
  · rw [dif_neg hle, dif_neg (by omega)]

theorem getD_behind (pos : Nat) (byte : UInt8) :
    (front ++ data).getD (front.size + pos) byte = data.getD pos byte := by
  rw [Array.getD_eq_getD_getElem?, Array.getD_eq_getD_getElem?,
    Array.getElem?_append_right (Nat.le_add_right ..), Nat.add_sub_cancel_left]

theorem extract_behind (pos stop : Nat) :
    (front ++ data).extract (front.size + pos) (front.size + stop) = data.extract pos stop := by
  rw [Array.extract_append, Array.extract_eq_empty_of_le (by omega), Array.empty_append,
    Nat.add_sub_cancel_left, Nat.add_sub_cancel_left]

theorem seek_behind {p : UInt8 → Bool} :
    (front ++ data).seek p (front.size + pos) = front.size + data.seek p pos := by
  have hsize : (front ++ data).size = front.size + data.size := Array.size_append
  fun_induction Bytes.seek data p pos with
  | case1 pos hlt hbyte =>
      rw [Bytes.seek, dif_pos (by omega), if_pos]
      rw [Array.getElem_append_right (by omega)]
      simpa using hbyte
  | case2 pos hlt hbyte ih =>
      rw [Bytes.seek, dif_pos (by omega), if_neg, Nat.add_assoc, ih]
      rw [Array.getElem_append_right (by omega)]
      simpa using hbyte
  | case3 pos hge => rw [Bytes.seek, dif_neg (by omega)]

end Behind

end ScriptRecord.Proofs.BytesAt
