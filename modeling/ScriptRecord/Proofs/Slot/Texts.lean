import ScriptRecord.Slot
import ScriptRecord.Proofs.BytesAt
import ScriptRecord.Proofs.Slot.Cells
import ScriptRecord.Proofs.Text.Members
import Mathlib.Data.List.GetD
/-!
# The text of cells

What a run reads as, and what a text is written as.  Two-byte cells have a zero and
one more byte, so that they read as the characters of those bytes.  One-byte text
reads so unless a byte order mark stands in front or a byte is one of those that
mean something else; a printable charset has none of them.  Whatever the
charset, a run has no more characters than it has room for.
-/

namespace ScriptRecord.Proofs.Slot.Texts

open ScriptRecord.Proofs.BytesAt
open ScriptRecord.Proofs.Slot.Cells
open ScriptRecord.Proofs.Text.Members

/-- A charset of characters that are their own bytes.  None of these bytes can begin a
byte order mark. -/
def Printable (charset : Charset) : Prop :=
  ∀ c, charset.contains c = true →
    (0x20 ≤ c.toNat ∧ c.toNat ≤ 0x7E) ∨ (0xA0 ≤ c.toNat ∧ c.toNat ≤ 0xEE)

/-- A printable charset with the space. -/
structure Plain (charset : Charset) : Prop where
  space : charset.contains ' ' = true
  range : ∀ c, charset.contains c = true →
    (0x20 ≤ c.toNat ∧ c.toNat ≤ 0x7E) ∨ (0xA0 ≤ c.toNat ∧ c.toNat ≤ 0xEE)

/-- The byte of a cell that stands for its character. -/
def charByte (container : Container) (data : Bytes) (wide : Bool) (start i : Nat) : UInt8 :=
  data.getD (start + width wide * i + if wide then charAt container else 0) 0

/-- The characters of some cells. -/
def chars (container : Container) (data : Bytes) (wide : Bool) (start count : Nat) : List Char :=
  (List.range count).map fun i => Char.ofNat (charByte container data wide start i).toNat

/-- The bytes of a cell. -/
def cellBytes (order : ByteOrder) (wide : Bool) (c : Char) : List UInt8 :=
  if wide then order.bytes16 (UInt16.ofNat c.toNat) else [UInt8.ofNat c.toNat]

variable {container : Container} {data : Bytes}

/-! ## Bytes of a run -/

theorem toList_extract {start stop : Nat} (hstop : stop ≤ data.size) :
    (data.extract start stop).toList =
      (List.range (stop - start)).map fun i => data.getD (start + i) 0 := by
  apply List.ext_getElem
  · simp only [Array.length_toList, Array.size_extract, List.length_map, List.length_range]
    omega
  · intro i hi _
    simp only [Array.length_toList, Array.size_extract] at hi
    have hlt : start + i < data.size := by omega
    simp [Array.getD, hlt]

theorem getD_extract {start stop i : Nat} (hstop : stop ≤ data.size) (hi : i < stop - start) :
    (data.extract start stop).toList.getD i 0 = data.getD (start + i) 0 := by
  rw [toList_extract hstop, List.getD_eq_getElem _ _ (by simpa using hi)]
  simp

theorem units_eq (order : ByteOrder) (bytes : List UInt8) :
    Slot.units order bytes = (List.range (bytes.length / 2)).map fun i =>
      order.word16 (bytes.getD (2 * i) 0) (bytes.getD (2 * i + 1) 0) := by
  fun_induction Slot.units order bytes with
  | case1 a b rest ih =>
      have hlength : (a :: b :: rest).length / 2 = rest.length / 2 + 1 := by
        simp only [List.length_cons]
        omega
      rw [hlength, List.range_succ_eq_map, List.map_cons, List.map_map, ih]
      congr 1
  | case2 bytes h =>
      have hshort : bytes.length / 2 = 0 := by
        match bytes, h with
        | [], _ => rfl
        | [_], _ => exact Nat.div_eq_of_lt Nat.one_lt_two
        | a :: b :: rest, h => exact absurd rfl (h a b rest)
      rw [hshort]
      rfl

/-! ## Two-byte text -/

theorem decodeOnto_of_lt {units : List UInt16} (h : ∀ u ∈ units, u.toNat < 0xD800)
    (done : List Char) :
    Utf16.decodeOnto done units = (units.map fun u => Char.ofNat u.toNat).reverse ++ done := by
  have hplain (u : UInt16) (hu : u.toNat < 0xD800) :
      Utf16.isLead u = false ∧ Utf16.isTrail u = false := by
    simp only [Utf16.isLead, Utf16.isTrail, Bool.and_eq_false_iff, decide_eq_false_iff_not,
      UInt16.le_iff_toNat_le]
    constructor <;> left <;> simp <;> omega
  induction units generalizing done with
  | nil => rfl
  | cons u units ih =>
      obtain ⟨hlead, htrail⟩ := hplain u (h u List.mem_cons_self)
      cases units with
      | nil => simp [Utf16.decodeOnto, hlead, htrail]
      | cons v rest =>
          rw [Utf16.decodeOnto, hlead, htrail]
          simp only [Bool.false_eq_true, if_false]
          rw [ih (fun w hw => h w (List.mem_cons_of_mem u hw))]
          simp

theorem decode_of_lt {units : List UInt16} (h : ∀ u ∈ units, u.toNat < 0xD800) :
    Utf16.decode units = units.map fun u => Char.ofNat u.toNat := by
  rw [Utf16.decode, decodeOnto_of_lt h, List.append_nil, List.reverse_reverse]

theorem encode_of_lt {text : List Char} (h : ∀ c ∈ text, c.toNat < 0x10000) :
    Utf16.encode text = text.map fun c => UInt16.ofNat c.toNat := by
  induction text with
  | nil => rfl
  | cons c text ih =>
      have hunits : Utf16.unitsOf c = [UInt16.ofNat c.toNat] := by
        rw [Utf16.unitsOf]
        exact if_pos (h c List.mem_cons_self)
      have hrest := ih fun d hd => h d (List.mem_cons_of_mem c hd)
      rw [Utf16.encode] at hrest ⊢
      rw [List.flatMap_cons, hunits, hrest, List.map_cons, List.singleton_append]

/-- The word of a two-byte cell is that of its character's byte. -/
theorem word16_of_cell (hallowed : container.allowsWide = true) {pos : Nat}
    (h : Cell container data true pos) :
    container.order.word16 (data.getD pos 0) (data.getD (pos + 1) 0) =
      UInt16.ofNat (data.getD (pos + charAt container) 0).toNat := by
  have hzero := h.zero rfl
  have hfirst : Scan.zeroFirst container = decide (container.order = .big) := by
    rw [Scan.zeroFirst, hallowed]
    rfl
  cases horder : container.order with
  | big =>
      rw [horder] at hfirst
      rw [zeroAt, if_pos (by simpa using hfirst), Nat.add_zero] at hzero
      rw [charAt, if_pos (by simpa using hfirst), ByteOrder.word16, hzero]
      simp
  | little =>
      rw [horder] at hfirst
      rw [zeroAt, if_neg (by simp [hfirst])] at hzero
      rw [charAt, if_neg (by simp [hfirst]), Nat.add_zero, ByteOrder.word16, hzero]
      simp

theorem units_of_isText (hallowed : container.allowsWide = true) {start stop : Nat}
    (hstop : stop ≤ data.size) (htext : IsText container data true start ((stop - start) / 2)) :
    Slot.units container.order (data.extract start stop).toList =
      (List.range ((stop - start) / 2)).map fun i =>
        UInt16.ofNat (charByte container data true start i).toNat := by
  have hlength : (data.extract start stop).toList.length = stop - start := by
    rw [toList_extract hstop, List.length_map, List.length_range]
  rw [units_eq, hlength]
  apply List.map_congr_left
  intro i hi
  rw [List.mem_range] at hi
  have hcell := htext i hi
  rw [width_wide] at hcell
  rw [getD_extract hstop (by omega), getD_extract hstop (by omega), ← Nat.add_assoc,
    word16_of_cell hallowed hcell]
  rfl

theorem charByte_lt (container : Container) (data : Bytes) (wide : Bool) (start i : Nat) :
    (charByte container data wide start i).toNat < 256 :=
  UInt8.toNat_lt _

theorem decode_wide (hallowed : container.allowsWide = true) {start stop : Nat}
    (hstop : stop ≤ data.size) (htext : IsText container data true start ((stop - start) / 2)) :
    Slot.decode container.order true (data.extract start stop).toList =
      chars container data true start ((stop - start) / 2) := by
  rw [Slot.decode, if_pos rfl, units_of_isText hallowed hstop htext, decode_of_lt, List.map_map]
  · apply List.map_congr_left
    intro i _
    have hlt := charByte_lt container data true start i
    simp only [Function.comp_apply, UInt16.toNat_ofNat']
    rw [Nat.mod_eq_of_lt (by omega)]
  · intro u hu
    obtain ⟨i, -, rfl⟩ := List.mem_map.mp hu
    have hlt := charByte_lt container data true start i
    rw [UInt16.toNat_ofNat', Nat.mod_eq_of_lt (by omega)]
    omega

/-- A two-byte run reads as the characters of its cells, whatever the charset. -/
theorem ofRun_wide {run : Run} (h : Sound container data run) (hwide : run.wide = true) :
    Slot.ofRun container.order data run =
      ⟨String.ofList (chars container data true run.start (cells run)), run.start, cells run,
        true⟩ := by
  obtain ⟨start, stop, wide⟩ := run
  subst hwide
  have hcells : cells ⟨start, stop, true⟩ = (stop - start) / 2 := rfl
  have htext := h.text
  rw [hcells] at htext ⊢
  have hsmall : ∀ c ∈ chars container data true start ((stop - start) / 2), c.toNat < 0x10000 := by
    intro c hc
    obtain ⟨i, -, rfl⟩ := List.mem_map.mp hc
    have hlt := charByte_lt container data true start i
    rw [toNat_ofNat_byte]
    omega
  rw [Slot.ofRun, decode_wide (h.allowed rfl) h.stop_le htext]
  dsimp only
  rw [if_pos rfl, encode_of_lt hsmall, List.length_map, chars, List.length_map, List.length_range]

/-! ## One-byte text -/

theorem charOf_of_plain {b : UInt8} (h : b.toNat < 0x80 ∨ 0xA0 ≤ b.toNat) :
    Windows1252.charOf b = Char.ofNat b.toNat := by
  rw [Windows1252.charOf]
  exact if_neg (by omega)

/-- Without a byte order mark each byte is a character. -/
theorem decode_of_no_mark {bytes : List UInt8} (h : ∀ b ∈ bytes, b.toNat < 0xEF) :
    Windows1252.decode bytes = bytes.map Windows1252.charOf := by
  unfold Windows1252.decode
  split
  · have hmark := h 0xEF (by simp)
    exact absurd hmark (by decide)
  · have hmark := h 0xFE (by simp)
    exact absurd hmark (by decide)
  · have hmark := h 0xFF (by simp)
    exact absurd hmark (by decide)
  · rfl

theorem byteOf_of_plain {c : Char} (h : c.toNat < 0x80 ∨ (0xA0 ≤ c.toNat ∧ c.toNat < 0x100)) :
    Windows1252.byteOf? c = some (UInt8.ofNat c.toNat) := by
  rw [Windows1252.byteOf?]
  exact if_pos h

/-! ## No more characters than bytes -/

theorem length_utf8_decodeOnto (done : List Char) (lead : Option Utf8.Lead) (bytes : List UInt8) :
    (Utf8.decodeOnto done lead bytes).length ≤
      done.length + bytes.length + if lead.isSome then 1 else 0 := by
  fun_induction Utf8.decodeOnto done lead bytes <;>
    simp only [List.length_cons, Option.isSome_some, Option.isSome_none, if_true, if_false,
      Bool.false_eq_true] at * <;>
    omega

theorem length_utf16_decodeOnto (done : List Char) (units : List UInt16) :
    (Utf16.decodeOnto done units).length ≤ done.length + units.length := by
  fun_induction Utf16.decodeOnto done units <;>
    simp only [List.length_cons, List.length_nil] at * <;>
    omega

theorem length_pairUnits (join : UInt8 → UInt8 → UInt16) (bytes : List UInt8) :
    (Windows1252.pairUnits join bytes).length = bytes.length / 2 := by
  fun_induction Windows1252.pairUnits join bytes with
  | case1 a b rest ih =>
      rw [List.length_cons, ih]
      simp only [List.length_cons]
      omega
  | case2 bytes h =>
      match bytes, h with
      | [], _ => rfl
      | [_], _ => exact (Nat.div_eq_of_lt Nat.one_lt_two).symm
      | a :: b :: rest, h => exact absurd rfl (h a b rest)

theorem length_decodeUnits (join : UInt8 → UInt8 → UInt16) (bytes : List UInt8) :
    (Windows1252.decodeUnits join bytes).length ≤ bytes.length := by
  have hunits := length_utf16_decodeOnto [] (Windows1252.pairUnits join bytes)
  rw [length_pairUnits, List.length_nil, Nat.zero_add] at hunits
  unfold Windows1252.decodeUnits Utf16.decode
  dsimp only
  split
  · rw [List.length_reverse]
    omega
  · rename_i hodd
    rw [List.length_append, List.length_reverse, List.length_singleton]
    omega

theorem length_decode_le (bytes : List UInt8) :
    (Windows1252.decode bytes).length ≤ bytes.length := by
  unfold Windows1252.decode
  split
  · rename_i rest
    have hlength := length_utf8_decodeOnto [] none rest
    simp only [Option.isSome_none, Bool.false_eq_true, if_false, List.length_nil] at hlength
    simp only [Utf8.decodeLossy, List.length_reverse, List.length_cons]
    omega
  · rename_i rest
    refine Nat.le_trans (length_decodeUnits _ rest) ?_
    simp only [List.length_cons]
    omega
  · rename_i rest
    refine Nat.le_trans (length_decodeUnits _ rest) ?_
    simp only [List.length_cons]
    omega
  · rw [List.length_map]

/-- The slot of a run has no more characters than the run has cells. -/
theorem length_ofRun_le {run : Run} (h : Sound container data run) :
    (Slot.ofRun container.order data run).length ≤ cells run := by
  cases hwide : run.wide with
  | true => rw [ofRun_wide h hwide]
  | false =>
      have hlength := length_decode_le (data.extract run.start run.stop).toList
      rw [toList_extract h.stop_le, List.length_map, List.length_range, ← toList_extract h.stop_le]
        at hlength
      simpa only [Slot.ofRun, Slot.decode, cells, hwide, width_narrow, Nat.div_one,
        Bool.false_eq_true, if_false] using hlength

/-- The slot of a run ends where the run does or before. -/
theorem ofRun_end_le {run : Run} (h : Sound container data run) :
    (Slot.ofRun container.order data run).pos + (Slot.ofRun container.order data run).byteLength ≤
      run.stop := by
  have hlength := Nat.mul_le_mul_right (width run.wide) (length_ofRun_le h)
  rw [Nat.mul_comm (cells run)] at hlength
  exact Nat.le_trans (Nat.add_le_add_left hlength run.start) h.end_le

theorem mem_extract {slot : Slot} : slot ∈ Slot.extract container data ↔
    ∃ run ∈ (runs container data).toList, Slot.ofRun container.order data run = slot := by
  rw [Slot.extract, Array.toList_map, List.mem_map]

theorem exists_run_of_mem_extract {slot : Slot} (h : slot ∈ Slot.extract container data) :
    ∃ run, Sound container data run ∧ Slot.ofRun container.order data run = slot := by
  obtain ⟨run, hrun, rfl⟩ := mem_extract.mp h
  exact ⟨run, (runs_sound container data).sound run hrun, rfl⟩

theorem extract_inside (container : Container) (data : Bytes) :
    ∀ slot ∈ Slot.extract container data, slot.pos + slot.byteLength ≤ data.size := by
  intro slot hslot
  obtain ⟨run, hrun, rfl⟩ := exists_run_of_mem_extract hslot
  exact Nat.le_trans (ofRun_end_le hrun) hrun.stop_le

/-! ## Plain charsets -/

theorem Plain.printable {charset : Charset} (hplain : Plain charset) : Printable charset :=
  hplain.range

theorem Printable.byte_range {charset : Charset} (hprintable : Printable charset) {b : UInt8}
    (h : charset.containsByte b = true) :
    (0x20 ≤ b.toNat ∧ b.toNat ≤ 0x7E) ∨ (0xA0 ≤ b.toNat ∧ b.toNat ≤ 0xEE) := by
  have hrange := hprintable _ (contains_ofNat h)
  rwa [toNat_ofNat_byte] at hrange

theorem Printable.not_zero {charset : Charset} (hprintable : Printable charset) {b : UInt8}
    (h : charset.containsByte b = true) : b ≠ 0 := by
  have hrange := hprintable.byte_range h
  rintro rfl
  simp at hrange

theorem decode_narrow (hprintable : Printable container.charset) {start stop : Nat}
    (hstop : stop ≤ data.size) (htext : IsText container data false start (stop - start)) :
    Slot.decode container.order false (data.extract start stop).toList =
      chars container data false start (stop - start) := by
  have hbytes : ∀ b ∈ (data.extract start stop).toList,
      (0x20 ≤ b.toNat ∧ b.toNat ≤ 0x7E) ∨ (0xA0 ≤ b.toNat ∧ b.toNat ≤ 0xEE) := by
    rw [toList_extract hstop]
    intro b hb
    obtain ⟨i, hi, rfl⟩ := List.mem_map.mp hb
    have hcell := htext i (List.mem_range.mp hi)
    exact hprintable.byte_range (by simpa using hcell.char)
  have hchars : (data.extract start stop).toList.map Windows1252.charOf =
      (data.extract start stop).toList.map fun b => Char.ofNat b.toNat := by
    apply List.map_congr_left
    intro b hb
    have hrange := hbytes b hb
    exact charOf_of_plain (by omega)
  rw [Slot.decode, if_neg (by simp), decode_of_no_mark (fun b hb => by have := hbytes b hb; omega),
    hchars, toList_extract hstop, List.map_map, chars]
  apply List.map_congr_left
  intro i _
  simp [charByte]

theorem ofRun_narrow (hprintable : Printable container.charset) {run : Run}
    (h : Sound container data run) (hnarrow : run.wide = false) :
    Slot.ofRun container.order data run =
      ⟨String.ofList (chars container data false run.start (cells run)), run.start, cells run,
        false⟩ := by
  obtain ⟨start, stop, wide⟩ := run
  subst hnarrow
  have hcells : cells ⟨start, stop, false⟩ = stop - start := Nat.div_one _
  have htext := h.text
  rw [hcells] at htext ⊢
  rw [Slot.ofRun, decode_narrow hprintable h.stop_le htext]
  simp [chars]

/-- What an extracted slot is with a printable charset: the characters of the cells of its run. -/
theorem ofRun_eq (hprintable : Printable container.charset) {run : Run} (h : Sound container data run) :
    Slot.ofRun container.order data run =
      ⟨String.ofList (chars container data run.wide run.start (cells run)), run.start, cells run,
        run.wide⟩ := by
  cases hwide : run.wide with
  | true => exact ofRun_wide h hwide
  | false => exact ofRun_narrow hprintable h hwide

/-! ## Encoding -/

theorem length_cellBytes (order : ByteOrder) (wide : Bool) (c : Char) :
    (cellBytes order wide c).length = width wide := by
  cases wide with
  | true => exact length_bytes16 order _
  | false => rfl

/-- Characters of a printable charset are written cell by cell. -/
theorem encode_eq {charset : Charset} (hprintable : Printable charset) (order : ByteOrder) (wide : Bool)
    {text : List Char} (h : ∀ c ∈ text, charset.contains c = true) :
    Slot.encode? order wide text = some (text.flatMap (cellBytes order wide)) := by
  cases wide with
  | true =>
      have hsmall : ∀ c ∈ text, c.toNat < 0x10000 := by
        intro c hc
        have hlt := lt_of_contains (h c hc)
        omega
      rw [Slot.encode?, if_pos rfl, encode_of_lt hsmall, List.flatMap_map]
      rfl
  | false =>
      rw [Slot.encode?, if_neg (by simp), Windows1252.encode?]
      induction text with
      | nil => rfl
      | cons c text ih =>
          have hrange := hprintable c (h c List.mem_cons_self)
          have hrest := ih fun d hd => h d (List.mem_cons_of_mem c hd)
          rw [List.mapM_cons, byteOf_of_plain (by omega), hrest]
          rfl

end ScriptRecord.Proofs.Slot.Texts
