import ScriptRecord.Proofs.Slot.Editing
import ScriptRecord.Proofs.Slot.Placement
/-!
# Texts that are not edited

What a slot reads as is written back as the bytes it was read from, unless those
bytes mean something else to the two ways of reading them.  A byte from `80` to `9F`
is looked up in the charset by its value, but reads as another character in
Windows-1252; and a byte order mark has the bytes behind it read in another encoding.
Every other slot is literal, and `commit_untouched` says that it stands in the way of
no commit and keeps its bytes.
-/

namespace ScriptRecord.Proofs.Slot.Untouched

open ScriptRecord.Proofs.BytesAt
open ScriptRecord.Proofs.Slot.Cells
open ScriptRecord.Proofs.Slot.Texts
open ScriptRecord.Proofs.Slot.WritingBack
open ScriptRecord.Proofs.Slot.Editing
open ScriptRecord.Proofs.Slot.Placement
open ScriptRecord.Proofs.Text.Members

def marks : List (List UInt8) :=
  [[0xEF, 0xBB, 0xBF], [0xFE, 0xFF], [0xFF, 0xFE]]

/-- A byte that stands for the character of its value in Windows-1252. -/
def Shared (byte : UInt8) : Prop :=
  byte.toNat < 0x80 ∨ 0xA0 ≤ byte.toNat ∨ byte ∈ [0x81, 0x8D, 0x8F, 0x90, 0x9D]

instance (byte : UInt8) : Decidable (Shared byte) :=
  inferInstanceAs (Decidable (_ ∨ _ ∨ _))

instance (byte? : Option UInt8) : Decidable (∀ byte ∈ byte?, Shared byte) :=
  Option.decidableForallMem byte?

/-- One-byte text does not begin with a byte order mark. -/
def Unmarked (payload : Bytes) (slot : Slot) : Prop :=
  slot.wide = false → ∀ mark ∈ marks, ¬ HasAt payload slot.pos mark

instance (payload : Bytes) (slot : Slot) : Decidable (Unmarked payload slot) :=
  inferInstanceAs (Decidable (_ → _))

/-- One-byte text that reads byte by byte, each as the character of its value. -/
structure Literal (payload : Bytes) (slot : Slot) : Prop where
  unmarked : Unmarked payload slot
  shared : slot.wide = false → ∀ i < slot.length, ∀ byte ∈ payload[slot.pos + i]?, Shared byte

instance (payload : Bytes) (slot : Slot) : Decidable (Literal payload slot) :=
  decidable_of_iff (Unmarked payload slot ∧ (slot.wide = false →
      ∀ i < slot.length, ∀ byte ∈ payload[slot.pos + i]?, Shared byte))
    ⟨fun h => ⟨h.1, h.2⟩, fun h => ⟨h.unmarked, h.shared⟩⟩

/-- A slot whose text is written as the bytes that it holds. -/
def Restores (container : Container) (payload : Bytes) (slot : Slot) : Prop :=
  ∃ bytes, Fits container payload.size slot bytes ∧ HasAt payload slot.pos bytes

variable {container : Container} {payload after : Bytes} {run : Run} {slot : Slot}

/-! ## One-byte text -/

theorem charOf_of_shared {byte : UInt8} (h : Shared byte) :
    Windows1252.charOf byte = Char.ofNat byte.toNat := by
  have hall : ∀ n : Fin 256, Shared (UInt8.ofNat n) →
      Windows1252.charOf (UInt8.ofNat n) = Char.ofNat n := by
    decide +kernel
  simpa using hall ⟨byte.toNat, byte.toNat_lt⟩ (by simpa using h)

theorem le_charOf_of_not_shared {byte : UInt8} (h : ¬ Shared byte) :
    0x100 ≤ (Windows1252.charOf byte).toNat := by
  have hall : ∀ n : Fin 256, ¬ Shared (UInt8.ofNat n) →
      0x100 ≤ (Windows1252.charOf (UInt8.ofNat n)).toNat := by
    decide +kernel
  simpa using hall ⟨byte.toNat, byte.toNat_lt⟩ (by simpa using h)

/-- The table is read backwards without loss, shared byte or not. -/
theorem byteOf_charOf (byte : UInt8) :
    Windows1252.byteOf? (Windows1252.charOf byte) = some byte := by
  have hall : ∀ n : Fin 256,
      Windows1252.byteOf? (Windows1252.charOf (UInt8.ofNat n)) = some (UInt8.ofNat n) := by
    decide +kernel
  simpa using hall ⟨byte.toNat, byte.toNat_lt⟩

theorem encode_map_charOf (bytes : List UInt8) :
    Windows1252.encode? (bytes.map Windows1252.charOf) = some bytes := by
  rw [Windows1252.encode?]
  induction bytes with
  | nil => rfl
  | cons byte bytes ih =>
      rw [List.map_cons, List.mapM_cons, byteOf_charOf, ih]
      rfl

theorem decode_of_unmarked {bytes : List UInt8} (h : ∀ mark ∈ marks, ¬ mark <+: bytes) :
    Windows1252.decode bytes = bytes.map Windows1252.charOf := by
  unfold Windows1252.decode
  split
  · exact absurd ⟨_, rfl⟩ (h [0xEF, 0xBB, 0xBF] (by simp [marks]))
  · exact absurd ⟨_, rfl⟩ (h [0xFE, 0xFF] (by simp [marks]))
  · exact absurd ⟨_, rfl⟩ (h [0xFF, 0xFE] (by simp [marks]))
  · rfl

def bytesOf (payload : Bytes) (run : Run) : List UInt8 :=
  (payload.extract run.start run.stop).toList

theorem hasAt_bytesOf (h : Sound container payload run) :
    HasAt payload run.start (bytesOf payload run) := by
  have hlt := h.start_lt
  have hle := h.stop_le
  rw [hasAt_iff, bytesOf, Array.toList_extract, List.extract_eq_take_drop]
  exact ⟨by omega, List.take_prefix _ _⟩

theorem length_bytesOf (h : Sound container payload run) :
    (bytesOf payload run).length = run.stop - run.start := by
  rw [bytesOf, toList_extract h.stop_le, List.length_map, List.length_range]

theorem ofRun_unmarked (h : Sound container payload run) (hnarrow : run.wide = false)
    (hunmarked : Unmarked payload (Slot.ofRun container.order payload run)) :
    Slot.ofRun container.order payload run =
      ⟨String.ofList ((bytesOf payload run).map Windows1252.charOf), run.start,
        (bytesOf payload run).length, false⟩ := by
  have hdecode : Windows1252.decode (bytesOf payload run) =
      (bytesOf payload run).map Windows1252.charOf := by
    apply decode_of_unmarked
    rintro mark hmark ⟨rest, hrest⟩
    have hat := hasAt_bytesOf h
    rw [← hrest] at hat
    exact hunmarked hnarrow mark hmark hat.left
  rw [bytesOf] at hdecode ⊢
  simp only [Slot.ofRun, Slot.decode, hnarrow, Bool.false_eq_true, if_false, hdecode,
    List.length_map]

theorem containsByte_of_mem (h : Sound container payload run) (hnarrow : run.wide = false)
    {byte : UInt8} (hbyte : byte ∈ bytesOf payload run) :
    container.charset.containsByte byte = true := by
  rw [bytesOf, toList_extract h.stop_le] at hbyte
  obtain ⟨i, hi, rfl⟩ := List.mem_map.mp hbyte
  have hcell := h.text i (by simpa [cells, hnarrow] using hi)
  rw [hnarrow, width_narrow, Nat.one_mul] at hcell
  exact hcell.char

theorem literal_iff (h : Sound container payload run) (hnarrow : run.wide = false)
    (hunmarked : Unmarked payload (Slot.ofRun container.order payload run)) :
    Literal payload (Slot.ofRun container.order payload run) ↔
      ∀ byte ∈ bytesOf payload run, Shared byte := by
  have hslot := ofRun_unmarked h hnarrow hunmarked
  have hbyte (i : Nat) (hi : i < (bytesOf payload run).length) :
      payload[run.start + i]? = some (bytesOf payload run)[i] := by
    obtain ⟨hlt, hget⟩ := (hasAt_bytesOf h).getElem i hi
    rw [Array.getElem?_eq_getElem hlt, hget]
  constructor
  · intro hliteral byte hmem
    obtain ⟨i, hi, rfl⟩ := List.getElem_of_mem hmem
    have hshared := hliteral.shared hnarrow i
    rw [hslot] at hshared
    exact hshared hi _ (hbyte i hi)
  · intro hshared
    refine ⟨hunmarked, ?_⟩
    rw [hslot]
    intro _ i hi byte hget
    have hsame := (hbyte i hi).symm.trans hget
    rw [Option.some_inj] at hsame
    exact hsame ▸ hshared _ (List.getElem_mem hi)

/-! ## Two-byte text -/

theorem flatMap_units (order : ByteOrder) (bytes : List UInt8) :
    (Slot.units order bytes).flatMap order.bytes16 = bytes.take (2 * (bytes.length / 2)) := by
  fun_induction Slot.units order bytes with
  | case1 a b rest ih =>
      have hlength : 2 * ((a :: b :: rest).length / 2) = 2 * (rest.length / 2) + 2 := by
        simp only [List.length_cons]
        omega
      rw [List.flatMap_cons, bytes16_word16, ih, hlength]
      rfl
  | case2 bytes h =>
      rcases bytes with _ | ⟨a, _ | ⟨b, rest⟩⟩
      · rfl
      · simp
      · exact absurd rfl (h a b rest)

theorem encode_decode_of_lt {units : List UInt16} (h : ∀ u ∈ units, u.toNat < 0xD800) :
    Utf16.encode (Utf16.decode units) = units := by
  have hchar (u : UInt16) (hu : u.toNat < 0xD800) : (Char.ofNat u.toNat).toNat = u.toNat := by
    rw [Char.ofNat, dif_pos (.inl hu)]
    rfl
  rw [decode_of_lt h, encode_of_lt, List.map_map]
  · rw [List.map_congr_left (g := id), List.map_id]
    intro u hu
    simp [hchar u (h u hu)]
  · intro c hc
    obtain ⟨u, hu, rfl⟩ := List.mem_map.mp hc
    have hlt := h u hu
    rw [hchar u hlt]
    omega

theorem encode_wide (h : Sound container payload run) (hwide : run.wide = true) :
    Slot.encode? container.order true (Slot.decode container.order true (bytesOf payload run)) =
      some ((bytesOf payload run).take (2 * cells run)) := by
  have hcells : cells run = (run.stop - run.start) / 2 := by rw [cells, hwide, width_wide]
  have htext := h.text
  rw [hwide, hcells] at htext
  have hlt : ∀ u ∈ Slot.units container.order (bytesOf payload run), u.toNat < 0xD800 := by
    intro u hu
    rw [bytesOf, units_of_isText (h.allowed hwide) h.stop_le htext] at hu
    obtain ⟨i, -, rfl⟩ := List.mem_map.mp hu
    have hsmall := charByte_lt container payload true run.start i
    rw [UInt16.toNat_ofNat', Nat.mod_eq_of_lt (by omega)]
    omega
  rw [Slot.encode?, if_pos rfl, Slot.decode, if_pos rfl, encode_decode_of_lt hlt, flatMap_units,
    length_bytesOf h, hcells]

/-! ## Slots that are written as they were -/

theorem fitted_of_length {text : List Char} {pos length : Nat} {wide : Bool}
    (h : text.length = length) : (Slot.mk (String.ofList text) pos length wide).fitted = text := by
  rw [Slot.fitted]
  simp [h]

theorem restores_wide (h : Sound container payload run) (hwide : run.wide = true) :
    Restores container payload (Slot.ofRun container.order payload run) := by
  have hinside := (placed_ofRun h).inside
  have hencode := encode_wide h hwide
  have htext := h.text
  have hallowed := chars_allowed h
  rw [hwide] at htext hallowed
  have hcells : cells run = (run.stop - run.start) / 2 := by rw [cells, hwide, width_wide]
  have hdecode : Slot.decode container.order true (bytesOf payload run) =
      chars container payload true run.start (cells run) := by
    rw [hcells] at htext ⊢
    exact decode_wide (h.allowed hwide) h.stop_le htext
  have hat := hasAt_bytesOf h
  rw [← List.take_append_drop (2 * cells run) (bytesOf payload run)] at hat
  rw [hdecode] at hencode
  rw [ofRun_wide h hwide] at hinside ⊢
  have hfitted := @fitted_of_length (chars container payload true run.start (cells run)) run.start
    (cells run) true (by rw [chars, List.length_map, List.length_range])
  refine ⟨(bytesOf payload run).take (2 * cells run), ⟨?_, ?_, ?_, hinside⟩, hat.left⟩
  · rw [hfitted]
    exact hallowed
  · rw [hfitted]
    exact hencode
  · rw [List.length_take, length_bytesOf h, byteLength_eq, width_wide]
    dsimp only
    omega

theorem restores_of_literal (h : Sound container payload run)
    (hliteral : Literal payload (Slot.ofRun container.order payload run)) :
    Restores container payload (Slot.ofRun container.order payload run) := by
  cases hwide : run.wide with
  | true => exact restores_wide h hwide
  | false =>
      have hinside := (placed_ofRun h).inside
      have hshared := (literal_iff h hwide hliteral.unmarked).mp hliteral
      rw [ofRun_unmarked h hwide hliteral.unmarked] at hinside ⊢
      have hfitted := @fitted_of_length ((bytesOf payload run).map Windows1252.charOf) run.start
        (bytesOf payload run).length false (List.length_map _)
      refine ⟨bytesOf payload run, ⟨?_, ?_, ?_, hinside⟩, hasAt_bytesOf h⟩
      · rw [hfitted]
        intro c hc
        obtain ⟨byte, hbyte, rfl⟩ := List.mem_map.mp hc
        rw [charOf_of_shared (hshared byte hbyte)]
        exact contains_ofNat (containsByte_of_mem h hwide hbyte)
      · rw [hfitted]
        exact encode_map_charOf _
      · exact (Nat.mul_one _).symm

/-! ## Slots that are misread -/

/-- What is refused of a slot nobody touched is a character that no charset has. -/
theorem le_of_not_contains (h : Sound container payload run)
    (hunmarked : Unmarked payload (Slot.ofRun container.order payload run)) {c : Char}
    (hc : c ∈ (Slot.ofRun container.order payload run).fitted)
    (hrefused : container.charset.contains c = false) : 0x100 ≤ c.toNat := by
  cases hwide : run.wide with
  | true =>
      obtain ⟨bytes, hfits, -⟩ := restores_wide h hwide
      rw [hfits.allowed c hc] at hrefused
      cases hrefused
  | false =>
      rw [ofRun_unmarked h hwide hunmarked, fitted_of_length (List.length_map _)] at hc
      obtain ⟨byte, hbyte, rfl⟩ := List.mem_map.mp hc
      by_cases hshared : Shared byte
      · rw [charOf_of_shared hshared, contains_ofNat (containsByte_of_mem h hwide hbyte)] at hrefused
        cases hrefused
      · exact le_charOf_of_not_shared hshared

theorem exists_not_contains (h : Sound container payload run)
    (hunmarked : Unmarked payload (Slot.ofRun container.order payload run))
    (hliteral : ¬ Literal payload (Slot.ofRun container.order payload run)) :
    ∃ c ∈ (Slot.ofRun container.order payload run).fitted,
      container.charset.contains c = false := by
  cases hwide : run.wide with
  | true =>
      refine absurd ⟨hunmarked, ?_⟩ hliteral
      intro hnarrow
      exact absurd (hwide.symm.trans hnarrow) (by decide)
  | false =>
      by_contra hallowed
      apply hliteral
      rw [literal_iff h hwide hunmarked]
      intro byte hbyte
      by_contra hshared
      apply hallowed
      refine ⟨Windows1252.charOf byte, ?_, ?_⟩
      · rw [ofRun_unmarked h hwide hunmarked, fitted_of_length (List.length_map _)]
        exact List.mem_map_of_mem hbyte
      · have hle := le_charOf_of_not_shared hshared
        rw [Charset.contains, dif_neg (by omega)]

/-! ## Commits -/

/-- A slot that is written as it was keeps its bytes, for no later slot covers them. -/
theorem unchanged_of_restores {slots : List Slot}
    (hupdated : Updated container slots payload after)
    (hordered : slots.Pairwise fun earlier later => earlier.pos + earlier.byteLength ≤ later.pos)
    (hmem : slot ∈ slots) (h : Restores container payload slot) {pos : Nat}
    (hcovers : Covers slot pos) : after[pos]? = payload[pos]? := by
  obtain ⟨before, rest, rfl⟩ := List.append_of_mem hmem
  have hlater := (List.pairwise_cons.mp (List.pairwise_append.mp hordered).2.1).1
  obtain ⟨bytes, byte, hencoded, hbyte, hafter⟩ := hupdated.covered rfl hcovers (by
    intro later hmem' hcover
    have hle := hlater later hmem'
    have hstart := hcover.1
    have hend := hcovers.2
    omega)
  obtain ⟨own, hfits, hat⟩ := h
  rw [hfits.encoded, Option.some_inj] at hencoded
  subst hencoded
  obtain ⟨hi, hget⟩ := List.getElem?_eq_some_iff.mp hbyte
  obtain ⟨hlt, hown⟩ := hat.getElem _ hi
  have hpos : slot.pos + (pos - slot.pos) = pos := Nat.add_sub_cancel' hcovers.1
  rw [hafter, ← hget, ← hown, ← Array.getElem?_eq_getElem hlt, hpos]

theorem restores_of_mem (hmem : slot ∈ Slot.extract container payload)
    (hliteral : Literal payload slot) : Restores container payload slot := by
  obtain ⟨run, hrun, rfl⟩ := exists_run_of_mem_extract hmem
  exact restores_of_literal hrun hliteral

theorem getElem?_withTexts (texts : Nat → Option String) (slots : List Slot) (i : Nat) :
    (withTexts texts slots)[i]? =
      slots[i]?.map fun slot => { slot with text := (texts i).getD slot.text } := by
  rw [withTexts, List.getElem?_mapIdx]

theorem withTexts_none (slots : List Slot) : withTexts (fun _ => none) slots = slots := by
  apply List.ext_getElem?
  intro i
  rw [getElem?_withTexts]
  exact Option.map_id'

theorem ordered_withTexts (container : Container) (payload : Bytes)
    (texts : Nat → Option String) :
    (withTexts texts (Slot.extract container payload)).Pairwise fun earlier later =>
      earlier.pos + earlier.byteLength ≤ later.pos := by
  have hordered := List.pairwise_iff_getElem.mp (extract_ordered container payload)
  apply List.pairwise_iff_getElem.mpr
  intro i j hi hj hij
  rw [length_withTexts] at hi hj
  simp only [withTexts, List.getElem_mapIdx]
  exact hordered i j hi hj hij

/-- New texts leave the slots where they are. -/
theorem inside_withTexts (container : Container) (payload : Bytes) (texts : Nat → Option String) :
    ∀ slot ∈ withTexts texts (Slot.extract container payload),
      slot.pos + slot.byteLength ≤ payload.size := by
  intro slot hmem
  obtain ⟨i, hi⟩ := List.getElem?_of_mem hmem
  rw [getElem?_withTexts, Option.map_eq_some_iff] at hi
  obtain ⟨found, hfound, rfl⟩ := hi
  exact extract_inside container payload found (List.mem_of_getElem? hfound)

/-- The slots of a payload that keep their texts are literal. -/
def Harmless (container : Container) (payload : Bytes) (texts : Nat → Option String) : Prop :=
  ∀ (i : Nat) (slot : Slot), (Slot.extract container payload)[i]? = some slot →
    texts i = none → Literal payload slot

/-- What a commit reports is a text that was put in. -/
theorem edited_of_refused {texts : Nat → Option String} {failure : Slot.Failure}
    (hharmless : Harmless container payload texts)
    (h : Slot.commit container payload (withTexts texts (Slot.extract container payload)) =
      .error failure) :
    ∃ error, failure = .refused error ∧ ∃ i slot text,
      (Slot.extract container payload)[i]? = some slot ∧ texts i = some text ∧
        Refused container payload.size i { slot with text := text } error := by
  obtain ⟨error, rfl, before, edited, rest, hslots, -, hrefused⟩ :=
    firstRefused_of_commit (inside_withTexts container payload texts) h
  rw [Nat.zero_add] at hrefused
  have hget := getElem?_withTexts texts (Slot.extract container payload) before.length
  rw [hslots, List.getElem?_append_right (Nat.le_refl _), Nat.sub_self, List.getElem?_cons_zero,
    eq_comm, Option.map_eq_some_iff] at hget
  obtain ⟨slot, hslot, rfl⟩ := hget
  refine ⟨error, rfl, before.length, slot, ?_⟩
  cases htext : texts before.length with
  | some text =>
      rw [htext] at hrefused
      exact ⟨text, hslot, rfl, hrefused⟩
  | none =>
      rw [htext] at hrefused
      have hliteral := hharmless _ _ hslot htext
      obtain ⟨bytes, hfits, -⟩ := restores_of_mem (List.mem_of_getElem? hslot) hliteral
      exact absurd hrefused.faulty hfits.not_faulty

/-- A slot that keeps its text keeps its bytes. -/
theorem unchanged_of_untouched {texts : Nat → Option String}
    (hharmless : Harmless container payload texts)
    (h : Slot.commit container payload (withTexts texts (Slot.extract container payload)) =
      .ok after)
    {i : Nat} (hslot : (Slot.extract container payload)[i]? = some slot) (htext : texts i = none)
    {pos : Nat} (hcovers : Covers slot pos) : after[pos]? = payload[pos]? := by
  have hget := getElem?_withTexts texts (Slot.extract container payload) i
  rw [hslot, htext] at hget
  have hrestores := restores_of_mem (List.mem_of_getElem? hslot) (hharmless _ _ hslot htext)
  exact unchanged_of_restores (updated_of_commit h) (ordered_withTexts container payload texts)
    (List.mem_of_getElem? hget) hrestores hcovers

theorem commit_of_literal
    (h : ∀ slot ∈ Slot.extract container payload, Literal payload slot) :
    Slot.commit container payload (Slot.extract container payload) = .ok payload := by
  have hharmless : Harmless container payload fun _ => none :=
    fun i slot hslot _ => h slot (List.mem_of_getElem? hslot)
  have hnone := withTexts_none (Slot.extract container payload)
  cases hcommit : Slot.commit container payload (Slot.extract container payload) with
  | error failure =>
      rw [← hnone] at hcommit
      obtain ⟨error, -, i, slot, text, -, htext, -⟩ := edited_of_refused hharmless hcommit
      cases htext
  | ok after =>
      have hupdated := updated_of_commit hcommit
      rw [← hnone] at hcommit
      congr 1
      apply Array.ext_getElem?
      intro pos
      by_cases hcovered : ∃ slot ∈ Slot.extract container payload, Covers slot pos
      · obtain ⟨slot, hmem, hcovers⟩ := hcovered
        obtain ⟨i, hi, rfl⟩ := List.getElem_of_mem hmem
        exact unchanged_of_untouched hharmless hcommit (List.getElem?_eq_getElem hi) rfl hcovers
      · exact hupdated.uncovered (by simpa using hcovered)

theorem refused_of_misread
    (hunmarked : ∀ slot ∈ Slot.extract container payload, Unmarked payload slot)
    (h : ∃ slot ∈ Slot.extract container payload, ¬ Literal payload slot) :
    ∃ index c, Slot.commit container payload (Slot.extract container payload) =
      .error (.refused (.invalidStringChar index c)) ∧ 0x100 ≤ c.toNat := by
  cases hcommit : Slot.commit container payload (Slot.extract container payload) with
  | ok after =>
      obtain ⟨slot, hmem, hliteral⟩ := h
      obtain ⟨writes, hfit, -⟩ := fitAll_of_commit hcommit
      have hnotFaulty := not_faulty_of_fitAll hfit slot hmem
      have hmarks := hunmarked slot hmem
      obtain ⟨run, hrun, rfl⟩ := exists_run_of_mem_extract hmem
      exact absurd (.inl (exists_not_contains hrun hmarks hliteral)) hnotFaulty
  | error failure =>
      obtain ⟨error, rfl, before, slot, rest, hslots, -, hrefused⟩ :=
        firstRefused_of_commit (extract_inside container payload) hcommit
      have hmem : slot ∈ Slot.extract container payload := by
        rw [hslots]
        simp
      have hmarks := hunmarked slot hmem
      obtain ⟨run, hrun, rfl⟩ := exists_run_of_mem_extract hmem
      -- A slot without a refused character is literal, and has no fault at all.
      have hchars (hallowed : ∀ c ∈ (Slot.ofRun container.order payload run).fitted,
          container.charset.contains c = true) : False := by
        have hliteral : Literal payload (Slot.ofRun container.order payload run) := by
          by_contra hliteral
          obtain ⟨c, hc, hnot⟩ := exists_not_contains hrun hmarks hliteral
          rw [hallowed c hc] at hnot
          cases hnot
        obtain ⟨bytes, hfits, -⟩ := restores_of_literal hrun hliteral
        exact hfits.not_faulty hrefused.faulty
      cases hrefused with
      | @char front back c htext _ hc =>
          refine ⟨_, c, rfl, le_of_not_contains hrun hmarks ?_ hc⟩
          rw [htext]
          simp
      | unencodable hallowed _ | width hallowed _ _ | outside hallowed _ _ _ =>
          exact (hchars hallowed).elim

/-- Texts that nobody touched are written back as the bytes they were read from, as far
as their slots are literal: together they leave the payload as it is, and among edited
ones they are not what a commit reports and they keep their bytes.  Without byte order
marks, a slot that is not literal has the commit refused for a character beyond those
that a charset can have. -/
theorem commit_untouched (container : Container) (payload : Bytes) :
    ((∀ slot ∈ Slot.extract container payload, Literal payload slot) →
      Slot.commit container payload (Slot.extract container payload) = .ok payload) ∧
    ((∀ slot ∈ Slot.extract container payload, Unmarked payload slot) →
      (∃ slot ∈ Slot.extract container payload, ¬ Literal payload slot) →
      ∃ index c, Slot.commit container payload (Slot.extract container payload) =
        .error (.refused (.invalidStringChar index c)) ∧ 0x100 ≤ c.toNat) ∧
    ∀ texts, Harmless container payload texts →
      (∀ failure, Slot.commit container payload
          (withTexts texts (Slot.extract container payload)) = .error failure →
        ∃ error, failure = .refused error ∧ ∃ i slot text,
          (Slot.extract container payload)[i]? = some slot ∧ texts i = some text ∧
            Refused container payload.size i { slot with text := text } error) ∧
      (∀ after, Slot.commit container payload
          (withTexts texts (Slot.extract container payload)) = .ok after →
        ∀ i slot, (Slot.extract container payload)[i]? = some slot → texts i = none →
          ∀ pos, Covers slot pos → after[pos]? = payload[pos]?) := by
  refine ⟨commit_of_literal, refused_of_misread, ?_⟩
  intro texts hharmless
  refine ⟨?_, ?_⟩
  · intro failure hfailure
    exact edited_of_refused hharmless hfailure
  · intro after hafter i slot hslot htext pos hcovers
    exact unchanged_of_untouched hharmless hafter hslot htext hcovers

/-- A text of each width, the one-byte text with a byte above `80` that is shared. -/
theorem commit_untouched_bothWidths :
    let container : Container := ⟨.pc, .big, .ofString "ABCDE\u0081\u00a9"⟩
    let payload : Bytes := #[0x41, 0x81, 0xA9, 0x42, 0x43, 0x01, 0x00, 0x44, 0x00, 0xA9, 0x00, 0x81,
      0x00, 0x41, 0x00, 0x45, 0x00, 0x00, 0x24]
    Slot.extract container payload =
        [⟨"A\u0081\u00a9BC", 0, 5, false⟩, ⟨"D\u00a9\u0081AE", 6, 5, true⟩] ∧
      (∀ slot ∈ Slot.extract container payload, Literal payload slot) ∧
      Slot.commit container payload (Slot.extract container payload) = .ok payload := by
  intro container payload
  have hslots : Slot.extract container payload =
      [⟨"A\u0081\u00a9BC", 0, 5, false⟩, ⟨"D\u00a9\u0081AE", 6, 5, true⟩] := by
    decide +kernel
  have hliteral : ∀ slot ∈ Slot.extract container payload, Literal payload slot := by
    rw [hslots]
    decide +kernel
  exact ⟨hslots, hliteral, (commit_untouched container payload).1 hliteral⟩

/-- Bytes that are not shared are refused as they were read, and text behind a byte order
mark is written over the mark. -/
theorem commit_untouched_fails :
    let strange : Container := ⟨.wii, .big, .ofString "\u0080"⟩
    let euros : Bytes := #[0x80, 0x80, 0x80, 0x80, 0x80, 0x00]
    let marked : Container := ⟨.wii, .big, .ofString "AB\u00ef\u00bb\u00bf"⟩
    let letters : Bytes := #[0xEF, 0xBB, 0xBF, 0x41, 0x42, 0x00]
    Slot.commit strange euros (Slot.extract strange euros) =
        .error (.refused (.invalidStringChar 0 '€')) ∧
      Slot.commit marked letters (Slot.extract marked letters) =
        .ok #[0x41, 0x42, 0xBF, 0x41, 0x42, 0x00] := by
  decide +kernel

end ScriptRecord.Proofs.Slot.Untouched
