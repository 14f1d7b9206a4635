import ScriptRecord.Proofs.Slot.Resemblance
import ScriptRecord.Proofs.Slot.Texts
import ScriptRecord.Proofs.Slot.WritingBack
/-!
# Editing texts

With a plain charset any of the texts of a payload can be replaced by any other texts
over the charset: `extract_commit` says that they are accepted, that no byte outside
the slots changes, and that the slots are found again where they were.  The payload
before and after look the same to the pass, because in every slot zeros stay zeros and
characters stay characters.
-/

namespace ScriptRecord.Proofs.Slot.Editing

open ScriptRecord.Proofs.BytesAt
open ScriptRecord.Proofs.Slot.Cells
open ScriptRecord.Proofs.Slot.Resemblance
open ScriptRecord.Proofs.Slot.Texts
open ScriptRecord.Proofs.Slot.WritingBack
open ScriptRecord.Proofs.Text.Members

/-- Slots with other texts, where there are any. -/
def withTexts (texts : Nat → Option String) (slots : List Slot) : List Slot :=
  slots.mapIdx fun i slot => { slot with text := (texts i).getD slot.text }

/-- The slot of a run in a printable charset. -/
def slotOf (container : Container) (data : Bytes) (run : Run) : Slot :=
  ⟨String.ofList (chars container data run.wide run.start (cells run)), run.start, cells run,
    run.wide⟩

/-- A slot in the place of a run, with a text over the charset. -/
structure InPlace (container : Container) (run : Run) (slot : Slot) : Prop where
  pos_eq : slot.pos = run.start
  length_eq : slot.length = cells run
  wide_eq : slot.wide = run.wide
  allowed : ∀ c ∈ slot.text.toList, container.charset.contains c = true

variable {container : Container} {payload after data : Bytes} {texts : Nat → Option String}
  {run : Run} {slot : Slot}

/-! ## Slots in place -/

theorem byteLength_eq (slot : Slot) : slot.byteLength = width slot.wide * slot.length := by
  rw [Slot.byteLength, Slot.charWidth, width, Nat.mul_comm]

theorem extract_eq (hprintable : Printable container.charset) (data : Bytes) :
    Slot.extract container data = (runs container data).toList.map (slotOf container data) := by
  rw [Slot.extract, Array.toList_map]
  apply List.map_congr_left
  intro run hrun
  exact ofRun_eq hprintable ((runs_sound container data).sound run hrun)

theorem length_withTexts (texts : Nat → Option String) (slots : List Slot) :
    (withTexts texts slots).length = slots.length := by
  rw [withTexts, List.length_mapIdx]

theorem chars_allowed (h : Sound container data run) :
    ∀ c ∈ chars container data run.wide run.start (cells run),
      container.charset.contains c = true := by
  intro c hc
  obtain ⟨i, hi, rfl⟩ := List.mem_map.mp hc
  exact contains_ofNat (h.text i (List.mem_range.mp hi)).char

/-- Each edited slot is in the place of its run. -/
theorem inPlace_withTexts (hplain : Plain container.charset)
    (htexts : ∀ i text, texts i = some text →
      ∀ c ∈ text.toList, container.charset.contains c = true) :
    List.Forall₂ (InPlace container) (runs container payload).toList
      (withTexts texts (Slot.extract container payload)) := by
  have hruns := runs_sound container payload
  rw [extract_eq hplain.printable]
  apply List.forall₂_iff_get.mpr
  refine ⟨by rw [length_withTexts, List.length_map], ?_⟩
  intro i hi _
  have hsound := hruns.sound _ (List.getElem_mem hi)
  simp only [withTexts, List.get_eq_getElem, List.getElem_mapIdx, List.getElem_map]
  refine ⟨rfl, rfl, rfl, ?_⟩
  cases htext : texts i with
  | none => simpa [slotOf] using chars_allowed hsound
  | some text => exact htexts i text htext

theorem exists_run_of_mem {slots : List Slot}
    (h : List.Forall₂ (InPlace container) (runs container payload).toList slots)
    (hmem : slot ∈ slots) :
    ∃ run, Sound container payload run ∧ InPlace container run slot := by
  obtain ⟨hlength, hplace⟩ := List.forall₂_iff_get.mp h
  obtain ⟨i, hi, rfl⟩ := List.getElem_of_mem hmem
  have hi' : i < (runs container payload).toList.length := hlength ▸ hi
  exact ⟨_, (runs_sound container payload).sound _ (List.getElem_mem hi'), hplace i hi' hi⟩

theorem length_fitted (slot : Slot) : slot.fitted.length = slot.length := by
  rw [Slot.fitted, List.length_take, List.length_append, List.length_replicate]
  omega

theorem InPlace.fitted_allowed (hplain : Plain container.charset) (h : InPlace container run slot) :
    ∀ c ∈ slot.fitted, container.charset.contains c = true := by
  intro c hc
  rcases List.mem_append.mp (List.mem_of_mem_take hc) with htext | hspace
  · exact h.allowed c htext
  · rw [List.eq_of_mem_replicate hspace]
    exact hplain.space

theorem InPlace.fits (hplain : Plain container.charset) (hrun : Sound container payload run)
    (h : InPlace container run slot) :
    Fits container payload.size slot (slot.fitted.flatMap (cellBytes container.order slot.wide)) where
  allowed := h.fitted_allowed hplain
  encoded := encode_eq hplain.printable container.order slot.wide (h.fitted_allowed hplain)
  width := by
    rw [length_flatMap_of_width (length_cellBytes container.order slot.wide), length_fitted,
      byteLength_eq]
  inside := by
    have hend := hrun.end_le
    have hstop := hrun.stop_le
    rw [byteLength_eq, h.pos_eq, h.length_eq, h.wide_eq]
    omega

/-- A later slot starts where an earlier one has ended. -/
theorem ordered_of_inPlace {runs : List Run} {slots : List Slot}
    (hruns : SoundRuns container payload runs)
    (h : List.Forall₂ (InPlace container) runs slots) :
    slots.Pairwise fun earlier later => earlier.pos + earlier.byteLength ≤ later.pos := by
  obtain ⟨hlength, hplace⟩ := List.forall₂_iff_get.mp h
  rw [List.pairwise_iff_getElem]
  intro i j hi hj hij
  have hi' : i < runs.length := hlength ▸ hi
  have hj' : j < runs.length := hlength ▸ hj
  have hend := (hruns.sound runs[i] (List.getElem_mem hi')).end_le
  have hnext := List.pairwise_iff_getElem.mp hruns.ordered i j hi' hj' hij
  have hslot := hplace i hi' hi
  have hlater := hplace j hj' hj
  simp only [List.get_eq_getElem] at hslot hlater
  rw [byteLength_eq, hslot.pos_eq, hslot.length_eq, hslot.wide_eq, hlater.pos_eq]
  omega

/-! ## The payload afterwards -/

/-- Every slot has its text in the payload after a commit, since no later one covers it. -/
theorem hasAt_of_updated (hplain : Plain container.charset) {slots : List Slot}
    (hupdated : Updated container slots payload after)
    (hordered : slots.Pairwise fun earlier later => earlier.pos + earlier.byteLength ≤ later.pos)
    (hrun : Sound container payload run) (h : InPlace container run slot) (hmem : slot ∈ slots) :
    HasAt after slot.pos (slot.fitted.flatMap (cellBytes container.order slot.wide)) := by
  have hfits := h.fits hplain hrun
  obtain ⟨before, rest, rfl⟩ := List.append_of_mem hmem
  have hlater := (List.pairwise_append.mp hordered).2.1
  rw [List.pairwise_cons] at hlater
  apply hasAt_of_getElem?
  · rw [hupdated.size_eq, hfits.width]
    exact hfits.inside
  · intro i hi
    have hi' := hi
    rw [hfits.width] at hi'
    have hcovers : Covers slot (slot.pos + i) := ⟨by omega, by omega⟩
    obtain ⟨bytes, byte, hencoded, hbyte, hafter⟩ := hupdated.covered rfl hcovers (by
      intro later hmem' hcover
      have hle := hlater.1 later hmem'
      have hpos := hcover.1
      omega)
    rw [hfits.encoded, Option.some_inj] at hencoded
    rw [← hencoded, Nat.add_sub_cancel_left, List.getElem?_eq_getElem hi] at hbyte
    rw [hafter, hbyte]

/-! ## Text that was written -/

theorem cellBytes_wide (hallowed : container.allowsWide = true) {c : Char} (hlt : c.toNat < 256) :
    cellBytes container.order true c = if Scan.zeroFirst container then [0, UInt8.ofNat c.toNat]
      else [UInt8.ofNat c.toNat, 0] := by
  have hfirst : Scan.zeroFirst container = decide (container.order = .big) := by
    rw [Scan.zeroFirst, hallowed]
    rfl
  have hword : (UInt16.ofNat c.toNat).toNat = c.toNat := by
    rw [UInt16.toNat_ofNat', Nat.mod_eq_of_lt (by omega)]
  have hhigh : c.toNat / 256 = 0 := Nat.div_eq_of_lt hlt
  cases horder : container.order <;>
    simp [cellBytes, ByteOrder.bytes16, ByteOrder.bytesOf, ByteOrder.lowBytes, hword, hhigh,
      hfirst, horder, Nat.mod_eq_of_lt hlt]

/-- The two bytes of a cell that was written. -/
theorem getD_of_hasAt_wide (hallowed : container.allowsWide = true) {pos : Nat} {c : Char}
    (hlt : c.toNat < 256) (h : HasAt data pos (cellBytes container.order true c)) :
    data.getD (pos + zeroAt container) 0 = 0 ∧
      data.getD (pos + charAt container) 0 = UInt8.ofNat c.toNat := by
  rw [cellBytes_wide hallowed hlt] at h
  by_cases hzero : Scan.zeroFirst container = true
  · rw [if_pos hzero] at h
    rw [zeroAt, charAt, if_pos hzero, if_pos hzero]
    exact ⟨h.getD, h.tail.getD⟩
  · rw [if_neg hzero] at h
    rw [zeroAt, charAt, if_neg hzero, if_neg hzero]
    exact ⟨h.tail.getD, h.getD⟩

/-- A character that was written into a cell. -/
theorem cell_of_hasAt {wide : Bool} {pos : Nat} {c : Char}
    (hallowed : wide = true → container.allowsWide = true)
    (hc : container.charset.contains c = true)
    (h : HasAt data pos (cellBytes container.order wide c)) :
    Cell container data wide pos ∧
      data.getD (pos + if wide then charAt container else 0) 0 = UInt8.ofNat c.toNat := by
  have hbyte := containsByte_ofNat hc
  have hinside := h.le_size
  rw [length_cellBytes] at hinside
  cases wide with
  | false =>
      have hchar : data.getD pos 0 = UInt8.ofNat c.toNat := h.getD
      exact ⟨⟨hinside, nofun, by simpa [hchar] using hbyte⟩, hchar⟩
  | true =>
      obtain ⟨hzero, hchar⟩ := getD_of_hasAt_wide (hallowed rfl) (lt_of_contains hc) h
      refine ⟨⟨hinside, fun _ => hzero, ?_⟩, hchar⟩
      rw [if_pos rfl, hchar]
      exact hbyte

theorem charAt_add_zeroAt (container : Container) : charAt container + zeroAt container = 1 := by
  unfold charAt zeroAt
  split <;> rfl

/-- Text that was written is text, and reads as what was written. -/
theorem text_of_hasAt {wide : Bool} {start : Nat} {text : List Char}
    (hallowed : wide = true → container.allowsWide = true)
    (htext : ∀ c ∈ text, container.charset.contains c = true)
    (h : HasAt data start (text.flatMap (cellBytes container.order wide))) :
    IsText container data wide start text.length ∧
      chars container data wide start text.length = text := by
  have hcell (i : Nat) (hi : i < text.length) :=
    cell_of_hasAt hallowed (htext _ (List.getElem_mem hi))
      (h.entry (length_cellBytes container.order wide) i hi)
  refine ⟨fun i hi => (hcell i hi).1, ?_⟩
  apply List.ext_getElem
  · rw [chars, List.length_map, List.length_range]
  · intro i _ hi
    have hlt := lt_of_contains (htext _ (List.getElem_mem hi))
    simp only [chars, List.getElem_map, List.getElem_range, charByte]
    rw [(hcell i hi).2, UInt8.toNat_ofNat', Nat.mod_eq_of_lt hlt, Char.ofNat_toNat]

/-! ## The same slots again -/

/-- Text over text leaves every zero a zero and every character a character. -/
theorem look_of_isText (hplain : Plain container.charset) {wide : Bool} {start count pos : Nat}
    (hdata : IsText container data wide start count)
    (hafter : IsText container after wide start count) (hle : start ≤ pos)
    (hlt : pos < start + width wide * count) :
    (after.getD pos 0 = 0 ↔ data.getD pos 0 = 0) ∧
      container.charset.containsByte (after.getD pos 0) =
        container.charset.containsByte (data.getD pos 0) := by
  have hchar {place : Nat} (hd : container.charset.containsByte (data.getD place 0) = true)
      (ha : container.charset.containsByte (after.getD place 0) = true) :
      (after.getD place 0 = 0 ↔ data.getD place 0 = 0) ∧
        container.charset.containsByte (after.getD place 0) =
          container.charset.containsByte (data.getD place 0) :=
    ⟨iff_of_false (hplain.printable.not_zero ha) (hplain.printable.not_zero hd), ha.trans hd.symm⟩
  cases wide with
  | false =>
      rw [width_narrow] at hlt
      have hpos : pos = start + width false * (pos - start) := by rw [width_narrow]; omega
      rw [hpos]
      exact hchar (hdata (pos - start) (by omega)).char (hafter (pos - start) (by omega)).char
  | true =>
      rw [width_wide] at hlt
      have hd := hdata ((pos - start) / 2) (by omega)
      have ha := hafter ((pos - start) / 2) (by omega)
      have hsum := charAt_add_zeroAt container
      -- In a cell the position is that of the character or that of the zero.
      by_cases hplace : (pos - start) % 2 = charAt container
      · have hpos : pos = start + width true * ((pos - start) / 2) + charAt container := by
          rw [width_wide]
          omega
        rw [hpos]
        exact hchar hd.char ha.char
      · have hpos : pos = start + width true * ((pos - start) / 2) + zeroAt container := by
          rw [width_wide]
          omega
        rw [hpos, hd.zero rfl, ha.zero rfl]
        exact ⟨Iff.rfl, rfl⟩

theorem back?_eq_sentinel (data : Bytes) :
    data.back? = some Scan.sentinel ↔ data.getD (data.size - 1) 0 = Scan.sentinel := by
  rw [Array.back?_eq_getElem?, Array.getD_eq_getD_getElem?]
  cases data[data.size - 1]? with
  | none => exact iff_of_false nofun (by decide)
  | some byte => exact Option.some_inj

theorem getD_of_uncovered {slots : List Slot} (hupdated : Updated container slots payload after)
    {pos : Nat} (h : ∀ slot ∈ slots, ¬ Covers slot pos) : after.getD pos 0 = payload.getD pos 0 := by
  rw [Array.getD_eq_getD_getElem?, Array.getD_eq_getD_getElem?, hupdated.uncovered h]

/-- After a commit of slots in place the pass finds what it found before. -/
theorem alike_of_updated (hplain : Plain container.charset) {slots : List Slot}
    (hplaces : List.Forall₂ (InPlace container) (runs container payload).toList slots)
    (hupdated : Updated container slots payload after)
    (hlast : after.back? = some Scan.sentinel → payload.back? = some Scan.sentinel) :
    Alike container payload after := by
  have hordered := ordered_of_inPlace (runs_sound container payload) hplaces
  have hlook (pos : Nat) : (after.getD pos 0 = 0 ↔ payload.getD pos 0 = 0) ∧
      container.charset.containsByte (after.getD pos 0) =
        container.charset.containsByte (payload.getD pos 0) := by
    by_cases hcovered : ∃ slot ∈ slots, Covers slot pos
    · obtain ⟨slot, hmem, hcover⟩ := hcovered
      obtain ⟨run, hrun, hslot⟩ := exists_run_of_mem hplaces hmem
      have hwritten := hasAt_of_updated hplain hupdated hordered hrun hslot hmem
      have hafter := (text_of_hasAt (hslot.wide_eq ▸ hrun.allowed)
        (hslot.fitted_allowed hplain) hwritten).1
      have hbefore := hrun.text
      rw [← hslot.pos_eq, ← hslot.length_eq, ← hslot.wide_eq] at hbefore
      rw [length_fitted] at hafter
      rw [Covers, byteLength_eq] at hcover
      exact look_of_isText hplain hbefore hafter hcover.1 hcover.2
    · rw [getD_of_uncovered hupdated (by simpa using hcovered)]
      exact ⟨Iff.rfl, rfl⟩
  refine ⟨hupdated.size_eq, fun pos => (hlook pos).1, fun pos => (hlook pos).2, ?_⟩
  constructor
  · rw [← back?_eq_sentinel, ← hupdated.size_eq, ← back?_eq_sentinel]
    exact hlast
  · -- No slot covers a last byte that ends scripts, so it is still there.
    intro hsentinel
    rw [getD_of_uncovered hupdated]
    · exact hsentinel
    · intro slot hmem hcover
      obtain ⟨run, hrun, hslot⟩ := exists_run_of_mem hplaces hmem
      have hend := hrun.end_le
      have hstop := hrun.stop_le
      rw [Covers, byteLength_eq, hslot.pos_eq, hslot.length_eq, hslot.wide_eq] at hcover
      exact (hrun.last (by omega)).2 hsentinel

/-- The slots that are found after a commit of slots in place. -/
theorem extract_of_updated (hplain : Plain container.charset) {slots : List Slot}
    (hplaces : List.Forall₂ (InPlace container) (runs container payload).toList slots)
    (hupdated : Updated container slots payload after)
    (hlast : after.back? = some Scan.sentinel → payload.back? = some Scan.sentinel) :
    Slot.extract container after = slots.map fun slot => { slot with text := slot.fittedText } := by
  have hruns := runs_sound container payload
  have hordered := ordered_of_inPlace hruns hplaces
  have hsame := runs_alike (alike_of_updated hplain hplaces hupdated hlast)
  obtain ⟨hlength, hcells⟩ := List.forall₂_iff_get.mp hsame
  obtain ⟨hlength', hget⟩ := List.forall₂_iff_get.mp hplaces
  rw [extract_eq hplain.printable]
  apply List.ext_getElem
  · rw [List.length_map, List.length_map, ← hlength, hlength']
  · intro i hi hi'
    rw [List.length_map] at hi hi'
    have hi'' : i < (runs container payload).toList.length := hlength' ▸ hi'
    have hrun := hruns.sound _ (List.getElem_mem hi'')
    have hslot := hget i hi'' hi'
    have hfound := hcells i hi'' hi
    simp only [List.get_eq_getElem] at hslot hfound
    have hwritten := hasAt_of_updated hplain hupdated hordered hrun hslot (List.getElem_mem hi')
    have htext := (text_of_hasAt (hslot.wide_eq ▸ hrun.allowed)
      (hslot.fitted_allowed hplain) hwritten).2
    rw [length_fitted] at htext
    simp only [List.getElem_map, slotOf]
    rw [hfound.start_eq, hfound.wide_eq, hfound.cells_eq, ← hslot.pos_eq, ← hslot.length_eq,
      ← hslot.wide_eq, htext]
    rfl

/-- Texts over a plain charset are accepted in the place of any texts of a payload.  Its
size and the bytes outside its slots stay, and unless its last byte has become the one
that ends scripts, the same slots are found again, each with its text fitted to it. -/
theorem extract_commit (container : Container) (hplain : Plain container.charset)
    (payload : Bytes) (texts : Nat → Option String)
    (htexts : ∀ i text, texts i = some text →
      ∀ c ∈ text.toList, container.charset.contains c = true) :
    ∃ after, Slot.commit container payload (withTexts texts (Slot.extract container payload)) =
        .ok after ∧
      after.size = payload.size ∧
      (∀ pos, (∀ slot ∈ Slot.extract container payload, ¬ Covers slot pos) →
        after[pos]? = payload[pos]?) ∧
      ((after.back? = some Scan.sentinel → payload.back? = some Scan.sentinel) →
        Slot.extract container after =
          (withTexts texts (Slot.extract container payload)).map fun slot =>
            { slot with text := slot.fittedText }) := by
  have hplaces : List.Forall₂ (InPlace container) (runs container payload).toList
      (withTexts texts (Slot.extract container payload)) := inPlace_withTexts hplain htexts
  have hfits : ∀ slot ∈ withTexts texts (Slot.extract container payload),
      ∃ bytes, Fits container payload.size slot bytes := by
    intro slot hmem
    obtain ⟨run, hrun, hslot⟩ := exists_run_of_mem hplaces hmem
    exact ⟨_, hslot.fits hplain hrun⟩
  obtain ⟨after, hcommit, hupdated⟩ := commit_of_fits hfits
  refine ⟨after, hcommit, hupdated.size_eq, ?_, extract_of_updated hplain hplaces hupdated⟩
  intro pos huncovered
  apply hupdated.uncovered
  intro slot hmem
  obtain ⟨i, hi, rfl⟩ := List.mem_mapIdx.mp hmem
  exact huncovered (Slot.extract container payload)[i] (List.getElem_mem hi)

theorem plain_ofString {text : String} (hspace : ' ' ∈ text.toList)
    (hrange : text.toList.all (fun c =>
      (0x20 ≤ c.toNat && c.toNat ≤ 0x7E) || (0xA0 ≤ c.toNat && c.toNat ≤ 0xEE)) = true) :
    Plain (Charset.ofString text) where
  space := (contains_ofString _ _).mpr ⟨by decide, hspace⟩
  range c hc := by
    have hchar := List.all_eq_true.mp hrange c ((contains_ofString _ _).mp hc).2
    simpa using hchar

theorem plain_standard : Plain Charset.standard :=
  plain_ofString (by decide +kernel) (by decide +kernel)

/-- A text that is too long for its slot, and one that is too short for a two-byte slot. -/
theorem extract_commit_twoTexts :
    let container : Container := ⟨.pc, .big, .ofString " ABEHLNOY"⟩
    let payload : Bytes := #[0x01, 0x48, 0x45, 0x4C, 0x4C, 0x4F, 0x01, 0x00, 0x48, 0x00, 0x4F, 0x00,
      0x4C, 0x00, 0x4C, 0x00, 0x45, 0x00, 0x59, 0x00, 0x00, 0x01, 0x24]
    let texts : Nat → Option String := fun i => ["A LONELY ONE", "BYE"][i]?
    Plain Charset.standard ∧ Plain container.charset ∧
      (∀ i text, texts i = some text → ∀ c ∈ text.toList, container.charset.contains c = true) ∧
      Slot.extract container payload = [⟨"HELLO", 1, 5, false⟩, ⟨"HOLLEY", 7, 6, true⟩] ∧
      ∃ after, Slot.commit container payload (withTexts texts (Slot.extract container payload)) =
          .ok after ∧
        Slot.extract container after = [⟨"A LON", 1, 5, false⟩, ⟨"BYE   ", 7, 6, true⟩] := by
  intro container payload texts
  have hplain : Plain container.charset := plain_ofString (by decide +kernel) (by decide +kernel)
  have htexts : ∀ i text, texts i = some text →
      ∀ c ∈ text.toList, container.charset.contains c = true := by
    have hchars : ["A LONELY ONE", "BYE"].all (fun text => text.toList.all fun c =>
        decide (c.toNat < 256) && " ABEHLNOY".toList.contains c) = true := by
      decide +kernel
    intro i text htext c hc
    have htext' := List.all_eq_true.mp hchars text (List.mem_of_getElem? htext)
    exact (contains_ofString _ _).mpr (by simpa using List.all_eq_true.mp htext' c hc)
  have hslots : Slot.extract container payload =
      [⟨"HELLO", 1, 5, false⟩, ⟨"HOLLEY", 7, 6, true⟩] := by
    decide +kernel
  obtain ⟨after, hcommit, -, -, hextract⟩ :=
    extract_commit container hplain payload texts htexts
  refine ⟨plain_standard, hplain, htexts, hslots, after, hcommit, ?_⟩
  rw [hextract fun _ => rfl, hslots]
  decide +kernel

end ScriptRecord.Proofs.Slot.Editing
