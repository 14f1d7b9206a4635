import ScriptRecord.Proofs.Slot.Closing
import ScriptRecord.Proofs.Slot.Untouched
import Mathlib.Data.Nat.Find
/-!
# How far slots reach

A slot should take all the text that stands where it starts, and be longer than the
least length.  `extract_whole_iff` and `extract_long_iff` say exactly when it is so.

* One-byte slots do both, unless a byte order mark is read out of their text.
* Two-byte text loses its last character if what follows does not end it in the way the
  pass expects: with its zeros in front, if no zero follows; with its zeros behind, if
  the payload ends there.
* Four characters with their zeros in front are reported, although they are no longer
  than the least length of eight bytes.
-/

namespace ScriptRecord.Proofs.Slot.Extent

open ScriptRecord.Proofs.BytesAt
open ScriptRecord.Proofs.Slot.Cells
open ScriptRecord.Proofs.Slot.Texts
open ScriptRecord.Proofs.Slot.Editing
open ScriptRecord.Proofs.Slot.Untouched
open ScriptRecord.Proofs.Slot.Turns
open ScriptRecord.Proofs.Slot.Closing

instance (container : Container) (data : Bytes) (wide : Bool) (pos : Nat) :
    Decidable (Cell container data wide pos) :=
  decidable_of_iff (pos + width wide ≤ data.size ∧
      (wide = true → data.getD (pos + zeroAt container) 0 = 0) ∧
      container.charset.containsByte
        (data.getD (pos + if wide then charAt container else 0) 0) = true)
    ⟨fun h => ⟨h.1, h.2.1, h.2.2⟩, fun h => ⟨h.inside, h.zero, h.char⟩⟩

instance (container : Container) (data : Bytes) (wide : Bool) (start count : Nat) :
    Decidable (IsText container data wide start count) :=
  inferInstanceAs (Decidable (∀ i < count, _))

theorem exists_not_cell (container : Container) (data : Bytes) (wide : Bool) (pos : Nat) :
    ∃ count, ¬ Cell container data wide (pos + width wide * count) := by
  refine ⟨data.size, fun h => ?_⟩
  have hinside := h.inside
  cases wide with
  | false => simp only [width_narrow] at hinside; omega
  | true => simp only [width_wide] at hinside; omega

/-- Number of characters that stand one after another from a position on. -/
def textLength (container : Container) (data : Bytes) (wide : Bool) (pos : Nat) : Nat :=
  Nat.find (exists_not_cell container data wide pos)

/-- The text of a slot ends where the slot does, or goes on with no more than the byte
that ends scripts. -/
def Whole (container : Container) (payload : Bytes) (slot : Slot) : Prop :=
  Cell container payload slot.wide (slot.pos + slot.byteLength) →
    slot.pos + slot.byteLength + slot.charWidth = payload.size ∧
      payload.back? = some Scan.sentinel

instance (container : Container) (payload : Bytes) (slot : Slot) :
    Decidable (Whole container payload slot) :=
  inferInstanceAs (Decidable (_ → _))

/-- Two-byte text that ends at a position is found up to there. -/
def Terminated (container : Container) (payload : Bytes) (stop : Nat) : Prop :=
  if Scan.zeroFirst container then
    payload[stop]? = some 0 ∨ (stop = payload.size ∧ payload.back? = some Scan.sentinel)
  else stop < payload.size

/-- Two-byte text from a position on has a fifth character that is found. -/
def HasFifth (container : Container) (payload : Bytes) (start : Nat) : Prop :=
  if Scan.zeroFirst container then
    Cell container payload true (start + 8) ∧ payload[start + 10]? = some 0
  else start + 10 ≠ payload.size

variable {container : Container} {payload : Bytes} {slot : Slot} {start count : Nat}

theorem textLength_eq {wide : Bool} (htext : IsText container payload wide start count)
    (hend : ¬ Cell container payload wide (start + width wide * count)) :
    textLength container payload wide start = count := by
  rw [textLength, Nat.find_eq_iff]
  exact ⟨hend, fun i hi => not_not_intro (htext i hi)⟩

/-! ## Two-byte text -/

theorem back_of_cell (hfirst : Scan.zeroFirst container = false)
    (hnext : Cell container payload true (start + 2 * count))
    (hflush : start + 2 * (count + 1) = payload.size) : payload.back? = some 0 := by
  have hzero := hnext.zero rfl
  rw [(placeOf_zeroLast hfirst).1] at hzero
  rw [Array.back?_eq_getElem?, getElem?_eq_zero]
  have hlast : payload.size - 1 = start + 2 * count + 1 := by omega
  rw [hlast]
  exact ⟨by omega, hzero⟩

/-- Two-byte text is cut by one character at the most. -/
theorem textLength_of_closed (htext : IsText container payload true start count)
    (h : Closed container payload true start count) :
    textLength container payload true start =
      if Cell container payload true (start + 2 * count) then count + 1 else count := by
  by_cases hnext : Cell container payload true (start + 2 * count)
  · rw [if_pos hnext]
    refine textLength_eq (htext.succ hnext) fun hmore => ?_
    rw [width_wide] at hmore
    have hinside := hmore.inside
    rw [width_wide] at hinside
    cases hfirst : Scan.zeroFirst container with
    | true =>
        have hzero := hmore.zero rfl
        rw [(placeOf_zeroFirst hfirst).1] at hzero
        exact no_zero_behind hfirst h hnext (getElem?_eq_zero.mpr ⟨by omega, hzero⟩)
    | false =>
        have hflush := flush_of_cell hfirst h hnext
        omega
  · rw [if_neg hnext]
    exact textLength_eq htext hnext

theorem whole_wide {text : String} (htext : IsText container payload true start count)
    (h : Closed container payload true start count) :
    Whole container payload ⟨text, start, count, true⟩ ↔ Terminated container payload
      (start + 2 * textLength container payload true start) := by
  rw [textLength_of_closed htext h, Whole, Terminated]
  simp only [Slot.byteLength, Slot.charWidth, if_true, Nat.mul_comm count 2]
  by_cases hnext : Cell container payload true (start + 2 * count)
  · rw [if_pos hnext, imp_iff_right hnext]
    cases hfirst : Scan.zeroFirst container with
    | true =>
        rw [if_pos rfl, or_iff_right (no_zero_behind hfirst h hnext), Nat.mul_succ, Nat.add_assoc]
    | false =>
        have hflush := flush_of_cell hfirst h hnext
        rw [back_of_cell hfirst hnext hflush]
        simp [hflush, Scan.sentinel]
  · rw [if_neg hnext]
    refine iff_of_true (absurd · hnext) ?_
    cases hfirst : Scan.zeroFirst container with
    | true => exact .inl (zero_behind hfirst h)
    | false => exact lt_size_of_closed hfirst h

theorem long_wide (htext : IsText container payload true start count)
    (h : Closed container payload true start count) :
    4 ≤ count ∧ (4 < count ↔ HasFifth container payload start) := by
  have hleast := le_cells_wide h
  refine ⟨hleast, ?_⟩
  rw [HasFifth]
  cases hfirst : Scan.zeroFirst container with
  | true =>
      constructor
      · intro hlong
        refine ⟨htext 4 hlong, ?_⟩
        rcases Nat.eq_or_lt_of_le hlong with rfl | hmore
        · exact zero_behind hfirst h
        · have hsixth := htext 5 hmore
          have hinside := hsixth.inside
          have hzero := hsixth.zero rfl
          rw [(placeOf_zeroFirst hfirst).1] at hzero
          rw [width_wide] at hinside hzero
          exact getElem?_eq_zero.mpr ⟨by omega, hzero⟩
      · rintro ⟨hfifth, hzero⟩
        -- With four characters the fifth was left out, and then no zero stands behind it.
        by_contra hshort
        obtain rfl : count = 4 := by omega
        exact no_zero_behind hfirst h hfifth hzero
  | false =>
      have hchar := (placeOf_zeroLast hfirst).2
      have hlt := lt_size_of_closed hfirst h
      simp only [Bool.false_eq_true, if_false]
      cases h with
      | broken hlong | flush hlong => omega

/-! ## One-byte text -/

theorem whole_narrow {text : String} (h : Closed container payload false start count) :
    Whole container payload ⟨text, start, count, false⟩ := by
  intro hnext
  have hinside := hnext.inside
  have hchar := hnext.char
  simp only [Slot.byteLength, Slot.charWidth, Nat.mul_one, width_narrow, Bool.false_eq_true,
    if_false, Nat.add_zero] at hinside hchar ⊢
  cases h with
  | byte _ _ hother =>
      rw [hother] at hchar
      cases hchar
  | last _ hflush => omega
  | sentinel _ hflush hlast =>
      refine ⟨hflush, (back?_eq_sentinel payload).mpr ?_⟩
      rw [← hflush]
      exact hlast

/-- A mark that is read out of a text leaves it at least two characters short. -/
theorem length_decode_of_marked {bytes mark : List UInt8} (hmark : mark ∈ marks)
    (h : mark <+: bytes) : (Windows1252.decode bytes).length + 2 ≤ bytes.length := by
  obtain ⟨rest, rfl⟩ := h
  simp only [marks, List.mem_cons, List.not_mem_nil, or_false] at hmark
  rcases hmark with rfl | rfl | rfl
  · have hlength := length_utf8_decodeOnto [] none rest
    simp only [Option.isSome_none, Bool.false_eq_true, if_false, List.length_nil] at hlength
    simp only [Windows1252.decode, Utf8.decodeLossy, List.cons_append, List.nil_append,
      List.length_reverse, List.length_cons]
    omega
  · have hlength := length_decodeUnits (fun a b => UInt16.ofNat (a.toNat * 256 + b.toNat)) rest
    simp only [Windows1252.decode, List.cons_append, List.nil_append, List.length_cons]
    omega
  · have hlength := length_decodeUnits (fun a b => UInt16.ofNat (b.toNat * 256 + a.toNat)) rest
    simp only [Windows1252.decode, List.cons_append, List.nil_append, List.length_cons]
    omega

theorem length_of_marked {run : Run} (hrun : run ∈ (runs container payload).toList)
    (hmarked : ¬ Unmarked payload (Slot.ofRun container.order payload run)) :
    run.wide = false ∧ (Slot.ofRun container.order payload run).length + 2 ≤ cells run := by
  have hsound := (runs_sound container payload).sound run hrun
  simp only [Unmarked, not_forall, not_not] at hmarked
  obtain ⟨hwide, mark, hmark, hat⟩ := hmarked
  have hnarrow : run.wide = false := hwide
  have hcells := lt_cells_narrow hrun hnarrow
  have hsize : (bytesOf payload run).length = cells run := by
    rw [length_bytesOf hsound, cells, hnarrow, width_narrow, Nat.div_one]
  have hprefix : mark <+: bytesOf payload run := by
    have hshort : ∀ mark ∈ marks, mark.length ≤ 3 := by decide
    have hle := hshort mark hmark
    exact List.prefix_of_prefix_length_le (hasAt_iff.mp hat).2
      (hasAt_iff.mp (hasAt_bytesOf hsound)).2 (by omega)
  refine ⟨hnarrow, ?_⟩
  rw [← hsize]
  simpa [Slot.ofRun, Slot.decode, hnarrow, bytesOf] using length_decode_of_marked hmark hprefix

/-- Text that begins with a byte order mark goes on behind its slot. -/
theorem not_whole_of_marked {run : Run} (hrun : run ∈ (runs container payload).toList)
    (hmarked : ¬ Unmarked payload (Slot.ofRun container.order payload run)) :
    ¬ Whole container payload (Slot.ofRun container.order payload run) := by
  have hsound := (runs_sound container payload).sound run hrun
  obtain ⟨hnarrow, hlength⟩ := length_of_marked hrun hmarked
  have hwide : (Slot.ofRun container.order payload run).wide = false := hnarrow
  have hbytes : (Slot.ofRun container.order payload run).byteLength =
      (Slot.ofRun container.order payload run).length := by
    rw [byteLength_eq, hwide, width_narrow, Nat.one_mul]
  have hend := hsound.end_le
  have hstop := hsound.stop_le
  have hcell := hsound.text _ (Nat.lt_of_succ_lt hlength)
  rw [hnarrow, width_narrow, Nat.one_mul] at hcell hend
  intro hwhole
  rw [Whole, hwide, hbytes] at hwhole
  obtain ⟨hflush, -⟩ := hwhole hcell
  rw [Slot.charWidth, hwide, if_neg Bool.false_ne_true] at hflush
  have hpos : (Slot.ofRun container.order payload run).pos = run.start := rfl
  omega

/-! ## Slots of a payload -/

/-- What a slot says of the run it was read from, unless its text begins with a mark. -/
theorem closed_of_mem (hslot : slot ∈ Slot.extract container payload)
    (hunmarked : Unmarked payload slot) :
    IsText container payload slot.wide slot.pos slot.length ∧
      Closed container payload slot.wide slot.pos slot.length := by
  obtain ⟨run, hrun, rfl⟩ := mem_extract.mp hslot
  have hsound := (runs_sound container payload).sound run hrun
  have hcells : (Slot.ofRun container.order payload run).length = cells run := by
    cases hwide : run.wide with
    | true => rw [ofRun_wide hsound hwide]
    | false =>
        rw [ofRun_unmarked hsound hwide hunmarked, length_bytesOf hsound, cells, hwide, width_narrow,
          Nat.div_one]
  rw [hcells]
  exact ⟨hsound.text, closed_of_mem_runs hrun⟩

/-- A slot takes all the text where it starts, but for a last `$` of the payload, exactly if no
byte order mark is read out of it and, where it is of two-byte text, the text is ended as the
pass expects.  Otherwise two-byte text is cut by one character. -/
theorem extract_whole_iff (container : Container) (payload : Bytes) :
    ∀ slot ∈ Slot.extract container payload,
      (Whole container payload slot ↔ Unmarked payload slot ∧ (slot.wide = true →
        Terminated container payload
          (slot.pos + 2 * textLength container payload true slot.pos))) ∧
      (slot.wide = true → slot.length ≤ textLength container payload true slot.pos ∧
        textLength container payload true slot.pos ≤ slot.length + 1) := by
  intro slot hslot
  by_cases hunmarked : Unmarked payload slot
  · obtain ⟨htext, hclosed⟩ := closed_of_mem hslot hunmarked
    obtain ⟨text, start, count, wide⟩ := slot
    cases wide with
    | false => exact ⟨iff_of_true (whole_narrow hclosed) ⟨hunmarked, nofun⟩, nofun⟩
    | true =>
        refine ⟨(whole_wide htext hclosed).trans ?_, fun _ => ?_⟩
        · simp [hunmarked]
        · dsimp only at htext hclosed ⊢
          rw [textLength_of_closed htext hclosed]
          split <;> omega
  · obtain ⟨run, hrun, rfl⟩ := mem_extract.mp hslot
    refine ⟨iff_of_false (not_whole_of_marked hrun hunmarked) fun h => hunmarked h.1, ?_⟩
    intro hwide
    exact absurd (fun hnarrow => absurd (hwide.symm.trans hnarrow) (by decide)) hunmarked

/-- Text of one byte each, and of two bytes each with a zero behind its last character. -/
theorem extract_whole_terminated :
    let container : Container := ⟨.pc, .big, .ofString " EHLOY"⟩
    let payload : Bytes := #[0x01, 0x48, 0x45, 0x4C, 0x4C, 0x4F, 0x01, 0x00, 0x48, 0x00, 0x4F, 0x00,
      0x4C, 0x00, 0x4C, 0x00, 0x45, 0x00, 0x59, 0x00, 0x01]
    Slot.extract container payload = [⟨"HELLO", 1, 5, false⟩, ⟨"HOLLEY", 7, 6, true⟩] ∧
      Whole container payload ⟨"HELLO", 1, 5, false⟩ ∧
      Whole container payload ⟨"HOLLEY", 7, 6, true⟩ := by
  intro container payload
  have hslots : Slot.extract container payload =
      [⟨"HELLO", 1, 5, false⟩, ⟨"HOLLEY", 7, 6, true⟩] := by
    decide +kernel
  have hlength : textLength container payload true 7 = 6 :=
    textLength_eq (by decide +kernel) (by decide +kernel)
  refine ⟨hslots, ?_, ?_⟩
  · apply ((extract_whole_iff container payload _ (by simp [hslots])).1).mpr
    exact ⟨by decide +kernel, nofun⟩
  · apply ((extract_whole_iff container payload _ (by simp [hslots])).1).mpr
    refine ⟨nofun, fun _ => ?_⟩
    rw [hlength]
    exact .inl (by decide +kernel)

/-- The last letter is lost before a byte that is not zero, and at the end of the payload. -/
theorem extract_not_whole :
    let before : Container := ⟨.pc, .big, .ofString " EHLOY"⟩
    let behind : Container := ⟨.pc, .little, .ofString " EHLOY"⟩
    let followed : Bytes :=
      #[0x00, 0x48, 0x00, 0x45, 0x00, 0x4C, 0x00, 0x4C, 0x00, 0x4F, 0x01]
    let flush : Bytes := #[0x48, 0x00, 0x45, 0x00, 0x4C, 0x00, 0x4C, 0x00, 0x4F, 0x00]
    Slot.extract before followed = [⟨"HELL", 0, 4, true⟩] ∧
      ¬ Whole before followed ⟨"HELL", 0, 4, true⟩ ∧
      Slot.extract behind flush = [⟨"HELL", 0, 4, true⟩] ∧
      ¬ Whole behind flush ⟨"HELL", 0, 4, true⟩ := by
  decide +kernel

/-- With a printable charset a slot is longer than the least length exactly if it is of
one-byte text or of text whose fifth character is found.  It is never shorter than the least
length. -/
theorem extract_long_iff (container : Container) (hprintable : Printable container.charset)
    (payload : Bytes) :
    ∀ slot ∈ Slot.extract container payload,
      Scan.minimum slot.wide ≤ slot.byteLength ∧
      (Scan.minimum slot.wide < slot.byteLength ↔
        (slot.wide = true → HasFifth container payload slot.pos)) := by
  intro slot hslot
  obtain ⟨run, hrun, rfl⟩ := mem_extract.mp hslot
  have hsound := (runs_sound container payload).sound run hrun
  have htext := hsound.text
  have hclosed := closed_of_mem_runs hrun
  rw [ofRun_eq hprintable hsound, byteLength_eq]
  dsimp only
  cases hwide : run.wide with
  | false =>
      have hlong := lt_cells_narrow hrun hwide
      rw [width_narrow, Nat.one_mul]
      exact ⟨Nat.le_of_lt hlong, iff_of_true hlong nofun⟩
  | true =>
      rw [hwide] at htext hclosed
      obtain ⟨hleast, hlong⟩ := long_wide htext hclosed
      rw [width_wide, imp_iff_right rfl, ← hlong]
      simp only [Scan.minimum, if_true]
      omega

/-- Five characters of each width. -/
theorem extract_long_fiveEach :
    let container : Container := ⟨.xbox, .little, .ofString " EHLOY"⟩
    let payload : Bytes := #[0x01, 0x48, 0x45, 0x4C, 0x4C, 0x4F, 0x01, 0x48, 0x00, 0x4F, 0x00,
      0x4C, 0x00, 0x4C, 0x00, 0x59, 0x00, 0x01]
    Printable container.charset ∧
      Slot.extract container payload = [⟨"HELLO", 1, 5, false⟩, ⟨"HOLLY", 7, 5, true⟩] ∧
      Scan.minimum true < (Slot.mk "HOLLY" 7 5 true).byteLength := by
  intro container payload
  have hprintable : Printable container.charset :=
    (plain_ofString (by decide +kernel) (by decide +kernel)).printable
  have hslots : Slot.extract container payload =
      [⟨"HELLO", 1, 5, false⟩, ⟨"HOLLY", 7, 5, true⟩] := by
    decide +kernel
  refine ⟨hprintable, hslots, ?_⟩
  have hmem : (⟨"HOLLY", 7, 5, true⟩ : Slot) ∈ Slot.extract container payload := by simp [hslots]
  apply (extract_long_iff container hprintable payload _ hmem).2.mpr
  intro _
  exact (by decide : 7 + 10 ≠ 18)

/-- Four characters are reported where zeros stand in front, and are what is left of five at
the end of a payload where they stand behind. -/
theorem extract_not_long :
    let before : Container := ⟨.pc, .big, .ofString " EHLOY"⟩
    let behind : Container := ⟨.pc, .little, .ofString " EHLOY"⟩
    let four : Bytes := #[0x00, 0x48, 0x00, 0x45, 0x00, 0x4C, 0x00, 0x4C, 0x00, 0x00]
    let five : Bytes := #[0x48, 0x00, 0x45, 0x00, 0x4C, 0x00, 0x4C, 0x00, 0x4F, 0x00]
    Slot.extract before four = [⟨"HELL", 0, 4, true⟩] ∧
      Slot.extract behind five = [⟨"HELL", 0, 4, true⟩] ∧
      ¬ Scan.minimum true < (Slot.mk "HELL" 0 4 true).byteLength := by
  decide +kernel

end ScriptRecord.Proofs.Slot.Extent
