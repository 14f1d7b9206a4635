import ScriptRecord.Proofs.Slot.Editing
import ScriptRecord.Proofs.Slot.Turns
/-!
# Planted text is found

Text of at least five characters is found at the position where it was written, whatever
stands before and after it (`extract_planted`), if the byte before it is neither a zero
nor text and something that ends it follows.

* `step_before`: whatever the pass was doing, it does not get past such a byte with a run
  under way.
* `laterRuns_narrow`, `laterRuns_wide`: from the first character on it follows the text.
-/

namespace ScriptRecord.Proofs.Slot.Planting

open ScriptRecord.Proofs.BytesAt
open ScriptRecord.Proofs.Slot.Cells
open ScriptRecord.Proofs.Slot.Texts
open ScriptRecord.Proofs.Slot.Editing
open ScriptRecord.Proofs.Slot.Turns
open ScriptRecord.Proofs.Text.Members

variable {container : Container} {data : Bytes} {stop : Nat}

/-! ## Up to the text -/

theorem settle_before {run : OpenRun} {pos : Nat} {ended : Bool} {byte : UInt8} (hpos : pos < stop)
    (hended : pos + 1 = stop → ended = true) :
    Arrives stop (Scan.settle data run pos ended byte) := by
  unfold Scan.settle
  split
  · exact close_arrives hpos
  · rename_i hopen
    simp only [Bool.or_eq_true, decide_eq_true_eq, not_or] at hopen
    refine .inl (Nat.lt_of_le_of_ne hpos fun hlast => hopen.1 (hended hlast))

theorem goOn_before {run : OpenRun} {pos : Nat} {ended : Bool} {byte : UInt8} (hpos : pos < stop)
    (hended : pos + 1 = stop → ended = true) (hzero : data.getD (stop - 1) 0 ≠ 0) :
    Arrives stop (Scan.goOn data run pos ended byte) := by
  unfold Scan.goOn
  split
  · rename_i hwide
    simp only [Bool.and_eq_true, Bool.not_eq_true'] at hwide
    have hnot : pos + 1 ≠ stop := fun hlast => by simp [hended hlast] at hwide
    split
    · rename_i hnext
      simp only [Bool.and_eq_true, decide_eq_true_eq, beq_iff_eq] at hnext
      refine settle_before (by omega) fun hlast => ?_
      have hplace : stop - 1 = pos + 1 := by omega
      rw [hplace] at hzero
      exact absurd hnext.2 hzero
    · exact settle_before hpos fun _ => rfl
  · exact settle_before hpos hended

theorem step_before {pos : Nat} (run : Option OpenRun) (hpos : pos < stop)
    (hzero : data.getD (stop - 1) 0 ≠ 0)
    (hother : container.charset.containsByte (data.getD (stop - 1) 0) = false) :
    Arrives stop (Scan.step container data pos run) := by
  have hended {place : Nat} (hlast : place + 1 = stop) :
      (!container.charset.containsByte (data.getD place 0)) = true := by
    have hplace : stop - 1 = place := by omega
    rw [← hplace, hother]
    rfl
  cases run with
  | some run => exact goOn_before hpos hended hzero
  | none =>
      simp only [Scan.step]
      split
      · rename_i hopens
        simp only [Scan.opensWide, Bool.and_eq_true, beq_iff_eq] at hopens
        have hlast : pos + 1 ≠ stop := by
          rintro rfl
          exact hzero hopens.1.1.2
        exact goOn_before (by omega) hended hzero
      · split
        · rename_i hchar
          refine goOn_before hpos (fun hlast => ?_) hzero
          have hnot := hended hlast
          rw [hchar] at hnot
          cases hnot
        · exact (Nat.lt_or_eq_of_le hpos).imp_right fun hlast => ⟨hlast, rfl⟩

/-- The pass comes to a position outside of any run if the byte before it cannot be part of
one. -/
theorem laterRuns_before (hstop : stop ≤ data.size) (hzero : data.getD (stop - 1) 0 ≠ 0)
    (hother : container.charset.containsByte (data.getD (stop - 1) 0) = false) (pos : Nat)
    (run : Option OpenRun) (hpos : pos < stop ∨ (pos = stop ∧ run = none)) :
    ∃ before, laterRuns container data pos run = before ++ laterRuns container data stop none := by
  -- Each turn stays before the position or comes to it outside of a run, so that the rest of the
  -- pass is at some point the rest from there.
  induction pos, run using turn_induction container data with
  | turn pos run hlt ih =>
      rcases hpos with hbefore | ⟨rfl, rfl⟩
      · obtain ⟨before, hlater⟩ := ih (step_before run hbefore hzero hother)
        rw [laterRuns_turn hlt, hlater, ← List.append_assoc]
        exact ⟨_, rfl⟩
      · exact ⟨[], rfl⟩
  | done pos run hle =>
      obtain ⟨rfl, rfl⟩ := hpos.resolve_left (by omega)
      exact ⟨[], rfl⟩

/-! ## Along the text -/

variable {start count : Nat}

theorem laterRuns_congr {pos place : Nat} {run other : Option OpenRun} (hpos : pos < data.size)
    (hplace : place < data.size)
    (h : Scan.step container data pos run = Scan.step container data place other) :
    laterRuns container data pos run = laterRuns container data place other := by
  rw [laterRuns_turn hpos, laterRuns_turn hplace, h]

theorem laterRuns_narrow (htext : IsText container data false start count)
    (hlt : start + count < data.size) :
    laterRuns container data start (some ⟨start, false⟩) =
      laterRuns container data (start + count) (some ⟨start, false⟩) := by
  induction count with
  | zero => rfl
  | succ count ih =>
      have hchar := (htext count (Nat.lt_succ_self count)).char
      simp only [width_narrow, Nat.one_mul, Bool.false_eq_true, if_false, Nat.add_zero] at hchar
      have hstep : Scan.step container data (start + count) (some ⟨start, false⟩) =
          ⟨start + count + 1, some ⟨start, false⟩, none⟩ := by
        simp only [Scan.step, Scan.goOn, Scan.settle, hchar]
        rw [if_neg (by simp), if_neg (by simp; omega)]
      rw [ih (fun i hi => htext i (Nat.lt_succ_of_lt hi)) (by omega), laterRuns_turn (by omega),
        hstep]
      rfl

theorem continues_of_cell {pos : Nat} (hcell : Cell container data true pos)
    (hzero : Scan.zeroFirst container = true → data.getD (pos + 2) 0 = 0)
    (hlt : pos + charAt container + 1 < data.size) :
    Continues container data (pos + charAt container) := by
  have hchar := hcell.char
  rw [if_pos rfl] at hchar
  refine ⟨hchar, hlt, ?_⟩
  cases hfirst : Scan.zeroFirst container with
  | true =>
      rw [(placeOf_zeroFirst hfirst).2]
      exact hzero hfirst
  | false =>
      have hbehind := hcell.zero rfl
      rw [(placeOf_zeroLast hfirst).1] at hbehind
      rw [(placeOf_zeroLast hfirst).2]
      exact hbehind

theorem laterRuns_wide (htext : IsText container data true start count)
    (hzero : Scan.zeroFirst container = true → data.getD (start + 2 * count) 0 = 0)
    (hlt : start + 2 * count + charAt container < data.size) :
    laterRuns container data (start + charAt container) (some ⟨start, true⟩) =
      laterRuns container data (start + 2 * count + charAt container) (some ⟨start, true⟩) := by
  induction count with
  | zero => rfl
  | succ count ih =>
      have hcell := htext count (Nat.lt_succ_self count)
      rw [width_wide] at hcell
      have hcontinues := continues_of_cell hcell hzero (by omega)
      have hstep : Scan.step container data (start + 2 * count + charAt container)
          (some ⟨start, true⟩) =
          ⟨start + 2 * (count + 1) + charAt container, some ⟨start, true⟩, none⟩ := by
        simp only [Scan.step]
        rw [goOn_continues hcontinues, Scan.settle, if_neg (by simp; omega)]
        congr 1
        omega
      -- The zero of the last cell is the one that ends the cells before it.
      have hfront : Scan.zeroFirst container = true → data.getD (start + 2 * count) 0 = 0 := by
        intro hfirst
        have hcellZero := hcell.zero rfl
        rwa [(placeOf_zeroFirst hfirst).1] at hcellZero
      rw [ih (fun i hi => htext i (Nat.lt_succ_of_lt hi)) hfront (by omega),
        laterRuns_turn (by omega), hstep]
      rfl

/-! ## From the first character to the end of the run -/

/-- Something that ends text of so many characters stands behind it. -/
def Ended (container : Container) (data : Bytes) (wide : Bool) (stop : Nat) : Prop :=
  stop + (if wide then charAt container else 0) < data.size ∧
    (wide = true → Scan.zeroFirst container = true → data.getD stop 0 = 0) ∧
    container.charset.containsByte
      (data.getD (stop + if wide then charAt container else 0) 0) = false

theorem opens_narrow (hprintable : Printable container.charset)
    (htext : IsText container data false start count) (hlong : 2 ≤ count) :
    Scan.step container data start none = Scan.step container data start (some ⟨start, false⟩) := by
  have hfirst := (htext 0 (by omega)).char
  have hsecond := (htext 1 (by omega)).char
  simp only [width_narrow, Nat.mul_zero, Nat.mul_one, Bool.false_eq_true, if_false,
    Nat.add_zero] at hfirst hsecond
  have hopens : Scan.opensWide container data start = false := by
    simp only [Scan.opensWide, beq_eq_false_iff_ne.mpr (hprintable.not_zero hfirst), Bool.and_false,
      Bool.false_and]
  have hafter : Scan.opensWideAfter container data start = false := by
    simp only [Scan.opensWideAfter, beq_eq_false_iff_ne.mpr (hprintable.not_zero hsecond),
      Bool.and_false]
  simp only [Scan.step, hopens, hafter, hfirst, Bool.false_eq_true, if_false, if_true, Bool.not_true]

theorem opens_wide (hallowed : container.allowsWide = true)
    (htext : IsText container data true start count) (hlong : 2 ≤ count) :
    Scan.step container data start none =
      Scan.step container data (start + charAt container) (some ⟨start, true⟩) := by
  have hfirst := htext 0 (by omega)
  have hsecond := htext 1 (by omega)
  have hinside := hsecond.inside
  have hzero := hfirst.zero rfl
  have hnext := hsecond.zero rfl
  have hchar := hfirst.char
  simp only [width_wide, Nat.mul_zero, Nat.mul_one, Nat.add_zero, if_true] at hinside hzero hnext hchar
  have hlt : start + 2 < data.size := by omega
  cases horder : Scan.zeroFirst container with
  | true =>
      obtain ⟨hplace, hcharPlace⟩ := placeOf_zeroFirst horder
      rw [hplace, Nat.add_zero] at hzero hnext
      have hopens : Scan.opensWide container data start = true := by
        simp only [Scan.opensWide, hallowed, horder, hzero, hnext, hlt, decide_true,
          beq_self_eq_true, Bool.and_true]
      simp only [Scan.step, hopens, if_true, hcharPlace]
  | false =>
      obtain ⟨hplace, hcharPlace⟩ := placeOf_zeroLast horder
      rw [hplace] at hzero
      rw [hcharPlace, Nat.add_zero] at hchar
      have hopens : Scan.opensWide container data start = false := by
        simp only [Scan.opensWide, horder, Bool.and_false, Bool.false_and]
      have hafter : Scan.opensWideAfter container data start = true := by
        simp only [Scan.opensWideAfter, hallowed, horder, hzero, hlt, decide_true,
          beq_self_eq_true, Bool.and_true, Bool.not_false]
      simp only [Scan.step, hopens, hafter, hchar, hcharPlace, Nat.add_zero, Bool.false_eq_true,
        if_false, if_true, Bool.not_true]

/-- A run that ends in front of what ends it. -/
theorem found_close {wide : Bool} {byte : UInt8} (hlong : 5 ≤ count) :
    (Scan.close data ⟨start, wide⟩
      (start + width wide * count + if wide then charAt container else 0) true byte).found =
        some ⟨start, start + width wide * count, wide⟩ := by
  have hle := charAt_le_one container
  cases wide with
  | false =>
      simp only [Scan.close, Scan.minimum, width_narrow, Bool.false_eq_true, if_false, Nat.add_zero,
        Nat.one_mul, Nat.add_sub_cancel_left]
      rw [if_pos (by omega)]
      rfl
  | true =>
      have hspan : start + 2 * count + charAt container - start = 2 * count + charAt container := by
        omega
      simp only [Scan.close, Scan.minimum, width_wide, if_true, hspan]
      rw [if_pos (by omega)]
      simp only [Bool.not_true, Bool.false_and, Bool.false_eq_true, if_false, Bool.true_and,
        decide_eq_true_eq, Option.some.injEq, Run.mk.injEq, true_and, and_true]
      split <;> omega

theorem exists_laterRuns {wide : Bool} (hprintable : Printable container.charset)
    (hallowed : wide = true → container.allowsWide = true)
    (htext : IsText container data wide start count) (hlong : 5 ≤ count)
    (hended : Ended container data wide (start + width wide * count)) :
    ∃ after, laterRuns container data start none =
      ⟨start, start + width wide * count, wide⟩ :: after := by
  obtain ⟨hlt, hzero, hother⟩ := hended
  have hlast : laterRuns container data start none = laterRuns container data
      (start + width wide * count + if wide then charAt container else 0)
      (some ⟨start, wide⟩) := by
    have hle := charAt_le_one container
    cases wide with
    | false =>
        simp only [width_narrow, Nat.one_mul, Bool.false_eq_true, if_false, Nat.add_zero] at hlt ⊢
        rw [laterRuns_congr (by omega) (by omega) (opens_narrow hprintable htext (by omega)),
          laterRuns_narrow htext hlt]
    | true =>
        simp only [width_wide, if_true] at hlt hzero ⊢
        rw [laterRuns_congr (by omega) (by omega)
          (opens_wide (hallowed rfl) htext (by omega)), laterRuns_wide htext (hzero trivial) hlt]
  rw [hlast, laterRuns_turn hlt, step_other hother, found_close hlong]
  exact ⟨_, rfl⟩

/-! ## Planted text -/

/-- The one run that starts at a position. -/
theorem filter_start {runs : List Run} {run : Run} (hruns : SoundRuns container data runs)
    (hmem : run ∈ runs) : runs.filter (fun other => other.start = run.start) = [run] := by
  obtain ⟨before, after, rfl⟩ := List.append_of_mem hmem
  have hordered := List.pairwise_append.mp hruns.ordered
  have hbefore : before.filter (fun other => other.start = run.start) = [] := by
    rw [List.filter_eq_nil_iff]
    intro other hother
    have hlt := (hruns.sound other (by simp [hother])).start_lt
    have hle := hordered.2.2 other hother run List.mem_cons_self
    simp only [decide_eq_true_eq]
    omega
  have hafter : after.filter (fun other => other.start = run.start) = [] := by
    rw [List.filter_eq_nil_iff]
    intro other hother
    have hlt := (hruns.sound run (by simp)).start_lt
    have hle := (List.pairwise_cons.mp hordered.2.1).1 other hother
    simp only [decide_eq_true_eq]
    omega
  rw [List.filter_append, List.filter_cons_of_pos (by simp), hbefore, hafter]
  rfl

theorem extract_of_hasAt {wide : Bool} {text : List Char} (hprintable : Printable container.charset)
    (hallowed : wide = true → container.allowsWide = true)
    (htext : ∀ c ∈ text, container.charset.contains c = true) (hlong : 5 ≤ text.length)
    (hat : HasAt data start (text.flatMap (cellBytes container.order wide)))
    (hended : Ended container data wide (start + width wide * text.length))
    (hfence : start ≠ 0 → data.getD (start - 1) 0 ≠ 0 ∧
      container.charset.containsByte (data.getD (start - 1) 0) = false) :
    (Slot.extract container data).filter (fun slot => slot.pos = start) =
      [⟨String.ofList text, start, text.length, wide⟩] := by
  obtain ⟨hcells, hchars⟩ := text_of_hasAt hallowed htext hat
  obtain ⟨after, hplanted⟩ := exists_laterRuns hprintable hallowed hcells hlong hended
  have hreached : ∃ before, laterRuns container data 0 none =
      before ++ laterRuns container data start none := by
    rcases Nat.eq_zero_or_pos start with rfl | hpos
    · exact ⟨[], rfl⟩
    · obtain ⟨hzero, hother⟩ := hfence (by omega)
      have hle : start ≤ data.size := by
        have hlt := hended.1
        omega
      exact laterRuns_before hle hzero hother 0 none (.inl hpos)
  obtain ⟨before, hreached⟩ := hreached
  have hmem : (⟨start, start + width wide * text.length, wide⟩ : Run) ∈
      (runs container data).toList := by
    rw [toList_runs, hreached, hplanted]
    simp
  have hcount : cells ⟨start, start + width wide * text.length, wide⟩ = text.length := by
    rw [cells, Nat.add_sub_cancel_left]
    exact Nat.mul_div_cancel_left _ (by cases wide <;> decide)
  rw [extract_eq hprintable, List.filter_map]
  have hfilter := filter_start (runs_sound container data) hmem
  rw [show ((fun slot : Slot => decide (slot.pos = start)) ∘ slotOf container data) =
      fun run => decide (run.start = start) from rfl, hfilter, List.map_singleton, slotOf, hcount,
    hchars]

theorem fence_of_back {front rest : Bytes}
    (hfront : ∀ byte, front.back? = some byte →
      byte ≠ 0 ∧ container.charset.containsByte byte = false) (hne : front.size ≠ 0) :
    (front ++ rest).getD (front.size - 1) 0 ≠ 0 ∧
      container.charset.containsByte ((front ++ rest).getD (front.size - 1) 0) = false := by
  have hlast : (front ++ rest)[front.size - 1]? = front.back? := by
    rw [Array.getElem?_append_left (by omega), Array.back?_eq_getElem?]
  obtain ⟨byte, hbyte⟩ : ∃ byte, front.back? = some byte := by
    rw [Array.back?_eq_getElem?, Array.getElem?_eq_getElem (by omega)]
    exact ⟨_, rfl⟩
  rw [Array.getD_eq_getD_getElem?, hlast, hbyte]
  exact hfront byte hbyte

theorem ended_narrow {byte : UInt8} (hat : HasAt data stop [byte])
    (hother : container.charset.containsByte byte = false) : Ended container data false stop := by
  obtain ⟨hlt, -⟩ := hat.head
  refine ⟨hlt, nofun, ?_⟩
  rw [if_neg Bool.false_ne_true, Nat.add_zero, hat.getD]
  exact hother

theorem ended_wide (hprintable : Printable container.charset) (hat : HasAt data stop [0, 0]) :
    Ended container data true stop := by
  have hle := charAt_le_one container
  have hinside := hat.le_size
  simp only [List.length_cons, List.length_nil] at hinside
  have hzero : data.getD (stop + charAt container) 0 = 0 := by
    rcases Nat.le_one_iff_eq_zero_or_eq_one.mp hle with hplace | hplace
    · rw [hplace, Nat.add_zero, hat.getD]
    · rw [hplace, hat.tail.getD]
  refine ⟨?_, fun _ _ => hat.getD, ?_⟩
  · rw [if_pos rfl]
    omega
  · rw [if_pos rfl, hzero, Bool.eq_false_iff]
    exact fun hallowed => hprintable.not_zero hallowed rfl

theorem extract_between {wide : Bool} {text : List Char} {front ending back : Bytes}
    (hprintable : Printable container.charset)
    (hallowed : wide = true → container.allowsWide = true)
    (htext : ∀ c ∈ text, container.charset.contains c = true) (hlong : 5 ≤ text.length)
    (hfront : ∀ byte, front.back? = some byte →
      byte ≠ 0 ∧ container.charset.containsByte byte = false)
    (hended : ∀ data stop, HasAt data stop ending.toList → Ended container data wide stop) :
    (Slot.extract container (front ++ (text.flatMap (cellBytes container.order wide)).toArray ++
        ending ++ back)).filter (fun slot => slot.pos = front.size) =
      [⟨String.ofList text, front.size, text.length, wide⟩] := by
  have hstop := hended _ _ (hasAt_middle
    (front ++ (text.flatMap (cellBytes container.order wide)).toArray) ending back)
  have hlength : (text.flatMap (cellBytes container.order wide)).toArray.size =
      width wide * text.length :=
    length_flatMap_of_width (length_cellBytes container.order wide) text
  rw [Array.size_append, hlength] at hstop
  have hat := hasAt_middle front (text.flatMap (cellBytes container.order wide)).toArray
    (ending ++ back)
  rw [← Array.append_assoc] at hat
  refine extract_of_hasAt hprintable hallowed htext hlong hat hstop fun hne => ?_
  rw [Array.append_assoc, Array.append_assoc]
  exact fence_of_back hfront hne

/-- Text of at least five characters of a printable charset, written after anything that does
not end in a zero or in text of its own, is read back from where it is, once: as one-byte
text if a byte outside the charset follows, and as two-byte text, where the platform has it,
if two zeros do. -/
theorem extract_planted (container : Container) (hprintable : Printable container.charset)
    (text : List Char) (htext : ∀ c ∈ text, container.charset.contains c = true)
    (hlong : 5 ≤ text.length) (front back : Bytes)
    (hfront : ∀ byte, front.back? = some byte →
      byte ≠ 0 ∧ container.charset.containsByte byte = false) :
    (∃ bytes, Slot.encode? container.order false text = some bytes ∧
      ∀ byte, container.charset.containsByte byte = false →
        (Slot.extract container (front ++ bytes.toArray ++ #[byte] ++ back)).filter
            (fun slot => slot.pos = front.size) =
          [⟨String.ofList text, front.size, text.length, false⟩]) ∧
    (container.allowsWide = true → ∃ bytes, Slot.encode? container.order true text = some bytes ∧
      (Slot.extract container (front ++ bytes.toArray ++ #[0, 0] ++ back)).filter
          (fun slot => slot.pos = front.size) =
        [⟨String.ofList text, front.size, text.length, true⟩]) := by
  refine ⟨⟨_, encode_eq hprintable container.order false htext, fun byte hother => ?_⟩,
    fun hallowed => ⟨_, encode_eq hprintable container.order true htext, ?_⟩⟩
  · exact extract_between hprintable nofun htext hlong hfront fun _ _ hat =>
      ended_narrow hat hother
  · exact extract_between hprintable (fun _ => hallowed) htext hlong hfront fun _ _ hat =>
      ended_wide hprintable hat

/-- A name of each width, behind another text and zeros. -/
theorem extract_planted_name :
    let container : Container := ⟨.xbox, .big, .ofString " EHLOY"⟩
    let text := ['H', 'O', 'L', 'L', 'Y']
    let front : Bytes := #[0x00, 0x00, 0x48, 0x45, 0x4C, 0x4C, 0x4F, 0x59, 0x00, 0x01]
    let back : Bytes := #[0x00, 0x48, 0x00, 0x48]
    let narrow : Bytes := #[0x48, 0x4F, 0x4C, 0x4C, 0x59]
    let wide : Bytes := #[0x00, 0x48, 0x00, 0x4F, 0x00, 0x4C, 0x00, 0x4C, 0x00, 0x59]
    Printable container.charset ∧
      (∀ c ∈ text, container.charset.contains c = true) ∧
      5 ≤ text.length ∧
      (∀ byte, front.back? = some byte →
        byte ≠ 0 ∧ container.charset.containsByte byte = false) ∧
      container.charset.containsByte 0x24 = false ∧ container.allowsWide = true ∧
      (Slot.extract container (front ++ narrow ++ #[0x24] ++ back)).filter
          (fun slot => slot.pos = 10) = [⟨"HOLLY", 10, 5, false⟩] ∧
      (Slot.extract container (front ++ wide ++ #[0, 0] ++ back)).filter
          (fun slot => slot.pos = 10) = [⟨"HOLLY", 10, 5, true⟩] := by
  intro container text front back narrow wide
  have hprintable : Printable container.charset :=
    (plain_ofString (by decide +kernel) (by decide +kernel)).printable
  have htext : ∀ c ∈ text, container.charset.contains c = true := by
    have hchars : text.all (fun c => decide (c.toNat < 256) && " EHLOY".toList.contains c) = true := by
      decide +kernel
    intro c hc
    exact (contains_ofString _ _).mpr (by simpa using List.all_eq_true.mp hchars c hc)
  have hfront : ∀ byte, front.back? = some byte →
      byte ≠ 0 ∧ container.charset.containsByte byte = false := by
    intro byte hbyte
    obtain rfl : 0x01 = byte := Option.some.inj hbyte
    decide +kernel
  have hother : container.charset.containsByte 0x24 = false := by decide +kernel
  obtain ⟨⟨bytes, hbytes, hnarrow⟩, hwide⟩ := extract_planted container hprintable text
    htext (by decide) front back hfront
  obtain ⟨units, hunits, hwide⟩ := hwide rfl
  have hbytes' : Slot.encode? container.order false text = some narrow.toList := by
    decide +kernel
  have hunits' : Slot.encode? container.order true text = some wide.toList := by
    decide +kernel
  obtain rfl : narrow.toList = bytes := Option.some.inj (hbytes'.symm.trans hbytes)
  obtain rfl : wide.toList = units := Option.some.inj (hunits'.symm.trans hunits)
  exact ⟨hprintable, htext, by decide, hfront, hother, rfl, hnarrow 0x24 hother, hwide⟩

end ScriptRecord.Proofs.Slot.Planting
