import ScriptRecord.Proofs.Slot.Closing
import ScriptRecord.Proofs.Slot.Editing
/-!
# The end of a payload

A run that is still under way at the end of a payload should be reported as if a byte that
is not text followed.  `extract_push` compares the two: the slots are the same but for one
that comes right up to the end.  Where the payload ends, a run is measured without its last
byte, so that the shortest ones are passed over and two-byte text with its zeros behind is
cut by a character.
-/

namespace ScriptRecord.Proofs.Slot.PayloadEnd

open ScriptRecord.Proofs.Slot.Cells
open ScriptRecord.Proofs.Slot.Resemblance
open ScriptRecord.Proofs.Slot.Texts
open ScriptRecord.Proofs.Slot.Editing
open ScriptRecord.Proofs.Slot.Turns
open ScriptRecord.Proofs.Slot.Closing

/-- A slot that is there if a byte follows the payload of this size, and is not the same if
none does: five bytes, four characters with the zero of a fifth, or text with its zeros
behind up to the end. -/
def AtStake (container : Container) (size : Nat) (slot : Slot) : Prop :=
  if slot.wide then
    if Scan.zeroFirst container then slot.pos + 9 = size else slot.pos + slot.byteLength = size
  else slot.pos + 5 = size

instance (container : Container) (size : Nat) (slot : Slot) :
    Decidable (AtStake container size slot) :=
  inferInstanceAs (Decidable (ite _ _ _))

/-- What is left of a slot where the payload ends. -/
def atEnd (container : Container) (size : Nat) (slot : Slot) : Option Slot :=
  if AtStake container size slot then
    if slot.wide && !Scan.zeroFirst container then
      some { slot with
        text := String.ofList slot.text.toList.dropLast
        length := slot.length - 1 }
    else none
  else some slot

/-- The slots that are found from a position on. -/
def laterSlots (container : Container) (data : Bytes) (pos : Nat) (run : Option OpenRun) :
    List Slot :=
  (laterRuns container data pos run).map (Slot.ofRun container.order data)

variable {container : Container} {data : Bytes} {byte : UInt8} {pos : Nat}

/-! ## One more byte -/

theorem lt_size_push (h : pos ≤ data.size) : pos < (data.push byte).size := by
  rw [Array.size_push]
  exact Nat.lt_succ_of_le h

theorem getD_push_of_lt (h : pos < data.size) : (data.push byte).getD pos 0 = data.getD pos 0 := by
  rw [Array.getD_eq_getD_getElem?, Array.getD_eq_getD_getElem?, Array.getElem?_push,
    if_neg (Nat.ne_of_lt h)]

theorem getD_push_size : (data.push byte).getD data.size 0 = byte := by
  rw [Array.getD_eq_getD_getElem?, Array.getElem?_push_size, Option.getD_some]

theorem ofRun_push {run : Run} (h : run.stop ≤ data.size) :
    Slot.ofRun container.order (data.push byte) run = Slot.ofRun container.order data run := by
  rw [Slot.ofRun, Slot.ofRun, Array.extract_push_of_le h]

theorem cell_push {wide : Bool} (h : Cell container data wide pos) :
    Cell container (data.push byte) wide pos := by
  have hinside := h.inside
  have hle := charAt_le_one container
  have hzeroLe : zeroAt container ≤ 1 := by
    unfold zeroAt
    split <;> omega
  refine ⟨?_, ?_, ?_⟩
  · rw [Array.size_push]
    omega
  · intro hwide
    subst hwide
    rw [width_wide] at hinside
    rw [getD_push_of_lt (by omega)]
    exact h.zero rfl
  · have hchar := h.char
    cases wide with
    | false =>
        rw [width_narrow] at hinside
        rw [if_neg Bool.false_ne_true] at hchar ⊢
        rw [getD_push_of_lt (by omega)]
        exact hchar
    | true =>
        rw [width_wide] at hinside
        rw [if_pos rfl] at hchar ⊢
        rw [getD_push_of_lt (by omega)]
        exact hchar

theorem going_push {run : OpenRun} (hpos : pos < data.size) (h : Going container data run pos) :
    Going container (data.push byte) run pos := by
  cases h with
  | narrow htext => exact .narrow fun i hi => cell_push (htext i hi)
  | wide hallowed htext hzero =>
      refine .wide hallowed (fun i hi => cell_push (htext i hi)) fun hfirst => ?_
      rw [getD_push_of_lt (by omega)]
      exact hzero hfirst

/-! ## Turns with one more byte -/

theorem opensWide_push (hbyte : byte ≠ 0) (hpos : pos < data.size) :
    Scan.opensWide container (data.push byte) pos = Scan.opensWide container data pos := by
  unfold Scan.opensWide
  rw [getD_push_of_lt hpos, Array.size_push]
  rcases Nat.lt_trichotomy (pos + 2) data.size with hlt | heq | hgt
  · simp only [getD_push_of_lt hlt, hlt, Nat.lt_succ_of_lt hlt, decide_true]
  · simp [heq, hbyte]
  · have hnot : ¬ pos + 2 < data.size := by omega
    have hnot' : ¬ pos + 2 < data.size + 1 := by omega
    simp only [hnot, hnot', decide_false, Bool.and_false, Bool.false_and]

theorem opensWideAfter_push (hpos : pos + 2 < data.size) :
    Scan.opensWideAfter container (data.push byte) pos =
      Scan.opensWideAfter container data pos := by
  unfold Scan.opensWideAfter
  rw [getD_push_of_lt (Nat.lt_of_succ_lt hpos), Array.size_push]
  simp only [hpos, Nat.lt_succ_of_lt hpos]

/-- The payload ends while the run is under way. -/
structure Cut (data : Bytes) (byte : UInt8) (going : OpenRun) (turn other : Scan.Turn) : Prop where
  closes : ∃ last, turn = Scan.close data going (data.size - 1) false last ∧
    (going.wide = false → last = data.getD (data.size - 1) 0)
  goes : other = ⟨data.size, some going, none⟩

theorem settle_push {going : OpenRun} {ended : Bool} {last : UInt8} (hpos : pos < data.size)
    (hlast : going.wide = false → last = data.getD pos 0) :
    (Scan.settle (data.push byte) going pos ended last = Scan.settle data going pos ended last ∧
      Arrives data.size (Scan.settle data going pos ended last)) ∨
    Cut data byte going (Scan.settle data going pos ended last)
      (Scan.settle (data.push byte) going pos ended last) := by
  unfold Scan.settle
  have hinside : pos + 1 ≠ (data.push byte).size := by
    rw [Array.size_push]
    omega
  cases ended with
  | true =>
      simp only [Bool.true_or, if_true]
      exact .inl ⟨by simp only [Scan.close, Bool.not_true, Bool.false_and], close_arrives hpos⟩
  | false =>
      simp only [Bool.false_or, decide_eq_true_eq, if_neg hinside]
      by_cases hend : pos + 1 = data.size
      · have hplace : data.size - 1 = pos := by omega
        rw [if_pos hend]
        exact .inr ⟨⟨last, by rw [hplace], by rwa [hplace]⟩, by rw [hend]⟩
      · rw [if_neg hend]
        exact .inl ⟨rfl, .inl (by dsimp only; omega)⟩

theorem next_zero_push (hbyte : byte ≠ 0) (hpos : pos < data.size) :
    (pos + 1 < (data.push byte).size && (data.push byte).getD (pos + 1) 0 == 0) =
      (pos + 1 < data.size && data.getD (pos + 1) 0 == 0) := by
  rw [Array.size_push]
  rcases Nat.lt_or_eq_of_le (Nat.succ_le_of_lt hpos) with hlt | heq
  · rw [getD_push_of_lt hlt]
    simp only [hlt, Nat.lt_succ_of_lt hlt]
  · rw [← Nat.succ_eq_add_one, heq, getD_push_size]
    simp [hbyte]

theorem goOn_push {going : OpenRun} {ended : Bool} {last : UInt8} (hbyte : byte ≠ 0)
    (hpos : pos < data.size) (hlast : last = data.getD pos 0) :
    (Scan.goOn (data.push byte) going pos ended last = Scan.goOn data going pos ended last ∧
      Arrives data.size (Scan.goOn data going pos ended last)) ∨
    Cut data byte going (Scan.goOn data going pos ended last)
      (Scan.goOn (data.push byte) going pos ended last) := by
  unfold Scan.goOn
  rw [next_zero_push hbyte hpos]
  split
  · rename_i hwide
    simp only [Bool.and_eq_true] at hwide
    split
    · rename_i hlt
      simp only [Bool.and_eq_true, decide_eq_true_eq] at hlt
      exact settle_push hlt.1 fun hnarrow => by rw [hwide.1] at hnarrow; cases hnarrow
    · exact settle_push hpos fun _ => hlast
  · exact settle_push hpos fun _ => hlast

/-- A turn that is not among the last is the same with one more byte, unless the payload ends
while its run is under way. -/
theorem step_push {run : Option OpenRun} (hbyte : byte ≠ 0) (hpos : pos < data.size)
    (hfar : run = none → pos + 2 < data.size) :
    (Scan.step container (data.push byte) pos run = Scan.step container data pos run ∧
      Arrives data.size (Scan.step container data pos run)) ∨
    ∃ going, Cut data byte going (Scan.step container data pos run)
      (Scan.step container (data.push byte) pos run) := by
  unfold Scan.step
  rw [getD_push_of_lt hpos]
  cases run with
  | some going => exact (goOn_push hbyte hpos rfl).imp_right fun hcut => ⟨going, hcut⟩
  | none =>
      have hlt := hfar rfl
      dsimp only
      rw [opensWide_push hbyte hpos, opensWideAfter_push hlt, getD_push_of_lt (Nat.lt_of_succ_lt hlt)]
      by_cases hopens : Scan.opensWide container data pos = true
      · rw [if_pos hopens, if_pos hopens]
        exact (goOn_push hbyte (by omega) rfl).imp_right fun hcut => ⟨_, hcut⟩
      · rw [if_neg hopens, if_neg hopens]
        by_cases hchar : container.charset.containsByte (data.getD pos 0) = true
        · rw [if_pos hchar, if_pos hchar]
          exact (goOn_push hbyte hpos rfl).imp_right fun hcut => ⟨_, hcut⟩
        · rw [if_neg hchar, if_neg hchar]
          exact .inl ⟨rfl, .inl (by dsimp only; omega)⟩

/-! ## Slots of closed runs -/

theorem slot_close_wide {start : Nat} {ended : Bool} {last : UInt8} (hpos : pos < data.size)
    (hsound : ∀ closed, (Scan.close data ⟨start, true⟩ pos ended last).found = some closed →
      Sound container data closed) :
    (Scan.close data ⟨start, true⟩ pos ended last).found.map (Slot.ofRun container.order data) =
      if 8 < pos - start then
        some ⟨String.ofList (chars container data true start ((pos - start) / 2)), start,
          (pos - start) / 2, true⟩
      else none := by
  have hlong : (Scan.close data ⟨start, true⟩ pos ended last).found.isSome =
      decide (8 < pos - start) := found_close_isSome
  cases hfound : (Scan.close data ⟨start, true⟩ pos ended last).found with
  | none =>
      rw [hfound, Option.isSome_none, eq_comm, decide_eq_false_iff_not] at hlong
      rw [if_neg hlong, Option.map_none]
  | some closed =>
      rw [hfound, Option.isSome_some, eq_comm, decide_eq_true_eq] at hlong
      obtain ⟨hstart, hwide, hcells⟩ := cells_close hpos hfound
      rw [if_pos rfl] at hcells
      rw [if_pos hlong, Option.map_some, ofRun_wide (hsound closed hfound) hwide, hcells, hstart]

theorem found_close_last {start : Nat} {last : UInt8} (hsize : 0 < data.size)
    (hlast : last ≠ Scan.sentinel) :
    (Scan.close data ⟨start, false⟩ (data.size - 1) false last).found =
      if 5 < data.size - start then some ⟨start, data.size, false⟩ else none := by
  have hend : data.size - 1 + 1 = data.size := Nat.sub_add_cancel hsize
  have hlong : 4 < data.size - 1 - start ↔ 5 < data.size - start := by omega
  simp only [Scan.close, Scan.minimum, Bool.false_eq_true, if_false, hlong, Bool.false_and, hend,
    Bool.not_false, decide_true, Bool.true_and, bne_iff_ne, ne_eq, hlast, not_false_eq_true, if_true]
  split <;> rfl

theorem found_close_ended {start : Nat} {last : UInt8} :
    (Scan.close data ⟨start, false⟩ pos true last).found =
      if 4 < pos - start then some ⟨start, pos, false⟩ else none := by
  simp only [Scan.close, Scan.minimum, Bool.false_eq_true, if_false, Bool.false_and, Bool.not_true]
  split <;> rfl

theorem chars_push {start count : Nat} (hend : start + 2 * count ≤ data.size) :
    chars container (data.push byte) true start count = chars container data true start count := by
  have hle := charAt_le_one container
  apply List.map_congr_left
  intro i hi
  rw [List.mem_range] at hi
  simp only [charByte, width_wide, if_true]
  rw [getD_push_of_lt (by omega)]

theorem dropLast_chars (container : Container) (data : Bytes) (wide : Bool) (start count : Nat) :
    (chars container data wide start (count + 1)).dropLast =
      chars container data wide start count := by
  rw [chars, List.range_succ, List.map_append, List.map_singleton, List.dropLast_concat, chars]

/-! ## The run that the end cuts -/

theorem atEnd_narrow {start : Nat} {last : UInt8} (hsize : 0 < data.size)
    (hlast : last ≠ Scan.sentinel) :
    (Scan.close data ⟨start, false⟩ (data.size - 1) false last).found.map
        (Slot.ofRun container.order data) =
      ((Scan.close (data.push byte) ⟨start, false⟩ data.size true byte).found.map
        (Slot.ofRun container.order (data.push byte))).bind (atEnd container data.size) := by
  rw [found_close_last hsize hlast, found_close_ended]
  rcases Nat.lt_trichotomy (data.size - start) 5 with hshort | hfive | hlong
  · rw [if_neg (by omega), if_neg (by omega)]
    rfl
  · rw [if_neg (by omega), if_pos (by omega), Option.map_some, Option.bind_some, atEnd, if_pos]
    · rfl
    · show start + 5 = data.size
      omega
  · rw [if_pos hlong, if_pos (by omega), Option.map_some, Option.map_some, Option.bind_some,
      ofRun_push (Nat.le_refl _), atEnd, if_neg]
    show ¬ start + 5 = data.size
    omega

theorem atEnd_wide {start count : Nat} {last : UInt8} (hsize : 0 < data.size)
    (hend : start + 2 * count + charAt container = data.size)
    (hsound : ∀ closed, (Scan.close data ⟨start, true⟩ (data.size - 1) false last).found =
      some closed → Sound container data closed)
    (hother : ∀ closed, (Scan.close (data.push byte) ⟨start, true⟩ data.size true byte).found =
      some closed → Sound container (data.push byte) closed) :
    (Scan.close data ⟨start, true⟩ (data.size - 1) false last).found.map
        (Slot.ofRun container.order data) =
      ((Scan.close (data.push byte) ⟨start, true⟩ data.size true byte).found.map
        (Slot.ofRun container.order (data.push byte))).bind (atEnd container data.size) := by
  rw [slot_close_wide (by omega) hsound, slot_close_wide (lt_size_push (Nat.le_refl _)) hother]
  -- The byte that the shorter payload does not count is the zero of a next cell, or the zero of
  -- the last one.
  cases hfirst : Scan.zeroFirst container with
  | true =>
      rw [(placeOf_zeroFirst hfirst).2] at hend
      have hcells : (data.size - start) / 2 = count := by omega
      have hcells' : (data.size - 1 - start) / 2 = count := by omega
      rw [hcells, hcells', chars_push (by omega)]
      rcases Nat.lt_trichotomy count 4 with hshort | hfour | hlong
      · rw [if_neg (by omega), if_neg (by omega)]
        rfl
      · rw [if_neg (by omega), if_pos (by omega), Option.bind_some, atEnd, if_pos]
        · simp [hfirst]
        · rw [AtStake, if_pos rfl, if_pos hfirst]
          dsimp only
          omega
      · rw [if_pos (by omega), if_pos (by omega), Option.bind_some, atEnd, if_neg]
        rw [AtStake, if_pos rfl, if_pos hfirst]
        dsimp only
        omega
  | false =>
      rw [(placeOf_zeroLast hfirst).2] at hend
      have hcells : (data.size - start) / 2 = count := by omega
      have hcells' : (data.size - 1 - start) / 2 = count - 1 := by omega
      rw [hcells, hcells', chars_push (by omega)]
      by_cases hlong : 4 < count
      · rw [if_pos (by omega), if_pos (by omega), Option.bind_some, atEnd, if_pos]
        · obtain ⟨count, rfl⟩ : ∃ fewer, count = fewer + 1 := ⟨count - 1, by omega⟩
          simp only [hfirst, Bool.not_false, Bool.and_self, if_true, Nat.add_sub_cancel,
            String.toList_ofList, dropLast_chars]
        · rw [AtStake, if_pos rfl, if_neg (by simp [hfirst])]
          simp only [Slot.byteLength, Slot.charWidth, if_true]
          omega
      · rw [if_neg (by omega), if_neg (by omega)]
        rfl

/-! ## All slots -/

theorem laterSlots_turn {run : Option OpenRun} (hpos : pos < data.size) :
    laterSlots container data pos run =
      ((Scan.step container data pos run).found.map (Slot.ofRun container.order data)).toList ++
        laterSlots container data (Scan.step container data pos run).next
          (Scan.step container data pos run).run := by
  rw [laterSlots, laterRuns_turn hpos, List.map_append, Option.toList_map]
  rfl

theorem laterSlots_short {run : Option OpenRun}
    (hgoing : ∀ going, run = some going → Going container data going pos)
    (hshort : data.size ≤ floor pos run + 5) : laterSlots container data pos run = [] := by
  rw [laterSlots, laterRuns_short hgoing hshort, List.map_nil]

theorem laterSlots_none (hshort : data.size ≤ pos + 5) : laterSlots container data pos none = [] :=
  laterSlots_short nofun hshort

theorem not_atStake {run : Run} (hsound : Sound container data run)
    (hclosed : Closed container data run.wide run.start (cells run)) :
    ¬ AtStake container data.size (Slot.ofRun container.order data run) := by
  cases hwide : run.wide with
  | false =>
      have hlt := start_lt_of_closed hclosed
      rw [AtStake, if_neg (by simp [Slot.ofRun, hwide])]
      show ¬ run.start + 5 = data.size
      omega
  | true =>
      rw [hwide] at hclosed
      rw [ofRun_wide hsound hwide, AtStake, if_pos rfl]
      cases hfirst : Scan.zeroFirst container with
      | true =>
          have hlt := start_lt_of_closed_wide hclosed
          rw [(placeOf_zeroFirst hfirst).2] at hlt
          simp only [if_true]
          omega
      | false =>
          have hbehind := lt_size_of_closed hfirst hclosed
          simp only [Bool.false_eq_true, if_false, Slot.byteLength, Slot.charWidth, if_true]
          omega

theorem atEnd_found {found : Option Run} (hsound : ∀ run, found = some run →
      Sound container data run ∧ Closed container data run.wide run.start (cells run)) :
    (found.map (Slot.ofRun container.order (data.push byte))).bind (atEnd container data.size) =
      found.map (Slot.ofRun container.order data) := by
  cases found with
  | none => rfl
  | some run =>
      obtain ⟨hrun, hclosed⟩ := hsound run rfl
      rw [Option.map_some, Option.map_some, Option.bind_some, ofRun_push hrun.stop_le, atEnd,
        if_neg (not_atStake hrun hclosed)]

theorem filterMap_toList (f : Slot → Option Slot) (slot : Option Slot) :
    slot.toList.filterMap f = (slot.bind f).toList := by
  cases slot with
  | none => rfl
  | some slot => cases h : f slot <;> simp [h]

/-- The pass over the longer payload closes the run at the byte that follows. -/
theorem laterSlots_ended {going : OpenRun} (hother : container.charset.containsByte byte = false)
    (hgoing : Going container (data.push byte) going data.size) :
    laterSlots container (data.push byte) data.size (some going) =
        ((Scan.close (data.push byte) going data.size true byte).found.map
          (Slot.ofRun container.order (data.push byte))).toList ∧
      ∀ closed, (Scan.close (data.push byte) going data.size true byte).found = some closed →
        Sound container (data.push byte) closed := by
  have hsize : data.size < (data.push byte).size := lt_size_push (Nat.le_refl _)
  have hstep : Scan.step container (data.push byte) data.size (some going) =
      Scan.close (data.push byte) going data.size true byte := by
    rw [step_other (by rwa [getD_push_size]), getD_push_size]
  have hturn := step_sound hsize fun run (hrun : some going = some run) => by
    cases hrun
    exact hgoing
  rw [hstep] at hturn
  refine ⟨?_, fun closed hclosed => (hturn.found closed hclosed).1⟩
  have hle := Scan.le_close_next (data.push byte) going data.size true byte
  rw [laterSlots_turn hsize, hstep, Scan.close_run,
    laterSlots_none (by rw [Array.size_push]; omega), List.append_nil]

theorem laterSlots_cut {run : Option OpenRun} {going : OpenRun} (hpos : pos < data.size)
    (hother : container.charset.containsByte byte = false)
    (hlast : data.getD (data.size - 1) 0 ≠ Scan.sentinel)
    (hgoing : ∀ going, run = some going → Going container data going pos)
    (hcut : Cut data byte going (Scan.step container data pos run)
      (Scan.step container (data.push byte) pos run)) :
    laterSlots container data pos run =
      (laterSlots container (data.push byte) pos run).filterMap (atEnd container data.size) := by
  obtain ⟨⟨last, hcloses, hbyte⟩, hgoes⟩ := hcut
  have hsize : pos < (data.push byte).size := lt_size_push (Nat.le_of_lt hpos)
  have hsound := (step_sound hpos hgoing).found
  rw [hcloses] at hsound
  have hturn := step_sound hsize fun going hrun => going_push hpos (hgoing going hrun)
  rw [hgoes] at hturn
  have hlater : Going container (data.push byte) going data.size := hturn.going going rfl
  obtain ⟨hended, hsound'⟩ := laterSlots_ended hother hlater
  have hle := Scan.le_close_next data going (data.size - 1) false last
  have hfound : (Scan.close data going (data.size - 1) false last).found.map
        (Slot.ofRun container.order data) =
      ((Scan.close (data.push byte) going data.size true byte).found.map
        (Slot.ofRun container.order (data.push byte))).bind (atEnd container data.size) := by
    obtain ⟨stop, hend⟩ : ∃ stop, stop = data.size := ⟨_, rfl⟩
    rw [← hend] at hlater
    cases hlater with
    | narrow => exact atEnd_narrow (by omega) (hbyte rfl ▸ hlast)
    | wide => exact atEnd_wide (by omega) hend (fun closed h => (hsound closed h).1) hsound'
  calc laterSlots container data pos run
    _ = ((Scan.close data going (data.size - 1) false last).found.map
          (Slot.ofRun container.order data)).toList := by
        rw [laterSlots_turn hpos, hcloses, Scan.close_run, laterSlots_none (by omega),
          List.append_nil]
    _ = (laterSlots container (data.push byte) data.size (some going)).filterMap
          (atEnd container data.size) := by
        rw [hended, filterMap_toList, hfound]
    _ = (laterSlots container (data.push byte) pos run).filterMap (atEnd container data.size) := by
        rw [laterSlots_turn hsize, hgoes]
        rfl

theorem laterSlots_push (hbyte : byte ≠ 0) (hother : container.charset.containsByte byte = false)
    (hlast : data.getD (data.size - 1) 0 ≠ Scan.sentinel) (pos : Nat) (run : Option OpenRun)
    (hgoing : ∀ going, run = some going → Going container data going pos)
    (hpos : pos < data.size ∨ (pos = data.size ∧ run = none)) :
    laterSlots container data pos run =
      (laterSlots container (data.push byte) pos run).filterMap (atEnd container data.size) := by
  induction pos, run using turn_induction container data with
  | turn pos run hlt ih =>
      have hsize : pos < (data.push byte).size := lt_size_push (Nat.le_of_lt hlt)
      -- Near the end the two may differ in whether text opens with its zeros behind; neither has
      -- the room for a run.
      by_cases hshort : data.size ≤ floor pos run + 4
      · rw [laterSlots_short hgoing (by omega), laterSlots_short
          (fun going hrun => going_push hlt (hgoing going hrun)) (by rw [Array.size_push]; omega)]
        rfl
      · have hfar : run = none → pos + 2 < data.size := by
          rintro rfl
          simp only [floor] at hshort
          omega
        rcases step_push hbyte hlt hfar with ⟨hsame, harrives⟩ | ⟨going, hcut⟩
        · have hfound : ∀ found, (Scan.step container data pos run).found = some found →
              Sound container data found ∧
                Closed container data found.wide found.start (cells found) := fun found hfound =>
            ⟨((step_sound hlt hgoing).found found hfound).1, closed_step hlt hgoing hfound⟩
          rw [laterSlots_turn hlt, laterSlots_turn hsize, hsame, List.filterMap_append,
            filterMap_toList, atEnd_found hfound, ih (step_sound hlt hgoing).going harrives]
        · exact laterSlots_cut hlt hother hlast hgoing hcut
  | done pos run hle =>
      obtain ⟨rfl, rfl⟩ := hpos.resolve_left (Nat.not_lt.mpr hle)
      rw [laterSlots_none (by omega), laterSlots_none (by rw [Array.size_push]; omega)]
      rfl

theorem extract_eq_laterSlots (container : Container) (data : Bytes) :
    Slot.extract container data = laterSlots container data 0 none := by
  rw [Slot.extract, Array.toList_map, toList_runs, laterSlots]

theorem le_length_of_wide {slot : Slot} (hslot : slot ∈ Slot.extract container data)
    (hwide : slot.wide = true) : 4 ≤ slot.length := by
  obtain ⟨run, hrun, rfl⟩ := mem_extract.mp hslot
  have hsound := (runs_sound container data).sound run hrun
  have hclosed := closed_of_mem_runs hrun
  have hrunWide : run.wide = true := hwide
  rw [ofRun_wide hsound hrunWide]
  rw [hrunWide] at hclosed
  exact le_cells_wide hclosed

theorem atEnd_eq_self {slot : Slot} (hslot : slot ∈ Slot.extract container data) (size : Nat) :
    atEnd container size slot = some slot ↔ ¬ AtStake container size slot := by
  rw [atEnd]
  by_cases hstake : AtStake container size slot
  · rw [if_pos hstake]
    refine iff_of_false (fun hsame => ?_) (not_not_intro hstake)
    by_cases hcut : (slot.wide && !Scan.zeroFirst container) = true
    · rw [if_pos hcut] at hsame
      have hlong := le_length_of_wide hslot (Bool.and_eq_true_iff.mp hcut).1
      have hless := congrArg (Option.map Slot.length) hsame
      simp only [Option.map_some, Option.some.injEq] at hless
      omega
    · rw [if_neg hcut] at hsame
      cases hsame
  · rw [if_neg hstake]
    exact iff_of_true rfl hstake

/-- Where a payload does not end in the byte that ends scripts, its slots are those that are
found if a byte that is neither text nor zero follows it, but for what the end of the payload
takes away from a slot that comes right up to it. -/
theorem extract_push (container : Container) (payload : Bytes) (byte : UInt8) (hbyte : byte ≠ 0)
    (hother : container.charset.containsByte byte = false)
    (hlast : payload.back? ≠ some Scan.sentinel) :
    Slot.extract container payload =
        (Slot.extract container (payload.push byte)).filterMap (atEnd container payload.size) ∧
      (Slot.extract container (payload.push byte) = Slot.extract container payload ↔
        ∀ slot ∈ Slot.extract container (payload.push byte),
          ¬ AtStake container payload.size slot) := by
  have hslots : Slot.extract container payload =
      (Slot.extract container (payload.push byte)).filterMap (atEnd container payload.size) := by
    rw [extract_eq_laterSlots, extract_eq_laterSlots]
    refine laterSlots_push hbyte hother ?_ 0 none nofun ?_
    · rwa [Ne, back?_eq_sentinel] at hlast
    · rcases Nat.eq_zero_or_pos payload.size with hempty | hpos
      · exact .inr ⟨hempty.symm, rfl⟩
      · exact .inl hpos
  refine ⟨hslots, ?_⟩
  have hself := @List.filterMap_eq_map_iff_forall_eq_some _ _ (atEnd container payload.size) id
    (Slot.extract container (payload.push byte))
  rw [List.map_id, ← hslots, eq_comm] at hself
  rw [hself]
  exact forall₂_congr fun slot hslot => atEnd_eq_self hslot payload.size

/-- Six bytes of text at the end are as good as six bytes with something behind them. -/
theorem extract_push_sixBytes :
    let container : Container := ⟨.pc, .big, .ofString " EHLOY"⟩
    let payload : Bytes := #[0x00, 0x48, 0x00, 0x4F, 0x00, 0x4C, 0x00, 0x4C, 0x00, 0x59, 0x00, 0x00,
      0x01, 0x48, 0x4F, 0x4C, 0x4C, 0x45, 0x59]
    (0x01 : UInt8) ≠ 0 ∧ container.charset.containsByte 0x01 = false ∧
      payload.back? ≠ some Scan.sentinel ∧
      Slot.extract container (payload.push 0x01) =
        [⟨"HOLLY", 0, 5, true⟩, ⟨"HOLLEY", 13, 6, false⟩] ∧
      Slot.extract container (payload.push 0x01) = Slot.extract container payload := by
  intro container payload
  have hother : container.charset.containsByte 0x01 = false := by decide +kernel
  have hlast : payload.back? ≠ some Scan.sentinel := by decide +kernel
  have hslots : Slot.extract container (payload.push 0x01) =
      [⟨"HOLLY", 0, 5, true⟩, ⟨"HOLLEY", 13, 6, false⟩] := by
    decide +kernel
  refine ⟨by decide, hother, hlast, hslots, ?_⟩
  apply (extract_push container payload 0x01 (by decide) hother hlast).2.mpr
  rw [hslots]
  decide +kernel

/-- At the end of a payload five bytes of text are passed over, and so are four characters with
the zero of a fifth; text with its zeros behind loses its last character. -/
theorem extract_push_ne :
    let before : Container := ⟨.pc, .big, .ofString " EHLOY"⟩
    let behind : Container := ⟨.pc, .little, .ofString " EHLOY"⟩
    let bytes : Bytes := #[0x48, 0x45, 0x4C, 0x4C, 0x4F]
    let four : Bytes := #[0x00, 0x48, 0x00, 0x45, 0x00, 0x4C, 0x00, 0x4C, 0x00]
    let five : Bytes := #[0x48, 0x00, 0x45, 0x00, 0x4C, 0x00, 0x4C, 0x00, 0x4F, 0x00]
    (Slot.extract before (bytes.push 0x01) = [⟨"HELLO", 0, 5, false⟩] ∧
      Slot.extract before bytes = []) ∧
    (Slot.extract before (four.push 0x01) = [⟨"HELL", 0, 4, true⟩] ∧
      Slot.extract before four = []) ∧
    (Slot.extract behind (five.push 0x01) = [⟨"HELLO", 0, 5, true⟩] ∧
      Slot.extract behind five = [⟨"HELL", 0, 4, true⟩]) := by
  decide +kernel

end ScriptRecord.Proofs.Slot.PayloadEnd
