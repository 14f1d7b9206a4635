import ScriptRecord.Proofs.Slot.Resemblance
import ScriptRecord.Proofs.Slot.Turns
/-!
# Why a run ends

A run under way is closed by a byte that cannot go on with it or by the end of the
payload, and is reported if it is long enough there.  `Closed` lists what stands behind
the cells of a run in each case.  The pass measures a run where it closes it, which is
not where its last cell ends, so the least number of cells differs from case to case.
-/

namespace ScriptRecord.Proofs.Slot.Closing

open ScriptRecord.Proofs.Slot.Cells
open ScriptRecord.Proofs.Slot.Resemblance
open ScriptRecord.Proofs.Slot.Turns

/-- What follows a reported run of so many cells. -/
inductive Closed (container : Container) (data : Bytes) : Bool → Nat → Nat → Prop
  /-- A byte that is not text. -/
  | byte {start count : Nat} (long : 4 < count) (inside : start + count < data.size)
      (other : container.charset.containsByte (data.getD (start + count) 0) = false) :
      Closed container data false start count
  /-- Nothing; the last byte was not counted when the run was measured. -/
  | last {start count : Nat} (long : 5 < count) (flush : start + count = data.size) :
      Closed container data false start count
  /-- Only the byte that ends scripts. -/
  | sentinel {start count : Nat} (long : 4 < count) (flush : start + count + 1 = data.size)
      (sentinel : data.getD (start + count) 0 = Scan.sentinel) :
      Closed container data false start count
  /-- No character with a zero behind it. -/
  | broken {start count : Nat} (long : 8 < 2 * count + charAt container)
      (inside : start + 2 * count + charAt container < data.size)
      (zero : Scan.zeroFirst container = true → data.getD (start + 2 * count) 0 = 0)
      (broken : ¬ Continues container data (start + 2 * count + charAt container)) :
      Closed container data true start count
  /-- The last byte, a zero that was read with the last character. -/
  | flush {start count : Nat} (long : 8 < 2 * count + charAt container + 1)
      (cell : Cell container data true (start + 2 * count))
      (flush : start + 2 * count + charAt container + 2 = data.size)
      (zero : data.getD (start + 2 * count + charAt container + 1) 0 = 0) :
      Closed container data true start (count + charAt container)

variable {container : Container} {data : Bytes} {run : OpenRun} {pos : Nat} {ended : Bool}
  {byte : UInt8} {closed : Run}

theorem settle_found (hpos : pos < data.size)
    (h : (Scan.settle data run pos ended byte).found = some closed) :
    (ended = true ∨ pos + 1 = data.size) ∧ Scan.minimum run.wide < pos - run.start ∧
      closed.start = run.start ∧ closed.wide = run.wide ∧
      cells closed = if run.wide then (pos - run.start) / 2
        else pos - run.start + if takesLast data pos ended byte then 1 else 0 := by
  unfold Scan.settle at h
  split at h
  · rename_i hclose
    have hlong := @found_close_isSome data run pos ended byte
    rw [h, Option.isSome_some, eq_comm, decide_eq_true_eq] at hlong
    exact ⟨by simpa using hclose, hlong, cells_close hpos h⟩
  · cases h

theorem closed_narrow {start count : Nat} (hpos : start + count < data.size)
    (h : (Scan.settle data ⟨start, false⟩ (start + count)
      (!container.charset.containsByte (data.getD (start + count) 0))
      (data.getD (start + count) 0)).found = some closed) :
    Closed container data closed.wide closed.start (cells closed) := by
  obtain ⟨hended, hlong, hstart, hwide, hcells⟩ := settle_found hpos h
  dsimp only at hstart hwide hcells hlong
  rw [Nat.add_sub_cancel_left] at hlong hcells
  rw [hstart, hwide, hcells, if_neg Bool.false_ne_true]
  cases hchar : container.charset.containsByte (data.getD (start + count) 0) with
  | false =>
      simp only [takesLast, Bool.not_false, Bool.not_true, Bool.false_and, Bool.false_eq_true,
        if_false]
      exact .byte hlong hpos hchar
  | true =>
      rw [hchar] at hended
      have hflush : start + count + 1 = data.size := by simpa using hended
      by_cases hlast : data.getD (start + count) 0 = Scan.sentinel
      · simp only [takesLast, hlast, bne_self_eq_false, Bool.and_false, Bool.false_eq_true, if_false]
        exact .sentinel hlong hflush hlast
      · simp only [takesLast, hflush, Bool.not_true, Bool.not_false, decide_true,
          Bool.true_and, bne_iff_ne, ne_eq, hlast, not_false_eq_true, if_true]
        exact .last (Nat.succ_lt_succ hlong) hflush

theorem closed_wide {start count : Nat} (hpos : start + 2 * count + charAt container < data.size)
    (hzero : Scan.zeroFirst container = true → data.getD (start + 2 * count) 0 = 0)
    (h : (Scan.goOn data ⟨start, true⟩ (start + 2 * count + charAt container)
      (!container.charset.containsByte (data.getD (start + 2 * count + charAt container) 0))
      (data.getD (start + 2 * count + charAt container) 0)).found = some closed) :
    Closed container data closed.wide closed.start (cells closed) := by
  have hle := charAt_le_one container
  -- Past a character with a zero behind it only the end of the payload closes the run.
  by_cases hgo : Continues container data (start + 2 * count + charAt container)
  · rw [goOn_continues hgo] at h
    obtain ⟨hchar, hlt, hnext⟩ := hgo
    obtain ⟨hended, hlong, hstart, hwide, hcells⟩ := settle_found hlt h
    dsimp only [Scan.minimum] at hstart hwide hcells hlong
    have hcount : cells closed = count + charAt container := by
      rw [hcells, if_pos rfl]
      omega
    rw [hstart, hwide, hcount]
    refine .flush ?_ (cell_wide rfl hlt hzero hnext hchar) (by simpa using hended) hnext
    rw [if_pos rfl] at hlong
    omega
  · rw [goOn_broken hgo] at h
    obtain ⟨-, hlong, hstart, hwide, hcells⟩ := settle_found hpos h
    dsimp only [Scan.minimum] at hstart hwide hcells hlong
    have hcount : cells closed = count := by
      rw [hcells, if_pos rfl]
      omega
    rw [hstart, hwide, hcount]
    refine .broken ?_ hpos hzero hgo
    rw [if_pos rfl] at hlong
    omega

theorem closed_step {run : Option OpenRun} (hpos : pos < data.size)
    (hgoing : ∀ going, run = some going → Going container data going pos)
    (h : (Scan.step container data pos run).found = some closed) :
    Closed container data closed.wide closed.start (cells closed) := by
  rcases step_cases hpos hgoing with ⟨-, hstep⟩ | ⟨going, place, -, hplace, hgoing, hstep⟩
  · rw [hstep] at h
    cases h
  · rw [hstep] at h
    cases hgoing with
    | narrow => exact closed_narrow hplace h
    | wide _ _ hzero => exact closed_wide hplace hzero h

theorem closed_of_laterRuns (pos : Nat) (run : Option OpenRun)
    (hgoing : ∀ going, run = some going → Going container data going pos) :
    ∀ closed ∈ laterRuns container data pos run,
      Closed container data closed.wide closed.start (cells closed) := by
  induction pos, run using turn_induction container data with
  | turn pos run hpos ih =>
      intro closed hclosed
      rw [laterRuns_turn hpos, List.mem_append, Option.mem_toList] at hclosed
      rcases hclosed with hfound | hlater
      · exact closed_step hpos hgoing hfound
      · exact ih (step_sound hpos hgoing).going closed hlater
  | done pos run hpos =>
      rw [laterRuns_end hpos]
      simp

/-- Every run of a payload is closed in one of these ways. -/
theorem closed_of_mem_runs (h : closed ∈ (runs container data).toList) :
    Closed container data closed.wide closed.start (cells closed) :=
  closed_of_laterRuns 0 none nofun closed h

/-! ## How long a run is -/

variable {start count : Nat}

theorem start_lt_of_closed {wide : Bool} (h : Closed container data wide start count) :
    start + 5 < data.size := by
  have hle := charAt_le_one container
  cases h with
  | byte | last | sentinel | broken | flush => omega

theorem start_lt_of_closed_wide (h : Closed container data true start count) :
    start + 8 + charAt container < data.size := by
  have hle := charAt_le_one container
  cases h with
  | broken | flush => omega

theorem le_cells_wide (h : Closed container data true start count) : 4 ≤ count := by
  have hle := charAt_le_one container
  cases h with
  | broken | flush => omega

/-- Nothing is found so close to the end. -/
theorem laterRuns_short {run : Option OpenRun}
    (hgoing : ∀ going, run = some going → Going container data going pos)
    (hshort : data.size ≤ floor pos run + 5) : laterRuns container data pos run = [] := by
  rw [List.eq_nil_iff_forall_not_mem]
  intro closed hclosed
  have hfloor := floor_le_laterRuns pos run hgoing closed hclosed
  have hlt := start_lt_of_closed (closed_of_laterRuns pos run hgoing closed hclosed)
  omega

/-! ## What stands behind a run -/

theorem getElem?_eq_zero {pos : Nat} :
    data[pos]? = some 0 ↔ pos < data.size ∧ data.getD pos 0 = 0 := by
  rw [Array.getElem?_eq_some_iff, Array.getD]
  constructor
  · rintro ⟨hlt, hzero⟩
    simp [hlt, hzero]
  · rintro ⟨hlt, hzero⟩
    rw [dif_pos hlt] at hzero
    exact ⟨hlt, hzero⟩

/-- With the zeros in front there is always one behind a run. -/
theorem zero_behind (hfirst : Scan.zeroFirst container = true)
    (h : Closed container data true start count) : data[start + 2 * count]? = some 0 := by
  have hchar := (placeOf_zeroFirst hfirst).2
  rw [getElem?_eq_zero]
  cases h with
  | broken _ hinside hzero _ => exact ⟨by omega, hzero hfirst⟩
  | @flush _ count _ _ hflush hzero =>
      rw [hchar] at hzero ⊢
      exact ⟨by omega, hzero⟩

/-- A character that was left out has no zero behind it. -/
theorem no_zero_behind (hfirst : Scan.zeroFirst container = true)
    (h : Closed container data true start count)
    (hnext : Cell container data true (start + 2 * count)) :
    data[start + 2 * (count + 1)]? ≠ some 0 := by
  have hchar := (placeOf_zeroFirst hfirst).2
  have hinside := hnext.inside
  rw [width_wide] at hinside
  rw [Ne, getElem?_eq_zero]
  cases h with
  | broken _ _ _ hbroken =>
      rintro ⟨hlt, hzero⟩
      rw [hchar] at hbroken
      have hcell := hnext.char
      rw [if_pos rfl, hchar] at hcell
      exact hbroken ⟨hcell, by omega, hzero⟩
  | flush _ _ hflush _ => omega

/-- With the zeros behind, what was left out is the last character of the payload. -/
theorem flush_of_cell (hfirst : Scan.zeroFirst container = false)
    (h : Closed container data true start count)
    (hnext : Cell container data true (start + 2 * count)) :
    start + 2 * (count + 1) = data.size := by
  obtain ⟨hzero, hchar⟩ := placeOf_zeroLast hfirst
  have hinside := hnext.inside
  rw [width_wide] at hinside
  cases h with
  | broken _ _ _ hbroken =>
      rw [hchar] at hbroken
      have hcell := hnext.char
      have hbehind := hnext.zero rfl
      rw [if_pos rfl, hchar] at hcell
      rw [hzero] at hbehind
      exact absurd ⟨hcell, by omega, hbehind⟩ hbroken
  | flush _ _ hflush _ => omega

theorem lt_size_of_closed (hfirst : Scan.zeroFirst container = false)
    (h : Closed container data true start count) : start + 2 * count < data.size := by
  have hchar := (placeOf_zeroLast hfirst).2
  cases h with
  | broken _ hinside _ _ => omega
  | flush _ _ hflush _ => omega

theorem lt_cells_narrow {run : Run} (hrun : run ∈ (runs container data).toList)
    (hnarrow : run.wide = false) : 4 < cells run := by
  have hclosed := closed_of_mem_runs hrun
  rw [hnarrow] at hclosed
  cases hclosed with
  | byte hlong | last hlong | sentinel hlong => omega

end ScriptRecord.Proofs.Slot.Closing
