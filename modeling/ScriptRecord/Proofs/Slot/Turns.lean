import ScriptRecord.Proofs.Slot.Cells
/-!
# Turn by turn

The runs of a payload are those of its turns, one after another, whatever has been
found before (`laterRuns_turn`).  A property of every state of the pass follows from
what one turn does with it (`turn_induction`).
-/

namespace ScriptRecord.Proofs.Slot.Turns

open ScriptRecord.Proofs.Slot.Cells

/-- The runs that are found from a position on. -/
def laterRuns (container : Container) (data : Bytes) (pos : Nat) (run : Option OpenRun) : List Run :=
  (Scan.runsFrom container data pos run #[]).toList

/-- A character with a zero behind it, past which a two-byte run goes on. -/
def Continues (container : Container) (data : Bytes) (pos : Nat) : Prop :=
  container.charset.containsByte (data.getD pos 0) = true ∧ pos + 1 < data.size ∧
    data.getD (pos + 1) 0 = 0

/-- A turn that stays before a position, or reaches it without a run under way. -/
def Arrives (stop : Nat) (turn : Scan.Turn) : Prop :=
  turn.next < stop ∨ (turn.next = stop ∧ turn.run = none)

variable {container : Container} {data : Bytes} {pos : Nat} {run : Option OpenRun}

theorem toList_runs (container : Container) (data : Bytes) :
    (runs container data).toList = laterRuns container data 0 none := rfl

theorem runsFrom_append (front found : Array Run) :
    Scan.runsFrom container data pos run (front ++ found) =
      front ++ Scan.runsFrom container data pos run found := by
  fun_induction Scan.runsFrom container data pos run found with
  | case1 pos run found hpos turn ih =>
      rw [Scan.runsFrom, if_pos hpos]
      dsimp only
      rw [Array.append_assoc]
      exact ih
  | case2 pos run found hpos => rw [Scan.runsFrom, if_neg hpos]

theorem laterRuns_turn (hpos : pos < data.size) :
    laterRuns container data pos run =
      (Scan.step container data pos run).found.toList ++
        laterRuns container data (Scan.step container data pos run).next
          (Scan.step container data pos run).run := by
  rw [laterRuns, Scan.runsFrom, if_pos hpos]
  dsimp only
  rw [Array.empty_append, ← @Array.append_empty _ (Option.toArray _), runsFrom_append,
    Array.toList_append, Option.toList_toArray, laterRuns]

theorem laterRuns_end (hpos : data.size ≤ pos) : laterRuns container data pos run = [] := by
  rw [laterRuns, Scan.runsFrom, if_neg (Nat.not_lt.mpr hpos)]

theorem turn_induction (container : Container) (data : Bytes)
    {motive : Nat → Option OpenRun → Prop}
    (turn : ∀ pos run, pos < data.size →
      motive (Scan.step container data pos run).next (Scan.step container data pos run).run →
      motive pos run)
    (done : ∀ pos run, data.size ≤ pos → motive pos run) (pos : Nat) (run : Option OpenRun) :
    motive pos run := by
  have found : Array Run := #[]
  induction pos, run, found using Scan.runsFrom.induct container data with
  | case1 pos run _ hpos _ ih => exact turn pos run hpos ih
  | case2 pos run _ hpos => exact done pos run (Nat.not_lt.mp hpos)

theorem floor_le_laterRuns (pos : Nat) (run : Option OpenRun)
    (hgoing : ∀ going, run = some going → Going container data going pos) :
    ∀ closed ∈ laterRuns container data pos run, floor pos run ≤ closed.start := by
  induction pos, run using turn_induction container data with
  | turn pos run hpos ih =>
      have hturn := step_sound hpos hgoing
      intro closed hclosed
      rw [laterRuns_turn hpos, List.mem_append, Option.mem_toList] at hclosed
      rcases hclosed with hfound | hlater
      · exact (hturn.found closed hfound).2.1
      · exact Nat.le_trans hturn.low_le (ih hturn.going closed hlater)
  | done pos run hpos =>
      rw [laterRuns_end hpos]
      simp

/-! ## Where a turn leads -/

theorem close_arrives {going : OpenRun} {ended : Bool} {byte : UInt8} {stop : Nat}
    (hpos : pos < stop) : Arrives stop (Scan.close data going pos ended byte) := by
  have hle : (Scan.close data going pos ended byte).next ≤ pos + 1 := by
    simp only [Scan.close]
    split
    · split <;> simp only <;> omega
    · exact Nat.le_refl _
  have hrun := Scan.close_run data going pos ended byte
  exact (Nat.lt_or_eq_of_le (Nat.le_trans hle hpos)).imp_right fun hlast => ⟨hlast, hrun⟩

/-! ## Going on with a run -/

theorem step_other {going : OpenRun}
    (hother : container.charset.containsByte (data.getD pos 0) = false) :
    Scan.step container data pos (some going) =
      Scan.close data going pos true (data.getD pos 0) := by
  simp only [Scan.step, Scan.goOn, Scan.settle, hother]
  rw [if_neg (by simp), if_pos (by simp)]
  rfl

theorem goOn_continues {start : Nat} (h : Continues container data pos) :
    Scan.goOn data ⟨start, true⟩ pos (!container.charset.containsByte (data.getD pos 0))
        (data.getD pos 0) =
      Scan.settle data ⟨start, true⟩ (pos + 1) false (data.getD pos 0) := by
  obtain ⟨hchar, hlt, hnext⟩ := h
  rw [Scan.goOn, hchar, hnext, if_pos (by simp), if_pos (by simpa using hlt)]

theorem goOn_broken {start : Nat} (h : ¬ Continues container data pos) :
    Scan.goOn data ⟨start, true⟩ pos (!container.charset.containsByte (data.getD pos 0))
        (data.getD pos 0) =
      Scan.settle data ⟨start, true⟩ pos true (data.getD pos 0) := by
  unfold Scan.goOn
  cases hchar : container.charset.containsByte (data.getD pos 0) with
  | false => rfl
  | true =>
      have hnext : ¬ (pos + 1 < data.size ∧ data.getD (pos + 1) 0 = 0) :=
        fun hnext => h ⟨hchar, hnext⟩
      rw [Bool.not_true, if_pos (by simp), if_neg (by simpa using hnext)]

end ScriptRecord.Proofs.Slot.Turns
