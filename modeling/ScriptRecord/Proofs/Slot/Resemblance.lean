import ScriptRecord.Proofs.Slot.Cells
import Mathlib.Data.List.Forall2
import Mathlib.Data.Option.Basic
/-!
# Payloads that look the same

Where the runs of a payload lie depends on which of its bytes are zero, which are
allowed, and on whether the last one is the byte that ends scripts.  Payloads that
agree on these have the same runs (`runs_alike`), cell by cell: only whether a
two-byte run takes half a cell with it at the end may differ.
-/

namespace ScriptRecord.Proofs.Slot.Resemblance

open ScriptRecord.Proofs.Slot.Cells

/-- Payloads that the pass cannot tell apart. -/
structure Alike (container : Container) (data other : Bytes) : Prop where
  size_eq : other.size = data.size
  zero : ∀ pos, other.getD pos 0 = 0 ↔ data.getD pos 0 = 0
  allowed : ∀ pos, container.charset.containsByte (other.getD pos 0) =
    container.charset.containsByte (data.getD pos 0)
  last : other.getD (data.size - 1) 0 = Scan.sentinel ↔ data.getD (data.size - 1) 0 = Scan.sentinel

/-- Runs of the same cells. -/
structure SameCells (run other : Run) : Prop where
  start_eq : other.start = run.start
  wide_eq : other.wide = run.wide
  cells_eq : cells other = cells run

/-- Turns after which the pass goes on in the same way. -/
structure SameTurn (turn other : Scan.Turn) : Prop where
  next_eq : other.next = turn.next
  run_eq : other.run = turn.run
  found : Option.Rel SameCells turn.found other.found

variable {container : Container} {data other : Bytes} {run : OpenRun} {pos : Nat} {ended : Bool}
  {byte otherByte : UInt8}

theorem found_close_isSome : (Scan.close data run pos ended byte).found.isSome =
    decide (Scan.minimum run.wide < pos - run.start) := by
  unfold Scan.close
  by_cases hmin : Scan.minimum run.wide < pos - run.start <;> simp [hmin]

theorem close_alike (hsize : other.size = data.size) (hpos : pos < data.size)
    (htakes : run.wide = false →
      takesLast other pos ended otherByte = takesLast data pos ended byte) :
    SameTurn (Scan.close data run pos ended byte) (Scan.close other run pos ended otherByte) where
  next_eq := by
    simp only [Scan.close]
    split <;> rfl
  run_eq := by rw [Scan.close_run, Scan.close_run]
  found := by
    have hsome := @found_close_isSome data run pos ended byte
    rw [← @found_close_isSome other run pos ended otherByte] at hsome
    cases hclosed : (Scan.close data run pos ended byte).found with
    | none =>
        rw [hclosed, Option.isSome_none, eq_comm, Option.isSome_eq_false_iff,
          Option.isNone_iff_eq_none] at hsome
        rw [hsome]
        exact .none
    | some closed =>
        rw [hclosed, Option.isSome_some, eq_comm, Option.isSome_iff_exists] at hsome
        obtain ⟨otherClosed, hother⟩ := hsome
        obtain ⟨hstart, hwide, hcells⟩ := cells_close hpos hclosed
        obtain ⟨hstart', hwide', hcells'⟩ := cells_close (hsize ▸ hpos) hother
        rw [hother]
        refine .some ⟨hstart'.trans hstart.symm, hwide'.trans hwide.symm, ?_⟩
        rw [hcells, hcells']
        by_cases hrun : run.wide = true
        · rw [if_pos hrun, if_pos hrun]
        · rw [if_neg hrun, if_neg hrun, htakes (Bool.not_eq_true _ ▸ hrun)]

theorem settle_alike (hsize : other.size = data.size) (hpos : pos < data.size)
    (htakes : run.wide = false →
      takesLast other pos ended otherByte = takesLast data pos ended byte) :
    SameTurn (Scan.settle data run pos ended byte) (Scan.settle other run pos ended otherByte) := by
  unfold Scan.settle
  rw [hsize]
  split
  · exact close_alike hsize hpos htakes
  · exact ⟨rfl, rfl, .none⟩

theorem zero_beq (halike : Alike container data other) (pos : Nat) :
    (other.getD pos 0 == 0) = (data.getD pos 0 == 0) := by
  rw [Bool.eq_iff_iff, beq_iff_eq, beq_iff_eq]
  exact halike.zero pos

theorem goOn_alike (halike : Alike container data other) (hpos : pos < data.size)
    (htakes : run.wide = false →
      takesLast other pos ended otherByte = takesLast data pos ended byte) :
    SameTurn (Scan.goOn data run pos ended byte) (Scan.goOn other run pos ended otherByte) := by
  have hsize := halike.size_eq
  unfold Scan.goOn
  split
  · rename_i hwide
    have hnarrow (pos : Nat) (ended : Bool) : run.wide = false →
        takesLast other pos ended otherByte = takesLast data pos ended byte := by
      simp only [Bool.and_eq_true] at hwide
      intro hnot
      rw [hwide.1] at hnot
      cases hnot
    rw [hsize, zero_beq halike]
    split
    · rename_i hnext
      simp only [Bool.and_eq_true, decide_eq_true_eq] at hnext
      exact settle_alike hsize hnext.1 (hnarrow _ _)
    · exact settle_alike hsize hpos (hnarrow _ _)
  · exact settle_alike hsize hpos htakes

theorem takesLast_alike (halike : Alike container data other) (pos : Nat) (ended : Bool) :
    takesLast other pos ended (other.getD pos 0) = takesLast data pos ended (data.getD pos 0) := by
  unfold takesLast
  rw [halike.size_eq]
  by_cases hlast : pos + 1 = data.size
  · have hpos : pos = data.size - 1 := by omega
    have hbyte : (other.getD pos 0 != Scan.sentinel) = (data.getD pos 0 != Scan.sentinel) := by
      rw [Bool.eq_iff_iff, bne_iff_ne, bne_iff_ne, hpos]
      exact not_congr halike.last
    rw [hbyte]
  · simp [hlast]

theorem step_alike (halike : Alike container data other) (hpos : pos < data.size)
    (run : Option OpenRun) :
    SameTurn (Scan.step container data pos run) (Scan.step container other pos run) := by
  have htakes := takesLast_alike halike pos
  unfold Scan.step
  cases run with
  | some run =>
      dsimp only
      rw [halike.allowed]
      exact goOn_alike halike hpos fun _ => htakes _
  | none =>
      have hwide : Scan.opensWide container other pos = Scan.opensWide container data pos := by
        simp only [Scan.opensWide, halike.size_eq, zero_beq halike]
      have hafter : Scan.opensWideAfter container other pos =
          Scan.opensWideAfter container data pos := by
        simp only [Scan.opensWideAfter, halike.size_eq, zero_beq halike]
      dsimp only
      rw [hwide, hafter, halike.allowed pos, halike.allowed (pos + 1)]
      by_cases hopens : Scan.opensWide container data pos = true
      · rw [if_pos hopens, if_pos hopens]
        simp only [Scan.opensWide, Bool.and_eq_true, decide_eq_true_eq] at hopens
        exact goOn_alike halike (by omega) fun hnot => by cases hnot
      · rw [if_neg hopens, if_neg hopens]
        by_cases hchar : container.charset.containsByte (data.getD pos 0) = true
        · rw [if_pos hchar, if_pos hchar]
          exact goOn_alike halike hpos fun _ => htakes _
        · rw [if_neg hchar, if_neg hchar]
          exact ⟨rfl, rfl, .none⟩

theorem runsFrom_alike (halike : Alike container data other) (pos : Nat) (run : Option OpenRun)
    {found otherFound : Array Run}
    (hfound : List.Forall₂ SameCells found.toList otherFound.toList) :
    List.Forall₂ SameCells (Scan.runsFrom container data pos run found).toList
      (Scan.runsFrom container other pos run otherFound).toList := by
  fun_induction Scan.runsFrom container data pos run found generalizing otherFound with
  | case1 pos run found hpos turn =>
      rename_i ih
      have hturn : SameTurn turn (Scan.step container other pos run) := step_alike halike hpos run
      rw [Scan.runsFrom.eq_1 container other, if_pos (halike.size_eq.symm ▸ hpos)]
      dsimp only
      rw [hturn.next_eq, hturn.run_eq]
      apply ih
      rw [Array.toList_append, Array.toList_append, Option.toList_toArray, Option.toList_toArray]
      apply List.rel_append hfound
      have hnew := hturn.found
      generalize turn.found = new at hnew
      generalize (Scan.step container other pos run).found = otherNew at hnew
      cases hnew with
      | none => exact .nil
      | some hsame => exact .cons hsame .nil
  | case2 pos run found hpos =>
      rw [Scan.runsFrom.eq_1 container other, if_neg (halike.size_eq.symm ▸ hpos)]
      exact hfound

/-- Payloads that look the same have the same runs. -/
theorem runs_alike (halike : Alike container data other) :
    List.Forall₂ SameCells (runs container data).toList (runs container other).toList :=
  runsFrom_alike halike 0 none .nil

end ScriptRecord.Proofs.Slot.Resemblance
