import ScriptRecord.Proofs.Slot.Cells
import Mathlib.Data.Nat.PSub
/-!
# How far the pass goes

The pass over a payload comes to an end after two turns for each byte at the most, and
looks at no byte outside of the payload (`pass_bounded`).  Its place alone does not say
how many turns are left: a turn that closes a two-byte run in the middle of a cell goes
back by a byte, and stays where it was.  But then no run is under way, so the next turn
moves on (`step_progresses`).

* `step?`: a turn that fails where it would look outside or go below zero.
* `runsWithin?`: the runs, if so many of these turns come to the end.
* `Reached`: the places of the pass, with the number of turns up to there.
-/

namespace ScriptRecord.Proofs.Slot.Bounds

open ScriptRecord.Proofs.Slot.Cells

/-! ## Turns that check where they look -/

/-- Whether a zero stands at `pos`.  The payload is looked at only if `guard` holds. -/
def zero? (data : Bytes) (guard : Bool) (pos : Nat) : Option Bool :=
  if guard then data[pos]?.map (· == 0) else some false

/-- Close a run, where neither its span nor the step back may be below zero. -/
def close? (data : Bytes) (run : OpenRun) (pos : Nat) (ended : Bool) (byte : UInt8) :
    Option Scan.Turn := do
  let span ← pos.psub run.start
  if Scan.minimum run.wide < span then
    let stop ← if run.wide && span % 2 = 1 then pos.ppred else some pos
    let taken :=
      if !ended && stop + 1 = data.size && byte != Scan.sentinel then stop + 1 else stop
    some ⟨stop + 1, none, some ⟨run.start, taken, run.wide⟩⟩
  else some ⟨pos + 1, none, none⟩

def settle? (data : Bytes) (run : OpenRun) (pos : Nat) (ended : Bool) (byte : UInt8) :
    Option Scan.Turn :=
  if ended || pos + 1 = data.size then close? data run pos ended byte
  else some ⟨pos + 1, some run, none⟩

def goOn? (data : Bytes) (run : OpenRun) (pos : Nat) (ended : Bool) (byte : UInt8) :
    Option Scan.Turn := do
  if run.wide && !ended then
    if ← zero? data (pos + 1 < data.size) (pos + 1) then settle? data run (pos + 1) false byte
    else settle? data run pos true byte
  else settle? data run pos ended byte

/-- One turn of the pass, where every byte that it looks at must be there. -/
def step? (container : Container) (data : Bytes) (pos : Nat) (run : Option OpenRun) :
    Option Scan.Turn := do
  let byte ← data[pos]?
  let allowed := container.charset.containsByte byte
  match run with
  | some run => goOn? data run pos (!allowed) byte
  | none =>
    if ← zero? data (container.allowsWide && Scan.zeroFirst container && byte == 0 &&
        pos + 2 < data.size) (pos + 2) then
      let byte ← data[pos + 1]?
      goOn? data ⟨pos, true⟩ (pos + 1) (!container.charset.containsByte byte) byte
    else if allowed then
      let wide ← zero? data (container.allowsWide && !Scan.zeroFirst container &&
        pos + 2 < data.size) (pos + 1)
      goOn? data ⟨pos, wide⟩ pos false byte
    else some ⟨pos + 1, none, none⟩

/-- The runs from `pos` on, after those in `found`, if so many turns come to the end. -/
def runsWithin? (container : Container) (data : Bytes) :
    Nat → Nat → Option OpenRun → Array Run → Option (Array Run)
  | 0, pos, _, found => if pos < data.size then none else some found
  | turns + 1, pos, run, found =>
    if pos < data.size then do
      let turn ← step? container data pos run
      runsWithin? container data turns turn.next turn.run (found ++ turn.found.toArray)
    else some found

/-! ## The places of the pass -/

/-- The pass comes to a place after so many turns. -/
inductive Reached (container : Container) (data : Bytes) : Nat → Nat → Option OpenRun → Prop
  | start : Reached container data 0 0 none
  | turn {turns pos : Nat} {run : Option OpenRun} (reached : Reached container data turns pos run)
      (inside : pos < data.size) :
      Reached container data (turns + 1) (Scan.step container data pos run).next
        (Scan.step container data pos run).run

/-- A turn that closes a two-byte run of more than eight bytes in the middle of a cell, and
stays where it is. -/
structure CutsBack (run : OpenRun) (pos : Nat) (turn : Scan.Turn) : Prop where
  wide : run.wide = true
  long : run.start + 8 < pos
  odd : (pos - run.start) % 2 = 1
  turn_eq : turn = ⟨pos, none, some ⟨run.start, pos - 1, true⟩⟩

/-- A turn that moves on, or one that stays with no run under way and lets the next one
move on. -/
inductive Progress (container : Container) (data : Bytes) (pos : Nat) : Option OpenRun → Prop
  | onward {run : Option OpenRun} (lt : pos < (Scan.step container data pos run).next) :
      Progress container data pos run
  | cutBack {run : OpenRun} (cuts : CutsBack run pos (Scan.step container data pos (some run)))
      (next : pos < (Scan.step container data pos none).next) :
      Progress container data pos (some run)

/-- No more turns than this are left. -/
def turnsLeft (data : Bytes) (pos : Nat) (run : Option OpenRun) : Nat :=
  2 * (data.size - pos) + run.isSome.toNat

variable {container : Container} {data : Bytes} {pos turns : Nat} {run : OpenRun} {ended : Bool}
  {byte : UInt8}

/-! ## Looking inside only -/

theorem getElem?_eq_getD (h : pos < data.size) : data[pos]? = some (data.getD pos 0) := by
  rw [Array.getElem?_eq_getElem h, Array.getElem_eq_getD 0]

theorem zero?_eq {guard : Bool} (h : guard = true → pos < data.size) :
    zero? data guard pos = some (guard && data.getD pos 0 == 0) := by
  cases guard with
  | false => rfl
  | true => rw [zero?, if_pos rfl, getElem?_eq_getD (h rfl), Option.map_some, Bool.true_and]

theorem close?_eq (hstart : run.start ≤ pos) :
    close? data run pos ended byte = some (Scan.close data run pos ended byte) := by
  have hleast : 4 ≤ Scan.minimum run.wide := by cases run.wide <;> decide
  simp only [close?, Scan.close, Nat.psub_eq_sub hstart, Option.bind_eq_bind, Option.bind_some]
  split
  · rename_i hlong
    have hpred : pos.ppred = some (pos - 1) := Nat.ppred_eq_pred (by omega)
    split
    · rw [hpred, Option.bind_some]
    · rfl
  · rfl

theorem settle?_eq (hstart : run.start ≤ pos) :
    settle? data run pos ended byte = some (Scan.settle data run pos ended byte) := by
  unfold settle? Scan.settle
  split
  · exact close?_eq hstart
  · rfl

theorem goOn?_eq (hstart : run.start ≤ pos) :
    goOn? data run pos ended byte = some (Scan.goOn data run pos ended byte) := by
  have hzero : zero? data (pos + 1 < data.size) (pos + 1) =
      some (pos + 1 < data.size && data.getD (pos + 1) 0 == 0) :=
    zero?_eq of_decide_eq_true
  unfold goOn? Scan.goOn
  split
  · rw [hzero, Option.bind_eq_bind, Option.bind_some]
    split
    · exact settle?_eq (Nat.le_succ_of_le hstart)
    · exact settle?_eq hstart
  · exact settle?_eq hstart

theorem step?_eq {run : Option OpenRun} (hpos : pos < data.size)
    (hstart : ∀ going, run = some going → going.start ≤ pos) :
    step? container data pos run = some (Scan.step container data pos run) := by
  simp only [step?, getElem?_eq_getD hpos, Option.bind_eq_bind, Option.bind_some]
  cases run with
  | some run => exact goOn?_eq (hstart run rfl)
  | none =>
      have hopens : zero? data (container.allowsWide && Scan.zeroFirst container &&
          data.getD pos 0 == 0 && pos + 2 < data.size) (pos + 2) =
          some (Scan.opensWide container data pos) := by
        apply zero?_eq
        intro hguard
        simp only [Bool.and_eq_true, decide_eq_true_eq] at hguard
        exact hguard.2
      have hafter : zero? data (container.allowsWide && !Scan.zeroFirst container &&
          pos + 2 < data.size) (pos + 1) = some (Scan.opensWideAfter container data pos) := by
        apply zero?_eq
        intro hguard
        simp only [Bool.and_eq_true, decide_eq_true_eq] at hguard
        exact Nat.lt_of_succ_lt hguard.2
      simp only [hopens, hafter, Option.bind_some, Scan.step]
      split
      · rename_i hwide
        have hnext : pos + 1 < data.size := by
          simp only [Scan.opensWide, Bool.and_eq_true, decide_eq_true_eq] at hwide
          omega
        rw [getElem?_eq_getD hnext, Option.bind_some]
        exact goOn?_eq (Nat.le_succ pos)
      · split
        · exact goOn?_eq (Nat.le_refl pos)
        · rfl

/-! ## Every turn counts -/

theorem close_cutsBack (hpos : pos < data.size)
    (h : (Scan.close data run pos ended byte).next ≤ pos) :
    CutsBack run pos (Scan.close data run pos ended byte) := by
  obtain ⟨start, wide⟩ := run
  simp only [Scan.close] at h ⊢
  split at h
  case isTrue hlong =>
    rw [if_pos hlong]
    split at h
    case isTrue hcut =>
      obtain ⟨rfl, hodd⟩ : wide = true ∧ (pos - start) % 2 = 1 := by simpa using hcut
      have hspan : 8 < pos - start := hlong
      have hstart : start + 8 < pos := by omega
      have hback : pos - 1 + 1 = pos := by omega
      have hlast : ¬ pos = data.size := Nat.ne_of_lt hpos
      rw [if_pos hcut]
      refine ⟨rfl, hstart, hodd, ?_⟩
      simp only [hback, hlast, decide_false, Bool.and_false, Bool.false_and, Bool.false_eq_true,
        if_false]
    case isFalse => exact absurd h (Nat.not_succ_le_self pos)
  case isFalse => exact absurd h (Nat.not_succ_le_self pos)

theorem settle_cutsBack (hpos : pos < data.size)
    (h : (Scan.settle data run pos ended byte).next ≤ pos) :
    CutsBack run pos (Scan.settle data run pos ended byte) := by
  unfold Scan.settle at h ⊢
  split at h
  case isTrue hclose =>
    rw [if_pos hclose]
    exact close_cutsBack hpos h
  case isFalse => exact absurd h (Nat.not_succ_le_self pos)

theorem goOn_cutsBack (hpos : pos < data.size)
    (h : (Scan.goOn data run pos ended byte).next ≤ pos) :
    CutsBack run pos (Scan.goOn data run pos ended byte) := by
  unfold Scan.goOn at h ⊢
  split at h
  case isTrue hwide =>
    rw [if_pos hwide]
    split at h
    case isTrue =>
      -- Once past the zero behind a character the pass does not come back to the character.
      have hle := Scan.le_settle_next data run (pos + 1) false byte
      omega
    case isFalse hbroken =>
      rw [if_neg hbroken]
      exact settle_cutsBack hpos h
  case isFalse hother =>
    rw [if_neg hother]
    exact settle_cutsBack hpos h

theorem lt_step_none_next (container : Container) (data : Bytes) (pos : Nat) :
    pos < (Scan.step container data pos none).next :=
  (Scan.step_progress container data pos none).resolve_right fun h => h.2.1 rfl

theorem step_progresses (hpos : pos < data.size) (run : Option OpenRun) :
    Progress container data pos run := by
  by_cases hlt : pos < (Scan.step container data pos run).next
  · exact .onward hlt
  · cases run with
    | none => exact absurd (lt_step_none_next container data pos) hlt
    | some run =>
        exact .cutBack (goOn_cutsBack hpos (Nat.le_of_not_lt hlt))
          (lt_step_none_next container data pos)

/-- Four letters with zeros in front and one more zero: the pass stays where a fifth would be. -/
example :
    let container : Container := ⟨.pc, .big, .ofString "EHL"⟩
    let data : Bytes := #[0, 0x48, 0, 0x45, 0, 0x4C, 0, 0x4C, 0, 0]
    CutsBack ⟨0, true⟩ 9 (Scan.step container data 9 (some ⟨0, true⟩)) :=
  ⟨rfl, by decide, rfl, by decide +kernel⟩

theorem Progress.turnsLeft_lt {run : Option OpenRun} (h : Progress container data pos run)
    (hpos : pos < data.size) :
    turnsLeft data (Scan.step container data pos run).next (Scan.step container data pos run).run <
      turnsLeft data pos run := by
  unfold turnsLeft
  cases h with
  | onward hlt =>
      have hrun := Bool.toNat_le (Scan.step container data pos run).run.isSome
      omega
  | cutBack hcuts => simp [hcuts.turn_eq]

/-! ## The whole pass -/

theorem Reached.going {run : Option OpenRun} (h : Reached container data turns pos run) :
    ∀ going, run = some going → Going container data going pos := by
  induction h with
  | start => exact nofun
  | turn _ hinside ih => exact (step_sound hinside ih).going

theorem start_le_of_going (h : Going container data run pos) : run.start ≤ pos := by
  cases h with
  | narrow => exact Nat.le_add_right _ _
  | wide => simp only; omega

theorem Reached.turns_le {run : Option OpenRun} (h : Reached container data turns pos run) :
    turns + turnsLeft data pos run ≤ 2 * data.size := by
  induction h with
  | start => exact Nat.le_of_eq (Nat.zero_add _)
  | @turn turns pos run _ hinside ih =>
      have hlt := (@step_progresses container data pos hinside run).turnsLeft_lt hinside
      omega

/-- Turns that check where they look find the same runs, if there are enough of them. -/
theorem runsWithin?_eq {run : Option OpenRun} {found : Array Run}
    (hturns : turnsLeft data pos run ≤ turns)
    (hgoing : ∀ going, run = some going → Going container data going pos) :
    runsWithin? container data turns pos run found =
      some (Scan.runsFrom container data pos run found) := by
  induction turns generalizing pos run found with
  | zero =>
      have hend : ¬ pos < data.size := by
        unfold turnsLeft at hturns
        omega
      rw [runsWithin?, if_neg hend, Scan.runsFrom, if_neg hend]
  | succ turns ih =>
      rw [runsWithin?, Scan.runsFrom]
      split
      · rename_i hpos
        have hlt := (@step_progresses container data pos hpos run).turnsLeft_lt hpos
        rw [step?_eq hpos fun going h => start_le_of_going (hgoing going h), Option.bind_eq_bind,
          Option.bind_some]
        exact ih (by omega) (step_sound hpos hgoing).going
      · rfl

/-- The pass ends after two turns for each byte at the most, with the same runs if it checks
where it looks.  Wherever it comes to, the next turn moves on or lets the one behind it move
on, and looks inside the payload only; and all runs lie inside. -/
theorem pass_bounded (container : Container) (data : Bytes) :
    runsWithin? container data (2 * data.size) 0 none #[] = some (runs container data) ∧
      (∀ turns pos run, Reached container data turns pos run →
        turns ≤ 2 * data.size ∧
        (pos < data.size → Progress container data pos run ∧
          step? container data pos run = some (Scan.step container data pos run))) ∧
      ∀ run ∈ runs container data, run.start ≤ run.stop ∧ run.stop ≤ data.size := by
  refine ⟨?_, ?_, ?_⟩
  · exact runsWithin?_eq (Nat.le_refl _) nofun
  · intro turns pos run hreached
    have hstart (going : OpenRun) (h : run = some going) : going.start ≤ pos :=
      start_le_of_going (hreached.going going h)
    exact ⟨Nat.le_of_add_right_le hreached.turns_le,
      fun hpos => ⟨step_progresses hpos run, step?_eq hpos hstart⟩⟩
  · intro run hrun
    have hsound := (runs_sound container data).sound run (Array.mem_toList_iff.mpr hrun)
    exact ⟨Nat.le_of_lt hsound.start_lt, hsound.stop_le⟩

end ScriptRecord.Proofs.Slot.Bounds
