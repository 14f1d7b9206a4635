import ScriptRecord.Container
import ScriptRecord.Bytes
/-!
# Runs of text

Where the text of a payload lies is found in one pass over its bytes. A run is a stretch of allowed
bytes, or of two-byte cells with a zero and an allowed byte, that is longer than a least length.

* `Scan.step`: one turn of the pass, which goes on or closes a run.
* `Scan.step_progress`: every turn moves on, or closes a run and stays.
* `runs`: the runs of a payload in order.
-/

namespace ScriptRecord

/-- A stretch of text, from `start` up to `stop`. -/
structure Run where
  start : Nat
  stop : Nat
  wide : Bool
  deriving DecidableEq, Repr

/-- A run whose end has not been found yet. -/
structure OpenRun where
  start : Nat
  wide : Bool
  deriving DecidableEq, Repr

namespace Scan

/-- A run is reported if it is longer than this, in bytes. -/
def minimum (wide : Bool) : Nat :=
  if wide then 8 else 4

/-- A run that reaches the end of the payload leaves this byte out if it is the last. -/
def sentinel : UInt8 := 0x24

/-- Whether two-byte text has its zeros in front. -/
def zeroFirst (container : Container) : Bool :=
  !container.allowsWide || container.order = .big

/-- What one turn of the pass does. -/
structure Turn where
  /-- Where the next turn starts. -/
  next : Nat
  /-- The run that the next turn goes on with. -/
  run : Option OpenRun
  /-- The run that this turn has found. -/
  found : Option Run
  deriving DecidableEq, Repr

/-- Close a run at `pos`. If it `ended` there, the byte at `pos` is not text; otherwise it is the
last byte of the payload. A two-byte run is cut to whole cells. -/
def close (data : Bytes) (run : OpenRun) (pos : Nat) (ended : Bool) (byte : UInt8) : Turn :=
  let span := pos - run.start
  if minimum run.wide < span then
    let stop := if run.wide && span % 2 = 1 then pos - 1 else pos
    let taken := if !ended && stop + 1 = data.size && byte != sentinel then stop + 1 else stop
    ⟨stop + 1, none, some ⟨run.start, taken, run.wide⟩⟩
  else ⟨pos + 1, none, none⟩

/-- Close a run at `pos` if it has ended there or the payload has. -/
def settle (data : Bytes) (run : OpenRun) (pos : Nat) (ended : Bool) (byte : UInt8) : Turn :=
  if ended || pos + 1 = data.size then close data run pos ended byte
  else ⟨pos + 1, some run, none⟩

/-- Go on with a run at `pos`, which holds `byte`. A two-byte run goes on past the zero after the
byte, and has ended if there is none. -/
def goOn (data : Bytes) (run : OpenRun) (pos : Nat) (ended : Bool) (byte : UInt8) : Turn :=
  if run.wide && !ended then
    if pos + 1 < data.size && data.getD (pos + 1) 0 == 0 then settle data run (pos + 1) false byte
    else settle data run pos true byte
  else settle data run pos ended byte

/-- Whether two-byte text with its zeros in front seems to start at `pos`: a zero, and another two
bytes on. -/
def opensWide (container : Container) (data : Bytes) (pos : Nat) : Bool :=
  container.allowsWide && zeroFirst container && data.getD pos 0 == 0 &&
    decide (pos + 2 < data.size) && data.getD (pos + 2) 0 == 0

/-- Whether the text that starts at `pos` with a character is two-byte text with its zeros
behind. -/
def opensWideAfter (container : Container) (data : Bytes) (pos : Nat) : Bool :=
  container.allowsWide && !zeroFirst container && decide (pos + 2 < data.size) &&
    data.getD (pos + 1) 0 == 0

/-- One turn of the pass at `pos`. -/
def step (container : Container) (data : Bytes) (pos : Nat) (run : Option OpenRun) : Turn :=
  let byte := data.getD pos 0
  let allowed := container.charset.containsByte byte
  match run with
  | some run => goOn data run pos (!allowed) byte
  | none =>
    if opensWide container data pos then
      let byte := data.getD (pos + 1) 0
      goOn data ⟨pos, true⟩ (pos + 1) (!container.charset.containsByte byte) byte
    else if allowed then goOn data ⟨pos, opensWideAfter container data pos⟩ pos false byte
    else ⟨pos + 1, none, none⟩

theorem close_run (data : Bytes) (run : OpenRun) (pos : Nat) (ended : Bool) (byte : UInt8) :
    (close data run pos ended byte).run = none := by
  simp only [close]
  split <;> rfl

theorem le_close_next (data : Bytes) (run : OpenRun) (pos : Nat) (ended : Bool) (byte : UInt8) :
    pos ≤ (close data run pos ended byte).next := by
  simp only [close]
  split
  · split <;> simp only <;> omega
  · simp only
    omega

theorem lt_close_next (data : Bytes) (run : OpenRun) (pos : Nat) (ended : Bool) (byte : UInt8)
    (h : pos ≤ run.start + 4) : pos < (close data run pos ended byte).next := by
  have : 4 ≤ minimum run.wide := by cases run.wide <;> decide
  simp only [close]
  split
  · omega
  · simp only
    omega

theorem le_settle_next (data : Bytes) (run : OpenRun) (pos : Nat) (ended : Bool) (byte : UInt8) :
    pos ≤ (settle data run pos ended byte).next := by
  unfold settle
  split
  · exact le_close_next ..
  · exact Nat.le_succ pos

theorem lt_settle_next (data : Bytes) (run : OpenRun) (pos : Nat) (ended : Bool) (byte : UInt8)
    (h : pos ≤ run.start + 4) : pos < (settle data run pos ended byte).next := by
  unfold settle
  split
  · exact lt_close_next _ _ _ _ _ h
  · exact Nat.lt_succ_self pos

theorem settle_run (data : Bytes) (run : OpenRun) (pos : Nat) (ended : Bool) (byte : UInt8) :
    (settle data run pos ended byte).run = none ∨
      pos < (settle data run pos ended byte).next := by
  unfold settle
  split
  · exact .inl (close_run ..)
  · exact .inr (Nat.lt_succ_self pos)

theorem lt_goOn_next (data : Bytes) (run : OpenRun) (pos : Nat) (ended : Bool) (byte : UInt8)
    (h : pos ≤ run.start + 3) : pos < (goOn data run pos ended byte).next := by
  unfold goOn
  split
  · split
    · have := le_settle_next data run (pos + 1) false byte
      omega
    · exact lt_settle_next _ _ _ _ _ (by omega)
  · exact lt_settle_next _ _ _ _ _ (by omega)

theorem goOn_progress (data : Bytes) (run : OpenRun) (pos : Nat) (ended : Bool) (byte : UInt8) :
    pos < (goOn data run pos ended byte).next ∨
      (pos = (goOn data run pos ended byte).next ∧ (goOn data run pos ended byte).run = none) := by
  have stay (ended : Bool) : pos < (settle data run pos ended byte).next ∨
      (pos = (settle data run pos ended byte).next ∧
        (settle data run pos ended byte).run = none) := by
    have le := le_settle_next data run pos ended byte
    rcases settle_run data run pos ended byte with h | h
    · rcases Nat.lt_or_eq_of_le le with lt | eq
      · exact .inl lt
      · exact .inr ⟨eq, h⟩
    · exact .inl h
  unfold goOn
  split
  · split
    · have := le_settle_next data run (pos + 1) false byte
      exact .inl (by omega)
    · exact stay true
  · exact stay ended

/-- Every turn moves on, or closes the run it was given and stays where it is. -/
theorem step_progress (container : Container) (data : Bytes) (pos : Nat) (run : Option OpenRun) :
    pos < (step container data pos run).next ∨
      (pos = (step container data pos run).next ∧ run ≠ none ∧
        (step container data pos run).run = none) := by
  cases run with
  | some run =>
    rcases goOn_progress data run pos (!container.charset.containsByte (data.getD pos 0))
      (data.getD pos 0) with h | ⟨h, hrun⟩
    · exact .inl h
    · exact .inr ⟨h, by simp, hrun⟩
  | none =>
    refine .inl ?_
    simp only [step]
    split
    · exact Nat.lt_of_succ_lt (lt_goOn_next _ _ _ _ _ (Nat.le_add_right (pos + 1) 2))
    · split
      · exact lt_goOn_next _ _ _ _ _ (Nat.le_add_right pos 3)
      · exact Nat.lt_succ_self pos

/-- The runs from `pos` on, after those in `found`. -/
def runsFrom (container : Container) (data : Bytes) (pos : Nat) (run : Option OpenRun)
    (found : Array Run) : Array Run :=
  if pos < data.size then
    let turn := step container data pos run
    runsFrom container data turn.next turn.run (found ++ turn.found.toArray)
  else found
termination_by 2 * (data.size - pos) + (if run = none then 0 else 1)
decreasing_by
  rcases step_progress container data pos run with h | ⟨h, hrun, hnone⟩
  · split <;> split <;> omega
  · simp only [hrun, hnone, ← h, if_true, if_false]
    omega

end Scan

/-- The runs of text in a payload, in order. -/
def runs (container : Container) (data : Bytes) : Array Run :=
  Scan.runsFrom container data 0 none #[]

end ScriptRecord
