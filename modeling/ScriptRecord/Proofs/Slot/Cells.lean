import ScriptRecord.Slot.Run
import Mathlib.Data.Nat.Basic
/-!
# Runs are text

Text stands in cells: an allowed byte, or an allowed byte with a zero on the side
that the byte order says.  What the pass over a payload carries from turn to turn
(`Going`) is that the run under way is text up to its next character.  From one turn
(`step_sound`) follows, by induction over the pass, that the runs of a payload are
text inside of it and lie one behind the other (`runs_sound`).
-/

namespace ScriptRecord.Proofs.Slot.Cells

/-- Bytes of a cell. -/
def width (wide : Bool) : Nat :=
  if wide then 2 else 1

@[simp] theorem width_narrow : width false = 1 := rfl

@[simp] theorem width_wide : width true = 2 := rfl

/-- Where in a two-byte cell the zero is. -/
def zeroAt (container : Container) : Nat :=
  if Scan.zeroFirst container then 0 else 1

/-- Where in a two-byte cell the character is. -/
def charAt (container : Container) : Nat :=
  if Scan.zeroFirst container then 1 else 0

/-- A character stands at this position. -/
structure Cell (container : Container) (data : Bytes) (wide : Bool) (pos : Nat) : Prop where
  inside : pos + width wide ≤ data.size
  zero : wide = true → data.getD (pos + zeroAt container) 0 = 0
  char : container.charset.containsByte
    (data.getD (pos + if wide then charAt container else 0) 0) = true

/-- So many characters stand here one after another. -/
def IsText (container : Container) (data : Bytes) (wide : Bool) (start count : Nat) : Prop :=
  ∀ i < count, Cell container data wide (start + width wide * i)

/-- Number of whole cells of a run. -/
def cells (run : Run) : Nat :=
  (run.stop - run.start) / width run.wide

/-- A run under way whose next character is expected at a position. -/
inductive Going (container : Container) (data : Bytes) : OpenRun → Nat → Prop
  | narrow {start count : Nat} (text : IsText container data false start count) :
      Going container data ⟨start, false⟩ (start + count)
  | wide {start count : Nat} (allowed : container.allowsWide = true)
      (text : IsText container data true start count)
      (zero : Scan.zeroFirst container = true → data.getD (start + 2 * count) 0 = 0) :
      Going container data ⟨start, true⟩ (start + 2 * count + charAt container)

/-- A run that is text inside the payload.  If its cells reach the end, the last byte is
not the one that ends scripts. -/
structure Sound (container : Container) (data : Bytes) (run : Run) : Prop where
  allowed : run.wide = true → container.allowsWide = true
  text : IsText container data run.wide run.start (cells run)
  start_lt : run.start < run.stop
  stop_le : run.stop ≤ data.size
  last : run.start + width run.wide * cells run = data.size →
    run.wide = false ∧ data.getD (data.size - 1) 0 ≠ Scan.sentinel

/-- Runs that start at this position or later come after those before it. -/
def floor (pos : Nat) : Option OpenRun → Nat
  | none => pos
  | some run => run.start

/-- A turn that goes on with text, and whose run is text from `low` on. -/
structure SoundTurn (container : Container) (data : Bytes) (low : Nat) (turn : Scan.Turn) :
    Prop where
  going : ∀ run, turn.run = some run → Going container data run turn.next
  low_le : low ≤ floor turn.next turn.run
  found : ∀ run, turn.found = some run →
    Sound container data run ∧ low ≤ run.start ∧ run.stop ≤ floor turn.next turn.run

variable {container : Container} {data : Bytes} {run : OpenRun} {pos : Nat} {ended : Bool}
  {byte : UInt8}

theorem Sound.end_le {run : Run} (h : Sound container data run) :
    run.start + width run.wide * cells run ≤ run.stop := by
  have hlt := h.start_lt
  have hle : width run.wide * cells run ≤ run.stop - run.start := Nat.mul_div_le _ _
  omega

/-! ## Closing a run -/

/-- Whether a run that is closed at a position takes the byte there with it. -/
def takesLast (data : Bytes) (pos : Nat) (ended : Bool) (byte : UInt8) : Bool :=
  !ended && pos + 1 = data.size && byte != Scan.sentinel

/-- The cells of a run that is closed.  A two-byte run has those that are whole when the
pass gets there, whatever the last byte is. -/
theorem cells_close {closed : Run} (hpos : pos < data.size)
    (h : (Scan.close data run pos ended byte).found = some closed) :
    closed.start = run.start ∧ closed.wide = run.wide ∧
      cells closed = if run.wide then (pos - run.start) / 2
        else pos - run.start + if takesLast data pos ended byte then 1 else 0 := by
  obtain ⟨start, wide⟩ := run
  simp only [Scan.close] at h
  split at h
  case isTrue hmin =>
    cases h
    refine ⟨rfl, rfl, ?_⟩
    cases wide with
    | false =>
        simp only [cells, width, takesLast, Bool.false_and, Bool.false_eq_true, if_false, Nat.div_one]
        by_cases hlast : (!ended && decide (pos + 1 = data.size) && byte != Scan.sentinel) = true
        · simp only [hlast, if_true]
          omega
        · simp only [hlast, Bool.false_eq_true, if_false]
          omega
    | true =>
        simp only [cells, width, Bool.true_and, if_true, decide_eq_true_eq]
        by_cases hodd : (pos - start) % 2 = 1
        · have hlast : pos - 1 + 1 ≠ data.size := by omega
          simp only [hodd, if_true, hlast, decide_false, Bool.and_false, Bool.false_and,
            Bool.false_eq_true, if_false]
          omega
        · simp only [hodd, if_false]
          split <;> omega
  case isFalse => cases h

theorem close_bounds {closed : Run} (hpos : pos < data.size)
    (h : (Scan.close data run pos ended byte).found = some closed) :
    closed.start < closed.stop ∧ closed.stop ≤ data.size ∧
      closed.stop ≤ (Scan.close data run pos ended byte).next := by
  have hleast : 4 ≤ Scan.minimum run.wide := by cases run.wide <;> decide
  simp only [Scan.close] at h ⊢
  split at h
  case isTrue hmin =>
    cases h
    rw [if_pos hmin]
    have hstop (b : Bool) : pos - 1 ≤ (if b then pos - 1 else pos) ∧
        (if b then pos - 1 else pos) ≤ pos := by
      cases b <;> simp
    have hwhole := hstop (run.wide && (pos - run.start) % 2 = 1)
    dsimp only
    generalize (if (run.wide && decide ((pos - run.start) % 2 = 1)) = true then pos - 1 else pos) = whole
      at hwhole
    split <;> omega
  case isFalse => cases h

theorem last_of_close {closed : Run} (hpos : pos < data.size) (hstart : run.start ≤ pos)
    (hbyte : run.wide = false → byte = data.getD pos 0)
    (h : (Scan.close data run pos ended byte).found = some closed)
    (hlast : closed.start + width closed.wide * cells closed = data.size) :
    closed.wide = false ∧ data.getD (data.size - 1) 0 ≠ Scan.sentinel := by
  obtain ⟨hsame, hwide, hcells⟩ := cells_close hpos h
  rw [hsame, hwide, hcells] at hlast
  rw [hwide]
  cases hrun : run.wide with
  | true =>
      -- The cells of a two-byte run stop short of the byte where it is closed.
      rw [hrun, if_pos rfl, width_wide] at hlast
      omega
  | false =>
      rw [hrun, if_neg (by simp), width_narrow] at hlast
      refine ⟨rfl, ?_⟩
      by_cases htakes : takesLast data pos ended byte = true
      · simp only [takesLast, Bool.and_eq_true, decide_eq_true_eq, bne_iff_ne] at htakes
        have hend : data.size - 1 = pos := by omega
        rw [hend, ← hbyte hrun]
        exact htakes.2
      · rw [if_neg htakes] at hlast
        omega

/-- A closed run is sound if what it is closed with is text. -/
theorem soundTurn_close (hpos : pos < data.size) (hstart : run.start ≤ pos)
    (hallowed : run.wide = true → container.allowsWide = true)
    (hbyte : run.wide = false → byte = data.getD pos 0)
    (htext : IsText container data run.wide run.start (if run.wide then (pos - run.start) / 2
      else pos - run.start + if takesLast data pos ended byte then 1 else 0)) :
    SoundTurn container data run.start (Scan.close data run pos ended byte) where
  going := by
    intro other hother
    rw [Scan.close_run] at hother
    cases hother
  low_le := by
    rw [Scan.close_run]
    exact Nat.le_trans hstart (Scan.le_close_next data run pos ended byte)
  found := by
    intro closed hclosed
    have hlast := last_of_close hpos hstart hbyte hclosed
    obtain ⟨hsame, hwide, hcells⟩ := cells_close hpos hclosed
    obtain ⟨hlt, hle, hnext⟩ := close_bounds hpos hclosed
    rw [← hsame, ← hwide] at htext hcells
    rw [← hcells] at htext
    rw [Scan.close_run]
    exact ⟨⟨hwide ▸ hallowed, htext, hlt, hle, hlast⟩, Nat.le_of_eq hsame.symm, hnext⟩

theorem soundTurn_settle (hpos : pos < data.size) (hstart : run.start ≤ pos)
    (hallowed : run.wide = true → container.allowsWide = true)
    (hbyte : run.wide = false → byte = data.getD pos 0)
    (hgoing : ended = false → pos + 1 < data.size → Going container data run (pos + 1))
    (htext : IsText container data run.wide run.start (if run.wide then (pos - run.start) / 2
      else pos - run.start + if takesLast data pos ended byte then 1 else 0)) :
    SoundTurn container data run.start (Scan.settle data run pos ended byte) := by
  unfold Scan.settle
  split
  · exact soundTurn_close hpos hstart hallowed hbyte htext
  · rename_i hopen
    simp only [Bool.or_eq_true, decide_eq_true_eq, not_or, Bool.not_eq_true] at hopen
    refine ⟨?_, Nat.le_refl _, ?_⟩
    · intro other hother
      cases hother
      exact hgoing hopen.1 (by omega)
    · intro closed hclosed
      cases hclosed

/-! ## Text so far -/

theorem charAt_le_one (container : Container) : charAt container ≤ 1 := by
  unfold charAt
  split <;> omega

theorem placeOf_zeroFirst (hfirst : Scan.zeroFirst container = true) :
    zeroAt container = 0 ∧ charAt container = 1 := by
  rw [zeroAt, charAt, if_pos hfirst, if_pos hfirst]
  exact ⟨rfl, rfl⟩

theorem placeOf_zeroLast (hfirst : Scan.zeroFirst container = false) :
    zeroAt container = 1 ∧ charAt container = 0 := by
  rw [zeroAt, charAt, if_neg (by simp [hfirst]), if_neg (by simp [hfirst])]
  exact ⟨rfl, rfl⟩

theorem isText_zero {wide : Bool} {start : Nat} : IsText container data wide start 0 :=
  fun i hi => absurd hi (Nat.not_lt_zero i)

theorem IsText.succ {wide : Bool} {start count : Nat} (h : IsText container data wide start count)
    (hlast : Cell container data wide (start + width wide * count)) :
    IsText container data wide start (count + 1) := by
  intro i hi
  rcases Nat.lt_succ_iff_lt_or_eq.mp hi with hlt | rfl
  · exact h i hlt
  · exact hlast

theorem Going.allowed (h : Going container data run pos) :
    run.wide = true → container.allowsWide = true := by
  cases h with
  | narrow => intro hwide; cases hwide
  | wide allowed => exact fun _ => allowed

/-- A two-byte cell whose character is at `pos`. -/
theorem cell_wide {start count : Nat} (hpos : pos = start + 2 * count + charAt container)
    (hlt : pos + 1 < data.size)
    (hzero : Scan.zeroFirst container = true → data.getD (start + 2 * count) 0 = 0)
    (hnext : data.getD (pos + 1) 0 = 0)
    (hchar : container.charset.containsByte (data.getD pos 0) = true) :
    Cell container data true (start + width true * count) where
  inside := by
    have hle := charAt_le_one container
    simp only [width, if_true]
    omega
  zero := by
    intro _
    cases hfirst : Scan.zeroFirst container with
    | true => simpa only [zeroAt, hfirst, width, if_true, Nat.add_zero] using hzero hfirst
    | false =>
        simp only [charAt, hfirst, Bool.false_eq_true, if_false] at hpos
        simpa only [zeroAt, hfirst, width, if_true, Bool.false_eq_true, if_false, hpos] using hnext
  char := by simpa only [width, if_true, ← hpos] using hchar

/-! ## One turn -/

variable {start count : Nat}

theorem soundTurn_narrow (hpos : start + count < data.size)
    (htext : IsText container data false start count) :
    SoundTurn container data start (Scan.settle data ⟨start, false⟩ (start + count)
      (!container.charset.containsByte (data.getD (start + count) 0))
      (data.getD (start + count) 0)) := by
  have hcell (hchar : container.charset.containsByte (data.getD (start + count) 0) = true) :
      IsText container data false start (count + 1) :=
    htext.succ ⟨by rw [width_narrow]; omega, by simp, by simpa using hchar⟩
  have hallowed : (OpenRun.mk start false).wide = true → container.allowsWide = true := nofun
  apply soundTurn_settle hpos (Nat.le_add_right start count) hallowed fun _ => rfl
  · intro hopen _
    exact .narrow (hcell (by simpa using hopen))
  · rw [if_neg (by simp), Nat.add_sub_cancel_left]
    by_cases hlast : takesLast data (start + count)
        (!container.charset.containsByte (data.getD (start + count) 0))
        (data.getD (start + count) 0) = true
    · rw [if_pos hlast]
      simp only [takesLast, Bool.and_eq_true, Bool.not_not] at hlast
      exact hcell hlast.1.1
    · rw [if_neg hlast]
      exact htext

/-- A two-byte run that ends before its next character has the cells it had. -/
theorem soundTurn_ended (hpos : start + 2 * count + charAt container < data.size)
    (hallowed : container.allowsWide = true) (htext : IsText container data true start count)
    (byte : UInt8) :
    SoundTurn container data start (Scan.settle data ⟨start, true⟩
      (start + 2 * count + charAt container) true byte) := by
  have hle := charAt_le_one container
  have hstart : start ≤ start + 2 * count + charAt container := by omega
  have hcount : (start + 2 * count + charAt container - start) / 2 = count := by omega
  have hbyte : (OpenRun.mk start true).wide = false →
      byte = data.getD (start + 2 * count + charAt container) 0 := nofun
  apply soundTurn_settle hpos hstart (fun _ => hallowed) hbyte
  · intro hopen
    cases hopen
  · rw [if_pos rfl, hcount]
    exact htext

/-- A two-byte run goes on past its next character and the zero behind that. -/
theorem soundTurn_cell (hallowed : container.allowsWide = true)
    (htext : IsText container data true start count)
    (hzero : Scan.zeroFirst container = true → data.getD (start + 2 * count) 0 = 0)
    (hchar : container.charset.containsByte
      (data.getD (start + 2 * count + charAt container) 0) = true)
    (hlt : start + 2 * count + charAt container + 1 < data.size)
    (hnext : data.getD (start + 2 * count + charAt container + 1) 0 = 0) (byte : UInt8) :
    SoundTurn container data start (Scan.settle data ⟨start, true⟩
      (start + 2 * count + charAt container + 1) false byte) := by
  have hmore := htext.succ (cell_wide rfl hlt hzero hnext hchar)
  have hstart : start ≤ start + 2 * count + charAt container + 1 := by omega
  have hbyte : (OpenRun.mk start true).wide = false →
      byte = data.getD (start + 2 * count + charAt container + 1) 0 := nofun
  apply soundTurn_settle hlt hstart (fun _ => hallowed) hbyte
  · intro _ _
    have hpos : start + 2 * count + charAt container + 1 + 1 =
        start + 2 * (count + 1) + charAt container := by omega
    rw [hpos]
    refine .wide hallowed hmore fun hfirst => ?_
    have hchar1 : charAt container = 1 := by rw [charAt, if_pos hfirst]
    rw [hchar1] at hnext
    exact hnext
  · rw [if_pos rfl]
    -- The zero behind the character ends a cell, or starts the next one.
    by_cases hfirst : Scan.zeroFirst container = true
    · have hchar1 : charAt container = 1 := by rw [charAt, if_pos hfirst]
      have hcount : (start + 2 * count + charAt container + 1 - start) / 2 = count + 1 := by omega
      rw [hcount]
      exact hmore
    · have hchar0 : charAt container = 0 := by rw [charAt, if_neg hfirst]
      have hcount : (start + 2 * count + charAt container + 1 - start) / 2 = count := by omega
      rw [hcount]
      exact htext

theorem soundTurn_goOn (hpos : pos < data.size) (h : Going container data run pos) :
    SoundTurn container data run.start (Scan.goOn data run pos
      (!container.charset.containsByte (data.getD pos 0)) (data.getD pos 0)) := by
  unfold Scan.goOn
  cases h with
  | narrow htext =>
      rw [if_neg (by simp)]
      exact soundTurn_narrow hpos htext
  | @wide start count hallowed htext hzero =>
      by_cases hchar : container.charset.containsByte
          (data.getD (start + 2 * count + charAt container) 0) = true
      · rw [hchar, if_pos (by simp)]
        by_cases hnext : start + 2 * count + charAt container + 1 < data.size ∧
            data.getD (start + 2 * count + charAt container + 1) 0 = 0
        · rw [if_pos (by simpa using hnext)]
          exact soundTurn_cell hallowed htext hzero hchar hnext.1 hnext.2 _
        · rw [if_neg (by simpa using hnext)]
          exact soundTurn_ended hpos hallowed htext _
      · rw [Bool.not_eq_true] at hchar
        rw [hchar, if_neg (by simp)]
        exact soundTurn_ended hpos hallowed htext _

/-- A turn passes over a byte that is not text, or goes on with a run: the one under way,
or one that starts here. -/
theorem step_cases {run : Option OpenRun} (hpos : pos < data.size)
    (h : ∀ going, run = some going → Going container data going pos) :
    (run = none ∧ Scan.step container data pos run = ⟨pos + 1, none, none⟩) ∨
      ∃ going place, going.start = floor pos run ∧ place < data.size ∧
        Going container data going place ∧
        Scan.step container data pos run = Scan.goOn data going place
          (!container.charset.containsByte (data.getD place 0)) (data.getD place 0) := by
  cases run with
  | some going => exact .inr ⟨going, pos, rfl, hpos, h going rfl, rfl⟩
  | none =>
      simp only [Scan.step]
      by_cases hwide : Scan.opensWide container data pos = true
      · rw [if_pos hwide]
        simp only [Scan.opensWide, Bool.and_eq_true, decide_eq_true_eq, beq_iff_eq] at hwide
        obtain ⟨⟨⟨⟨hallowed, hfirst⟩, hzero⟩, hlt⟩, -⟩ := hwide
        have hchar1 : charAt container = 1 := by rw [charAt, if_pos hfirst]
        have hgoing : Going container data ⟨pos, true⟩ (pos + 2 * 0 + charAt container) :=
          .wide hallowed isText_zero fun _ => hzero
        rw [hchar1] at hgoing
        exact .inr ⟨⟨pos, true⟩, pos + 1, rfl, by omega, hgoing, rfl⟩
      · rw [if_neg hwide]
        by_cases hchar : container.charset.containsByte (data.getD pos 0) = true
        · rw [if_pos hchar]
          have hgoing : Going container data ⟨pos, Scan.opensWideAfter container data pos⟩ pos := by
            cases hafter : Scan.opensWideAfter container data pos with
            | false => exact @Going.narrow container data pos 0 isText_zero
            | true =>
                simp only [Scan.opensWideAfter, Bool.and_eq_true, decide_eq_true_eq, beq_iff_eq,
                  Bool.not_eq_true'] at hafter
                obtain ⟨⟨⟨hallowed, hfirst⟩, hlt⟩, -⟩ := hafter
                have hchar0 : charAt container = 0 := by rw [charAt, if_neg (by simp [hfirst])]
                have hwide : Going container data ⟨pos, true⟩ (pos + 2 * 0 + charAt container) :=
                  .wide hallowed isText_zero fun h => by rw [hfirst] at h; cases h
                rw [hchar0] at hwide
                exact hwide
          exact .inr ⟨_, pos, rfl, hpos, hgoing, by rw [hchar]; rfl⟩
        · rw [if_neg hchar]
          exact .inl ⟨trivial, rfl⟩

theorem step_sound {run : Option OpenRun} (hpos : pos < data.size)
    (h : ∀ going, run = some going → Going container data going pos) :
    SoundTurn container data (floor pos run) (Scan.step container data pos run) := by
  rcases step_cases hpos h with ⟨rfl, hstep⟩ | ⟨going, place, hstart, hplace, hgoing, hstep⟩
  · rw [hstep]
    refine ⟨?_, Nat.le_succ pos, ?_⟩ <;> intro _ hnone <;> cases hnone
  · rw [hstep, ← hstart]
    exact soundTurn_goOn hplace hgoing

/-! ## All turns -/

/-- Runs of a payload in order. -/
structure SoundRuns (container : Container) (data : Bytes) (runs : List Run) : Prop where
  sound : ∀ run ∈ runs, Sound container data run
  ordered : runs.Pairwise fun earlier later => earlier.stop ≤ later.start

theorem runsFrom_sound {run : Option OpenRun} {found : Array Run}
    (hgoing : ∀ going, run = some going → Going container data going pos)
    (hfound : SoundRuns container data found.toList)
    (hfloor : ∀ earlier ∈ found.toList, earlier.stop ≤ floor pos run) :
    SoundRuns container data (Scan.runsFrom container data pos run found).toList := by
  fun_induction Scan.runsFrom container data pos run found with
  | case1 pos run found hpos turn ih =>
      have hturn := step_sound hpos hgoing
      have hlow := hturn.low_le
      apply ih hturn.going
      · refine ⟨?_, ?_⟩
        · intro other hother
          simp only [Array.toList_append, List.mem_append, Option.toList_toArray,
            Option.mem_toList] at hother
          rcases hother with hmem | hnew
          · exact hfound.sound other hmem
          · exact (hturn.found other hnew).1
        · rw [Array.toList_append, List.pairwise_append]
          refine ⟨hfound.ordered, ?_, ?_⟩
          · cases turn.found <;> simp
          · intro earlier hearlier later hlater
            simp only [Option.toList_toArray, Option.mem_toList] at hlater
            exact Nat.le_trans (hfloor earlier hearlier) (hturn.found later hlater).2.1
      · intro other hother
        simp only [Array.toList_append, List.mem_append, Option.toList_toArray,
          Option.mem_toList] at hother
        rcases hother with hmem | hnew
        · exact Nat.le_trans (hfloor other hmem) hlow
        · exact (hturn.found other hnew).2.2
  | case2 => exact hfound

/-- The runs of a payload are text inside of it, one behind the other. -/
theorem runs_sound (container : Container) (data : Bytes) :
    SoundRuns container data (runs container data).toList := by
  apply runsFrom_sound
  · intro going hgoing
    cases hgoing
  · exact ⟨by simp, by simp⟩
  · simp

end ScriptRecord.Proofs.Slot.Cells
