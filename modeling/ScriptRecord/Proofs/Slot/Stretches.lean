import ScriptRecord.Proofs.Slot.Planting
/-!
# Runs are the stretches of text

Where no two-byte text is allowed, the pass finds exactly the stretches of allowed bytes
that cannot be made longer (`Stretch`) and have more than four bytes (`runs_eq_stretches`).
Only a stretch up to the end of the payload is treated in another way: there it takes six
bytes, and the byte that ends scripts is left out.

* `laterRuns_inner`, `laterRuns_final`: what the pass makes of one stretch.
* `Stretch.eq_or_lt`: no two stretches meet.
-/

namespace ScriptRecord.Proofs.Slot.Stretches

open ScriptRecord.Proofs.Slot.Cells
open ScriptRecord.Proofs.Slot.Editing
open ScriptRecord.Proofs.Slot.Turns
open ScriptRecord.Proofs.Slot.Planting

/-- The byte at a position is in the charset. -/
def Allowed (container : Container) (data : Bytes) (pos : Nat) : Prop :=
  container.charset.containsByte (data.getD pos 0) = true

instance (container : Container) (data : Bytes) (pos : Nat) :
    Decidable (Allowed container data pos) :=
  inferInstanceAs (Decidable (_ = true))

/-- Allowed bytes from `start` up to `stop`, and none next to them. -/
structure Stretch (container : Container) (data : Bytes) (start stop : Nat) : Prop where
  start_lt : start < stop
  stop_le : stop ≤ data.size
  allowed : ∀ pos, start ≤ pos → pos < stop → Allowed container data pos
  before : start = 0 ∨ ¬ Allowed container data (start - 1)
  behind : stop = data.size ∨ ¬ Allowed container data stop

/-- A run that is a whole stretch, of more than four bytes and with a byte behind it. -/
structure Inner (container : Container) (data : Bytes) (run : Run) : Prop where
  narrow : run.wide = false
  stretch : Stretch container data run.start run.stop
  inside : run.stop < data.size
  long : 4 < run.stop - run.start

/-- A run of the stretch up to the end of the payload, which has more than five bytes. -/
structure Final (container : Container) (data : Bytes) (run : Run) : Prop where
  narrow : run.wide = false
  stretch : Stretch container data run.start data.size
  long : 5 < data.size - run.start
  stop_eq : run.stop = if data.back? = some Scan.sentinel then data.size - 1 else data.size

variable {container : Container} {data : Bytes} {pos start stop : Nat}

/-! ## Stretches -/

theorem exists_stop (container : Container) (data : Bytes) (hpos : pos ≤ data.size) :
    ∃ stop, pos ≤ stop ∧ stop ≤ data.size ∧
      (∀ place, pos ≤ place → place < stop → Allowed container data place) ∧
      (stop = data.size ∨ ¬ Allowed container data stop) := by
  induction hleft : data.size - pos generalizing pos with
  | zero => exact ⟨pos, Nat.le_refl _, hpos, by omega, .inl (by omega)⟩
  | succ left ih =>
      by_cases hallowed : Allowed container data pos
      · obtain ⟨stop, hle, hstop, hall, hbehind⟩ := @ih (pos + 1) (by omega) (by omega)
        refine ⟨stop, by omega, hstop, fun place hplace hlt => ?_, hbehind⟩
        rcases Nat.eq_or_lt_of_le hplace with rfl | hlater
        · exact hallowed
        · exact hall place hlater hlt
      · exact ⟨pos, Nat.le_refl _, hpos, by omega, .inr hallowed⟩

theorem exists_stretch (hpos : pos < data.size)
    (hbefore : pos = 0 ∨ ¬ Allowed container data (pos - 1))
    (hallowed : Allowed container data pos) : ∃ stop, Stretch container data pos stop := by
  obtain ⟨stop, hle, hstop, hall, hbehind⟩ := exists_stop container data (Nat.le_of_lt hpos)
  refine ⟨stop, Nat.lt_of_le_of_ne hle ?_, hstop, hall, hbefore, hbehind⟩
  rintro rfl
  rcases hbehind with hend | hnot
  · omega
  · exact hnot hallowed

/-- Two stretches are the same or have another byte between them. -/
theorem Stretch.eq_or_lt {start' stop' : Nat} (h : Stretch container data start stop)
    (h' : Stretch container data start' stop') (hle : start ≤ start') :
    (start = start' ∧ stop = stop') ∨ stop < start' := by
  have hlt := h.start_lt
  have hlt' := h'.start_lt
  have hend := h.stop_le
  have hend' := h'.stop_le
  rcases Nat.eq_or_lt_of_le hle with rfl | hlater
  · refine .inl ⟨rfl, ?_⟩
    rcases Nat.lt_trichotomy stop stop' with hshort | heq | hshort
    · rcases h.behind with hflush | hnot
      · omega
      · exact absurd (h'.allowed stop (by omega) hshort) hnot
    · exact heq
    · rcases h'.behind with hflush | hnot
      · omega
      · exact absurd (h.allowed stop' (by omega) hshort) hnot
  · refine .inr (Nat.not_le.mp fun hinside => ?_)
    rcases h'.before with hzero | hnot
    · omega
    · exact hnot (h.allowed (start' - 1) (by omega) (by omega))

theorem Stretch.isText (h : Stretch container data start stop) :
    IsText container data false start (stop - start) := by
  intro i hi
  have hend := h.stop_le
  have hallowed := h.allowed (start + i) (by omega) (by omega)
  refine ⟨?_, by simp, ?_⟩
  · rw [width_narrow]
    omega
  · rw [width_narrow, Nat.one_mul]
    simpa [Allowed] using hallowed

/-! ## One stretch -/

variable (hnarrow : container.allowsWide = false)
include hnarrow

theorem step_none_of_allowed (h : Allowed container data pos) :
    Scan.step container data pos none = Scan.step container data pos (some ⟨pos, false⟩) := by
  have hopens : Scan.opensWide container data pos = false := by
    rw [Scan.opensWide, hnarrow]
    rfl
  have hafter : Scan.opensWideAfter container data pos = false := by
    rw [Scan.opensWideAfter, hnarrow]
    rfl
  rw [Allowed] at h
  simp only [Scan.step, hopens, hafter, h, Bool.false_eq_true, if_false, if_true, Bool.not_true]

theorem step_none_of_not_allowed (h : ¬ Allowed container data pos) :
    Scan.step container data pos none = ⟨pos + 1, none, none⟩ := by
  have hopens : Scan.opensWide container data pos = false := by
    rw [Scan.opensWide, hnarrow]
    rfl
  rw [Allowed, Bool.not_eq_true] at h
  simp only [Scan.step, hopens, h, Bool.false_eq_true, if_false]

/-- The pass follows a stretch to any byte of it, or to the one behind it. -/
theorem laterRuns_start (h : Stretch container data start stop) (hle : start ≤ pos)
    (hstop : pos ≤ stop) (hpos : pos < data.size) :
    laterRuns container data start none = laterRuns container data pos (some ⟨start, false⟩) := by
  have hfirst := step_none_of_allowed hnarrow (h.allowed start (Nat.le_refl _) h.start_lt)
  have htext : IsText container data false start (pos - start) :=
    fun i hi => h.isText i (by omega)
  have hplace : start + (pos - start) = pos := by omega
  have hfollow := laterRuns_narrow htext (by omega)
  rw [hplace] at hfollow
  rw [← hfollow]
  exact laterRuns_congr (by omega) (by omega) hfirst

theorem laterRuns_inner (h : Stretch container data start stop) (hinside : stop < data.size) :
    laterRuns container data start none =
      (if 4 < stop - start then [⟨start, stop, false⟩] else []) ++
        laterRuns container data (stop + 1) none := by
  have hother : container.charset.containsByte (data.getD stop 0) = false := by
    rcases h.behind with hflush | hnot
    · omega
    · simpa [Allowed] using hnot
  rw [laterRuns_start hnarrow h (Nat.le_of_lt h.start_lt) (Nat.le_refl _) hinside,
    laterRuns_turn hinside, step_other hother]
  simp only [Scan.close, Scan.minimum, Bool.false_and, Bool.not_true, Bool.false_eq_true, if_false]
  by_cases hlong : 4 < stop - start
  · simp only [if_pos hlong]
    rfl
  · simp only [if_neg hlong]
    rfl

/-- The last byte is not counted when the stretch is measured. -/
theorem laterRuns_final (h : Stretch container data start data.size) :
    laterRuns container data start none =
      if 5 < data.size - start then
        [⟨start, if data.back? = some Scan.sentinel then data.size - 1 else data.size, false⟩]
      else [] := by
  have hlt := h.start_lt
  have hlast : data.size - 1 < data.size := by omega
  have hend : data.size - 1 + 1 = data.size := by omega
  have hallowed : container.charset.containsByte (data.getD (data.size - 1) 0) = true :=
    h.allowed (data.size - 1) (by omega) hlast
  have hstep : Scan.step container data (data.size - 1) (some ⟨start, false⟩) =
      Scan.close data ⟨start, false⟩ (data.size - 1) false (data.getD (data.size - 1) 0) := by
    simp only [Scan.step, Scan.goOn, Scan.settle, hallowed, hend]
    rfl
  have hsentinel := back?_eq_sentinel data
  have hgoes := laterRuns_start hnarrow h (Nat.le_sub_one_of_lt hlt) (Nat.sub_le _ _) hlast
  rw [hgoes, laterRuns_turn hlast, hstep]
  simp only [Scan.close, Scan.minimum, Bool.false_and, Bool.not_false, Bool.true_and,
    Bool.false_eq_true, if_false, hend, decide_true, bne_iff_ne, ne_eq, hsentinel]
  by_cases hlong : 4 < data.size - 1 - start
  · have hlong' : 5 < data.size - start := by omega
    simp only [if_pos hlong, if_pos hlong', ite_not]
    rw [laterRuns_end (Nat.le_refl _), List.append_nil]
    rfl
  · have hshort : ¬ 5 < data.size - start := by omega
    simp only [if_neg hlong, if_neg hshort]
    rw [laterRuns_end (Nat.le_refl _)]
    rfl

/-! ## All stretches -/

/-- The runs that start at a position or later. -/
structure Reported (container : Container) (data : Bytes) (pos : Nat) (inner : List Run)
    (final : Option Run) : Prop where
  ordered : inner.Pairwise fun earlier later => earlier.stop < later.start
  mem_iff : ∀ run, run ∈ inner ↔ Inner container data run ∧ pos ≤ run.start
  final_iff : ∀ run, final = some run ↔ Final container data run ∧ pos ≤ run.start

omit hnarrow

theorem reported_end (hpos : data.size ≤ pos) : Reported container data pos [] none where
  ordered := .nil
  mem_iff := by
    intro run
    refine iff_of_false List.not_mem_nil fun h => ?_
    have hlt := h.1.stretch.start_lt
    have hinside := h.1.inside
    omega
  final_iff := by
    intro run
    refine iff_of_false nofun fun h => ?_
    have hlt := h.1.stretch.start_lt
    omega

theorem Reported.skip {inner : List Run} {final : Option Run}
    (h : Reported container data (pos + 1) inner final) (hother : ¬ Allowed container data pos) :
    Reported container data pos inner final := by
  have hstart {start stop : Nat} (hstretch : Stretch container data start stop) :
      pos + 1 ≤ start ↔ pos ≤ start := by
    refine ⟨Nat.le_of_succ_le, fun hle => Nat.lt_of_le_of_ne hle ?_⟩
    rintro rfl
    exact hother (hstretch.allowed pos (Nat.le_refl _) hstretch.start_lt)
  refine ⟨h.ordered, fun run => (h.mem_iff run).trans ?_, fun run => (h.final_iff run).trans ?_⟩
  · exact and_congr_right fun hinner => hstart hinner.stretch
  · exact and_congr_right fun hfinal => hstart hfinal.stretch

/-- A stretch with a byte behind it comes before what is found behind that byte. -/
theorem Reported.cons {inner : List Run} {final : Option Run}
    (h : Reported container data (stop + 1) inner final)
    (hstretch : Stretch container data pos stop) (hinside : stop < data.size) :
    Reported container data pos
      ((if 4 < stop - pos then [⟨pos, stop, false⟩] else []) ++ inner) final where
  ordered := by
    split
    · refine List.pairwise_cons.mpr ⟨fun run hrun => ?_, h.ordered⟩
      exact ((h.mem_iff run).mp hrun).2
    · exact h.ordered
  mem_iff := by
    intro run
    rw [List.mem_append, h.mem_iff]
    constructor
    · rintro (hfirst | ⟨hinner, hle⟩)
      · split at hfirst
        · rename_i hlong
          rw [List.mem_singleton.mp hfirst]
          exact ⟨⟨rfl, hstretch, hinside, hlong⟩, Nat.le_refl _⟩
        · exact absurd hfirst List.not_mem_nil
      · have hlt := hstretch.start_lt
        exact ⟨hinner, by omega⟩
    · rintro ⟨hinner, hle⟩
      rcases hstretch.eq_or_lt hinner.stretch hle with ⟨hstart, hstop⟩ | hbehind
      · have hlong := hinner.long
        rw [← hstart, ← hstop] at hlong
        rw [if_pos hlong, List.mem_singleton]
        obtain ⟨start, stop', wide⟩ := run
        exact .inl (by rw [Run.mk.injEq]; exact ⟨hstart.symm, hstop.symm, hinner.narrow⟩)
      · exact .inr ⟨hinner, hbehind⟩
  final_iff := by
    intro run
    rw [h.final_iff]
    refine and_congr_right fun hfinal => ⟨fun hle => ?_, fun hle => ?_⟩
    · have hlt := hstretch.start_lt
      omega
    · rcases hstretch.eq_or_lt hfinal.stretch hle with ⟨-, hstop⟩ | hbehind
      · omega
      · exact hbehind

theorem reported_final (hstretch : Stretch container data pos data.size) :
    Reported container data pos []
      (if 5 < data.size - pos then
        some ⟨pos, if data.back? = some Scan.sentinel then data.size - 1 else data.size, false⟩
      else none) where
  ordered := .nil
  mem_iff := by
    intro run
    refine iff_of_false List.not_mem_nil fun ⟨hinner, hle⟩ => ?_
    have hinside := hinner.inside
    have hlt := hinner.stretch.start_lt
    rcases hstretch.eq_or_lt hinner.stretch hle with ⟨-, hstop⟩ | hbehind <;> omega
  final_iff := by
    intro run
    constructor
    · intro hrun
      split at hrun
      · rename_i hlong
        cases hrun
        exact ⟨⟨rfl, hstretch, hlong, rfl⟩, Nat.le_refl _⟩
      · cases hrun
    · rintro ⟨hfinal, hle⟩
      rcases hstretch.eq_or_lt hfinal.stretch hle with ⟨hstart, -⟩ | hbehind
      · have hlong := hfinal.long
        rw [← hstart] at hlong
        obtain ⟨start, stop', wide⟩ := run
        rw [if_pos hlong, Option.some_inj, Run.mk.injEq]
        exact ⟨hstart, hfinal.stop_eq.symm, hfinal.narrow.symm⟩
      · have hlt := hfinal.stretch.start_lt
        omega

include hnarrow

theorem exists_reported (pos : Nat) (hbefore : pos = 0 ∨ ¬ Allowed container data (pos - 1)) :
    ∃ inner final, laterRuns container data pos none = inner ++ final.toList ∧
      Reported container data pos inner final := by
  induction hleft : data.size - pos using Nat.strongRecOn generalizing pos with
  | ind left ih =>
      by_cases hpos : pos < data.size
      · by_cases hallowed : Allowed container data pos
        · obtain ⟨stop, hstretch⟩ := exists_stretch hpos hbefore hallowed
          have hlt := hstretch.start_lt
          rcases Nat.eq_or_lt_of_le hstretch.stop_le with rfl | hinside
          · refine ⟨[], _, ?_, reported_final hstretch⟩
            rw [laterRuns_final hnarrow hstretch]
            split <;> rfl
          · have hother := hstretch.behind.resolve_left (Nat.ne_of_lt hinside)
            obtain ⟨inner, final, hlater, hreported⟩ :=
              ih _ (by omega) (stop + 1) (.inr hother) rfl
            refine ⟨_, final, ?_, hreported.cons hstretch hinside⟩
            rw [laterRuns_inner hnarrow hstretch hinside, hlater, List.append_assoc]
        · obtain ⟨inner, final, hlater, hreported⟩ :=
            ih _ (by omega) (pos + 1) (.inr hallowed) rfl
          refine ⟨inner, final, ?_, hreported.skip hallowed⟩
          rw [laterRuns_turn hpos, step_none_of_not_allowed hnarrow hallowed]
          exact hlater
      · have hend := Nat.not_lt.mp hpos
        exact ⟨[], none, laterRuns_end hend, reported_end hend⟩

omit hnarrow

/-- On a platform without two-byte text the runs are the stretches of more than four bytes
that do not come up to the end, in order, and then the one that does, if it has more than
five. -/
theorem runs_eq_stretches (container : Container)
    (hplatform : container.platform ∈ [Platform.wii, .xboxXbx, .ps2, .pcWpc]) (data : Bytes) :
    ∃ (inner : List Run) (final : Option Run),
      (runs container data).toList = inner ++ final.toList ∧
      inner.Pairwise (fun earlier later => earlier.stop < later.start) ∧
      (∀ run, run ∈ inner ↔ Inner container data run) ∧
      ∀ run, final = some run ↔ Final container data run := by
  have hnarrow : container.allowsWide = false := by
    simp only [List.mem_cons, List.not_mem_nil, or_false] at hplatform
    rw [Container.allowsWide]
    rcases hplatform with h | h | h | h <;> rw [h] <;> rfl
  have hstart : (0 = 0 ∨ ¬ Allowed container data (0 - 1)) := .inl rfl
  obtain ⟨inner, final, hruns, hreported⟩ := exists_reported hnarrow 0 hstart
  refine ⟨inner, final, hruns, hreported.ordered, fun run => ?_, fun run => ?_⟩
  · exact (hreported.mem_iff run).trans (and_iff_left (Nat.zero_le _))
  · exact (hreported.final_iff run).trans (and_iff_left (Nat.zero_le _))

/-- Five letters, four, and five again with the byte that ends scripts behind them. -/
theorem runs_eq_stretches_threeWords :
    let container : Container := ⟨.ps2, .little, .ofString "$EHLOY"⟩
    let data : Bytes := #[0x48, 0x45, 0x4C, 0x4C, 0x4F, 0x01, 0x48, 0x4F, 0x4C, 0x59, 0x01,
      0x48, 0x4F, 0x4C, 0x4C, 0x59, 0x24]
    container.platform ∈ [Platform.wii, .xboxXbx, .ps2, .pcWpc] ∧
      Stretch container data 6 10 ∧
      ∃ (inner : List Run) (final : Option Run),
        (runs container data).toList = inner ++ final.toList ∧
        ⟨0, 5, false⟩ ∈ inner ∧ ⟨6, 10, false⟩ ∉ inner ∧ final = some ⟨11, 16, false⟩ := by
  intro container data
  have hplatform : container.platform ∈ [Platform.wii, .xboxXbx, .ps2, .pcWpc] := by decide
  have hinner : Inner container data ⟨0, 5, false⟩ :=
    ⟨rfl, ⟨by decide, by decide, by decide +kernel, .inl rfl, .inr (by decide +kernel)⟩,
      by decide, by decide⟩
  have hshort : Stretch container data 6 10 :=
    ⟨by decide, by decide, by decide +kernel, .inr (by decide +kernel), .inr (by decide +kernel)⟩
  have hfinal : Final container data ⟨11, 16, false⟩ :=
    ⟨rfl, ⟨by decide, by decide, by decide +kernel, .inr (by decide +kernel), .inl rfl⟩,
      by decide, by decide +kernel⟩
  obtain ⟨inner, final, hruns, -, hinners, hfinals⟩ :=
    runs_eq_stretches container hplatform data
  refine ⟨hplatform, hshort, inner, final, hruns, (hinners _).mpr hinner, fun hmem => ?_,
    (hfinals _).mpr hfinal⟩
  have hlong := ((hinners _).mp hmem).long
  exact absurd hlong (by decide)

end ScriptRecord.Proofs.Slot.Stretches
