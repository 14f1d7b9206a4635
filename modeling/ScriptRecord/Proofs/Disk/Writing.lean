import ScriptRecord.Disk
import ScriptRecord.Proofs.Results
/-!
# Files that were written

A path that leads to a place still leads there when a file has been written elsewhere,
since files never take the place of folders.  So what was written is read back by the
same path (`read_of_write`), and a backup beside a file does not change it
(`read_of_copy`).
-/

namespace ScriptRecord.Proofs.Disk.Writing

open ScriptRecord.Proofs.Results

variable {disk after : Disk} {path : String} {location target : Location} {bytes : Bytes}

/-! ## The parts of a path -/

theorem splitOn_append {α : Type} [BEq α] [LawfulBEq α] {a : α} {suffix : List α}
    (h : a ∉ suffix) (text : List α) :
    ∃ front last, text.splitOn a = front ++ [last] ∧
      (text ++ suffix).splitOn a = front ++ [last ++ suffix] ∧ (front = [] → last = text) := by
  induction text with
  | nil => exact ⟨[], [], rfl, List.splitOn_eq_singleton h, fun _ => rfl⟩
  | cons c text ih =>
      obtain ⟨front, last, htext, happend, halone⟩ := ih
      rw [List.cons_append, List.splitOn_cons_eq_if_modifyHead, List.splitOn_cons_eq_if_modifyHead,
        htext, happend]
      by_cases hc : (c == a) = true
      · rw [if_pos hc, if_pos hc]
        exact ⟨[] :: front, last, rfl, rfl, nofun⟩
      · rw [if_neg hc, if_neg hc]
        cases front with
        | nil => exact ⟨[], c :: last, rfl, rfl, fun _ => by rw [halone rfl]⟩
        | cons first front => exact ⟨(c :: first) :: front, last, rfl, rfl, nofun⟩

/-- The parts of a path, and of the path with more at the end of its last name. -/
theorem parts_append {suffix : String} (h : '/' ∉ suffix.toList) (path : String) :
    ∃ names last, Disk.parts path = names ++ [last] ∧
      Disk.parts (path ++ suffix) = names ++ [last ++ suffix] ∧ (names = [] → last = path) := by
  obtain ⟨front, last, hpath, hlonger, halone⟩ := splitOn_append h path.toList
  refine ⟨front.map String.ofList, String.ofList last, ?_, ?_, ?_⟩
  · rw [Disk.parts, hpath, List.map_append]
    rfl
  · rw [Disk.parts, String.toList_append, hlonger, List.map_append, List.map_singleton,
      String.ofList_append, String.ofList_toList]
  · intro hnames
    rw [halone (List.map_eq_nil_iff.mp hnames), String.ofList_toList]

theorem exists_parts (path : String) : ∃ names last, Disk.parts path = names ++ [last] := by
  obtain ⟨names, last, hparts, -⟩ := @parts_append "" (by decide) path
  exact ⟨names, last, hparts⟩

theorem closedParts_of_last {names : List String} {last : String}
    (h : Disk.parts path = names ++ [last]) (hlast : last ≠ "") :
    Disk.closedParts path = names ++ [last] := by
  have hempty : last.isEmpty = false := by simpa using hlast
  rw [Disk.closedParts, h, List.reverse_append, List.reverse_singleton, List.singleton_append,
    List.dropWhile_cons, hempty, if_neg Bool.false_ne_true, List.reverse_cons,
    List.reverse_reverse]

/-! ## Where paths lead -/

/-- A walk goes on through a folder. -/
theorem walk_cons_eq_ok {start : Location} {name : String} {names : List String} :
    disk.walk start (name :: names) = .ok location ↔
      (disk.file? start = none ∧ disk.isFolder start = true ∧
        name.utf8ByteSize ≤ Disk.nameLimit) ∧
      disk.walk (Disk.step start name) names = .ok location := by
  rw [Disk.walk]
  split
  · rename_i hfile
    have hnone : disk.file? start ≠ none := Option.isSome_iff_ne_none.mp hfile
    exact iff_of_false nofun fun h => hnone h.1.1
  · rename_i hfile
    split
    · rename_i hfolder
      exact iff_of_false nofun fun h => by simp [h.1.2.1] at hfolder
    · rename_i hfolder
      split
      · rename_i hlimit
        exact iff_of_false nofun fun h => absurd h.1.2.2 (Nat.not_le.mpr hlimit)
      · rename_i hlimit
        have hguards : disk.file? start = none ∧ disk.isFolder start = true ∧
            name.utf8ByteSize ≤ Disk.nameLimit :=
          ⟨by simpa using hfile, by simpa using hfolder, Nat.not_lt.mp hlimit⟩
        exact (and_iff_right hguards).symm

/-- The last name of a path is looked up in the folder that the others lead to. -/
theorem exists_folder_of_walk {start : Location} {names : List String} {last : String}
    (h : disk.walk start (names ++ [last]) = .ok location) :
    ∃ folder, disk.walk start names = .ok folder ∧ disk.file? folder = none ∧
      location = Disk.step folder last := by
  induction names generalizing start with
  | nil =>
      obtain ⟨hguards, hlast⟩ := walk_cons_eq_ok.mp h
      cases hlast
      exact ⟨start, rfl, hguards.1, rfl⟩
  | cons name names ih =>
      obtain ⟨hguards, hrest⟩ := walk_cons_eq_ok.mp h
      obtain ⟨folder, hfolder, hnone, hlocation⟩ := ih hrest
      exact ⟨folder, walk_cons_eq_ok.mpr ⟨hguards, hfolder⟩, hnone, hlocation⟩

/-- What a path goes through are folders, so a file in another place does not divert it. -/
theorem walk_put (htarget : disk.isFolder target = false) (bytes : Bytes) {names : List String}
    {start : Location} (h : disk.walk start names = .ok location) :
    (disk.put target bytes).walk start names = .ok location := by
  induction names generalizing start with
  | nil => exact h
  | cons name names ih =>
      obtain ⟨⟨hfile, hfolder, hlimit⟩, hrest⟩ := walk_cons_eq_ok.mp h
      have hne : start ≠ target := by
        rintro rfl
        rw [hfolder] at htarget
        cases htarget
      refine walk_cons_eq_ok.mpr ⟨⟨?_, hfolder, hlimit⟩, ih hrest⟩
      rw [Disk.file?_put_of_ne _ _ hne, hfile]

theorem find_eq_ok : disk.find path = .ok location ↔
    Disk.checkPath path = .ok () ∧
      disk.walk (disk.start path) (Disk.parts path) = .ok location := by
  have htext (h : Disk.checkPath path = .ok ()) : Disk.checkText path = .ok () := by
    obtain ⟨done, hdone, -⟩ := bind_eq_ok h
    exact hdone
  constructor
  · intro h
    obtain ⟨done, hcheck, hlocate⟩ := bind_eq_ok h
    obtain ⟨done', -, hwalk⟩ := bind_eq_ok hlocate
    exact ⟨hcheck, hwalk⟩
  · rintro ⟨hcheck, hwalk⟩
    rw [Disk.find, hcheck, ← hwalk, Disk.locate, htext hcheck]
    rfl

theorem find_put (htarget : disk.isFolder target = false) (bytes : Bytes)
    (h : disk.find path = .ok location) : (disk.put target bytes).find path = .ok location := by
  rw [find_eq_ok] at h ⊢
  exact ⟨h.1, walk_put htarget bytes h.2⟩

/-- A path that files are written by leads to the same place when it is read, and no folder
is there. -/
theorem find_of_findTarget (h : disk.findTarget path = .ok location) :
    disk.find path = .ok location ∧ disk.isFolder location = false := by
  obtain ⟨names, last, hparts⟩ := exists_parts path
  unfold Disk.findTarget at h
  obtain ⟨done, hcheck, h⟩ := bind_eq_ok h
  by_cases hlast : last = ""
  · subst hlast
    rw [hparts, List.getLast?_concat, if_pos rfl] at h
    obtain ⟨folder, -, h⟩ := bind_eq_ok h
    cases h
  · rw [hparts, List.getLast?_concat, if_neg (by simpa using hlast),
      closedParts_of_last hparts hlast] at h
    obtain ⟨reached, hwalk, h⟩ := bind_eq_ok h
    by_cases hfolder : disk.isFolder reached = true
    · rw [if_pos hfolder] at h
      cases h
    · rw [if_neg hfolder] at h
      cases h
      exact ⟨find_eq_ok.mpr ⟨hcheck, hparts ▸ hwalk⟩, by simpa using hfolder⟩

/-- The path of a file that is there can be written to. -/
theorem findTarget_of_find {content : Bytes} (hfind : disk.find path = .ok location)
    (hfile : disk.file? location = some content) (hfolder : disk.isFolder location = false) :
    disk.findTarget path = .ok location := by
  obtain ⟨names, last, hparts⟩ := exists_parts path
  obtain ⟨hcheck, hwalk⟩ := find_eq_ok.mp hfind
  rw [hparts] at hwalk
  have hlast : last ≠ "" := by
    rintro rfl
    -- A slash at the end leads to a folder, and there is no file in its place.
    obtain ⟨folder, -, hnone, hstep⟩ := exists_folder_of_walk hwalk
    have hsame : location = folder := hstep
    rw [hsame, hnone] at hfile
    cases hfile
  unfold Disk.findTarget
  rw [hcheck, hparts, List.getLast?_concat, closedParts_of_last hparts hlast]
  simp only [bind, Except.bind, hwalk, hfolder, if_neg (mt Option.some_inj.mp hlast)]
  rfl

/-! ## Reading -/

theorem read_eq_ok : disk.read path = .ok bytes ↔
    ∃ location, disk.find path = .ok location ∧ disk.file? location = some bytes := by
  constructor
  · intro h
    obtain ⟨location, hfind, hfile⟩ := bind_eq_ok h
    refine ⟨location, hfind, ?_⟩
    unfold Disk.readAt at hfile
    split at hfile
    · rename_i hsome
      cases hfile
      exact hsome
    · split at hfile <;> cases hfile
  · rintro ⟨location, hfind, hfile⟩
    rw [Disk.read, hfind]
    change disk.readAt location = .ok bytes
    rw [Disk.readAt, hfile]

theorem write_eq_ok : disk.write path bytes = .ok after ↔
    ∃ target, disk.findTarget path = .ok target ∧ after = disk.put target bytes := by
  constructor
  · intro h
    obtain ⟨target, htarget, hafter⟩ := bind_eq_ok h
    cases hafter
    exact ⟨target, htarget, rfl⟩
  · rintro ⟨target, htarget, rfl⟩
    rw [Disk.write, htarget]
    rfl

theorem exists_put_of_write (h : disk.write path bytes = .ok after) :
    ∃ target, disk.find path = .ok target ∧ disk.isFolder target = false ∧
      after = disk.put target bytes := by
  obtain ⟨target, htarget, rfl⟩ := write_eq_ok.mp h
  obtain ⟨hfind, hfolder⟩ := find_of_findTarget htarget
  exact ⟨target, hfind, hfolder, rfl⟩

/-- What was written is read. -/
theorem read_of_write (h : disk.write path bytes = .ok after) : after.read path = .ok bytes := by
  obtain ⟨target, hfind, hfolder, rfl⟩ := exists_put_of_write h
  exact read_eq_ok.mpr ⟨target, find_put hfolder bytes hfind, Disk.file?_put ..⟩

/-- A file that was written elsewhere does not change what a path reads. -/
theorem read_put {content : Bytes} (hfind : disk.find path = .ok location)
    (hread : disk.read path = .ok content) (htarget : disk.isFolder target = false)
    (hne : location ≠ target) : (disk.put target bytes).read path = .ok content := by
  obtain ⟨found, hfound, hfile⟩ := read_eq_ok.mp hread
  rw [hfind] at hfound
  cases hfound
  refine read_eq_ok.mpr ⟨location, find_put htarget bytes hfind, ?_⟩
  rw [Disk.file?_put_of_ne _ _ hne, hfile]

/-! ## Longer names -/

variable {suffix : String}

theorem step_append (hlong : 2 < suffix.length) (location : Location) (name : String) :
    Disk.step location (name ++ suffix) = location ++ [name ++ suffix] := by
  have hne (short : String) (hshort : short.length ≤ 2) : name ++ suffix ≠ short := by
    rintro rfl
    rw [String.length_append] at hshort
    omega
  have hempty := hne "" (by decide)
  have hdot := hne "." (by decide)
  rw [Disk.step, if_neg (by simp [hempty, hdot]), if_neg (hne ".." (by decide))]

theorem step_ne_append (hlong : 2 < suffix.length) (location : Location) (name : String) :
    Disk.step location name ≠ location ++ [name ++ suffix] := by
  intro heq
  unfold Disk.step at heq
  have hlength := congrArg List.length heq
  rw [List.length_append, List.length_singleton] at hlength
  split at heq
  · rw [if_pos ‹_›] at hlength
    omega
  · split at heq
    · rw [if_neg ‹_›, if_pos ‹_›, List.length_dropLast] at hlength
      omega
    · have hname := congrArg String.length (List.singleton_inj.mp (List.append_cancel_left heq))
      rw [String.length_append] at hname
      omega

theorem start_append (hslash : '/' ∉ suffix.toList) (hpath : path ≠ "") :
    disk.start (path ++ suffix) = disk.start path := by
  obtain ⟨names, last, hparts, hlonger, halone⟩ := parts_append hslash path
  rw [Disk.start, Disk.start, hparts, hlonger]
  cases names with
  | nil =>
      have hlast : last ≠ "" := halone rfl ▸ hpath
      have hlast' : last ++ suffix ≠ "" := by simp [hlast]
      simp [hlast, hlast']
  | cons name names => rfl

/-- More at the end of the last name, and the path leads to another place. -/
theorem ne_of_append (hslash : '/' ∉ suffix.toList) (hlong : 2 < suffix.length)
    (hfind : disk.find path = .ok location) (hlonger : disk.find (path ++ suffix) = .ok target) :
    location ≠ target := by
  obtain ⟨names, last, hparts, hparts', -⟩ := parts_append hslash path
  obtain ⟨hcheck, hwalk⟩ := find_eq_ok.mp hfind
  obtain ⟨-, hwalk'⟩ := find_eq_ok.mp hlonger
  have hpath : path ≠ "" := by
    rintro rfl
    cases hcheck
  rw [start_append hslash hpath, hparts'] at hwalk'
  rw [hparts] at hwalk
  -- Both paths reach the same folder and part at the last step.
  obtain ⟨folder, hfolder, -, rfl⟩ := exists_folder_of_walk hwalk
  obtain ⟨folder', hfolder', -, rfl⟩ := exists_folder_of_walk hwalk'
  cases hfolder.symm.trans hfolder'
  rw [step_append hlong]
  exact step_ne_append hlong folder last

/-- A copy is the file of one path put in the place of another. -/
theorem exists_put_of_copy {source : String} (h : disk.copy source path = .ok after) :
    ∃ location content target, disk.find source = .ok location ∧
      disk.isFolder location = false ∧ disk.file? location = some content ∧
      disk.findTarget path = .ok target ∧ after = disk.put target content := by
  unfold Disk.copy at h
  obtain ⟨location, hfind, h⟩ := bind_eq_ok h
  by_cases hfolder : disk.isFolder location = true
  · rw [if_pos hfolder] at h
    cases h
  · rw [if_neg hfolder] at h
    obtain ⟨content, hcontent, hwrite⟩ := bind_eq_ok h
    obtain ⟨target, htarget, rfl⟩ := write_eq_ok.mp hwrite
    have hread : disk.read source = .ok content := by
      rw [Disk.read, hfind]
      exact hcontent
    obtain ⟨found, hfound, hfile⟩ := read_eq_ok.mp hread
    cases hfind.symm.trans hfound
    exact ⟨location, content, target, hfind, by simpa using hfolder, hfile, htarget, rfl⟩

/-- A backup leaves the file that it is of as it was. -/
theorem read_of_copy {content : Bytes} (hslash : '/' ∉ suffix.toList) (hlong : 2 < suffix.length)
    (hread : disk.read path = .ok content) (h : disk.copy path (path ++ suffix) = .ok after) :
    after.read path = .ok content := by
  obtain ⟨location, -, target, hfind, -, -, htarget, rfl⟩ := exists_put_of_copy h
  obtain ⟨hlonger, hfolder⟩ := find_of_findTarget htarget
  exact read_put hfind hread hfolder (ne_of_append hslash hlong hfind hlonger)

/-- A file that has just been copied beside itself can be written over. -/
theorem findTarget_of_copy (hslash : '/' ∉ suffix.toList) (hlong : 2 < suffix.length)
    (hfind : disk.find path = .ok location) (hfile : disk.file? location = some bytes)
    (hfolder : disk.isFolder location = false)
    (htarget : disk.findTarget (path ++ suffix) = .ok target) :
    location ≠ target ∧ (disk.put target bytes).findTarget path = .ok location := by
  obtain ⟨hlonger, hother⟩ := find_of_findTarget htarget
  have hne := ne_of_append hslash hlong hfind hlonger
  have hkept : (disk.put target bytes).file? location = some bytes := by
    rw [Disk.file?_put_of_ne _ _ hne]
    exact hfile
  exact ⟨hne, findTarget_of_find (find_put hother bytes hfind) hkept hfolder⟩

end ScriptRecord.Proofs.Disk.Writing
