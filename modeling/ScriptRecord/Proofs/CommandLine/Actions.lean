import ScriptRecord.CommandLine.Run
import ScriptRecord.Proofs.Disk.Writing
/-!
# Steps of a run

What the steps that runs are made of do to the disk.  Looking and printing leave it as
it is; a file that is written is what the same path reads afterwards, and a backup
leaves the file that it is of as it was.
-/

namespace ScriptRecord.Proofs.CommandLine.Actions

open ScriptRecord.CommandLine
open ScriptRecord.Proofs.Disk.Writing
open ScriptRecord.Proofs.Results

variable {α ε : Type} {session : Session} {done : α → Session → Prop} {failed : Session → Prop}

/-! ## Looking, changing, printing -/

theorem ends_look {context : String} {f : Disk → Except DiskFault α}
    (hdone : ∀ a, f session.disk = .ok a → done a session) (hfailed : failed session) :
    Ends (look context f) session done failed := by
  unfold Ends look
  cases hf : f session.disk with
  | ok a => exact hdone a hf
  | error fault => exact hfailed

theorem ends_change {context : String} {f : Disk → Except DiskFault Disk}
    {done : Unit → Session → Prop}
    (hdone : ∀ disk, f session.disk = .ok disk → done () { session with disk })
    (hfailed : failed session) : Ends (change context f) session done failed := by
  unfold Ends change
  cases hf : f session.disk with
  | ok disk => exact hdone disk hf
  | error fault => exact hfailed

theorem ends_accept {context : String} {chain : ε → List String} {result : Except ε α}
    (hdone : ∀ a, result = .ok a → done a session) (hfailed : failed session) :
    Ends (accept context chain result) session done failed := by
  cases hresult : result with
  | ok a => exact hdone a hresult
  | error e => exact hfailed

theorem print_eq (text : String) (session : Session) :
    print text session = .ok () { session with printed := session.printed ++ text } :=
  rfl

theorem ends_printLine (text : String) {done : Unit → Session → Prop}
    (h : done () { session with printed := session.printed ++ (text ++ "\n") }) :
    Ends (printLine text) session done failed :=
  h

/-! ## Reading a record -/

variable {settings : Settings} {source : Source} {file : RecordFile} {path : String}
  {content bytes : Bytes}

theorem openRecord_of_locate (hread : session.disk.read source.path = .ok content)
    (hoffset : source.offset ≤ content.size)
    (hlocate : RecordFile.locate (settings.container source.platform source.order) content
      source.offset = .ok file) :
    openRecord settings source session = .ok file session := by
  simp only [openRecord, bind, EStateM.bind, look, hread]
  rw [if_neg (Nat.not_lt.mpr hoffset), hlocate]
  rfl

/-- A record that was read stands in what its path reads. -/
theorem locate_of_openRecord {after : Session}
    (h : openRecord settings source session = .ok file after) :
    ∃ content, session.disk.read source.path = .ok content ∧ source.offset ≤ content.size ∧
      RecordFile.locate (settings.container source.platform source.order) content
        source.offset = .ok file := by
  simp only [openRecord, bind, EStateM.bind, look] at h
  cases hread : session.disk.read source.path with
  | error fault =>
      rw [hread] at h
      cases h
  | ok content =>
      rw [hread] at h
      dsimp only at h
      by_cases hoffset : content.size < source.offset
      · rw [if_pos hoffset] at h
        cases h
      · rw [if_neg hoffset] at h
        refine ⟨content, rfl, Nat.not_lt.mp hoffset, ?_⟩
        cases hlocate : RecordFile.locate (settings.container source.platform source.order) content
          source.offset with
        | error error =>
            rw [hlocate] at h
            cases h
        | ok found =>
            rw [hlocate] at h
            cases h
            rfl

/-- What was read leaves the bytes on both sides. -/
theorem exists_of_locate {container : Container} {offset : Nat}
    (h : RecordFile.locate container content offset = .ok file) :
    ∃ size, Script.read container Lzss.codec (content.extract offset content.size) 0 =
        .ok file.script size ∧
      file.before = content.extract 0 offset ∧
      file.after = content.extract (offset + size) content.size := by
  unfold RecordFile.locate at h
  dsimp only at h
  split at h
  · rename_i script size hread
    cases h
    refine ⟨size, hread, rfl, ?_⟩
    dsimp only
    rw [Array.extract_extract, Array.size_extract]
    congr 1
    omega
  · cases h

/-! ## Writing a file -/

theorem ends_writeFile (path : String) (bytes : Bytes) :
    Ends (writeFile path bytes) session
      (fun _ after => session.disk.write path bytes = .ok after.disk)
      (fun after => after = session) :=
  ends_change (fun _ h => h) rfl

/-- A backup that is wanted is a copy, if there is anything to be copied. -/
theorem ends_keepBackup_copy (path : String) (wanted : Bool) :
    Ends (keepBackup path wanted) session
      (fun _ after => (¬ (wanted = true ∧ session.disk.has path = true) ∧
          after.disk = session.disk) ∨
        wanted = true ∧ session.disk.copy path (path ++ ".bak") = .ok after.disk)
      (fun after => after.disk = session.disk) := by
  unfold keepBackup
  apply ends_bind
  refine ends_of_ok rfl ?_
  by_cases hkept : wanted = true ∧ session.disk.has path = true
  · rw [if_pos hkept]
    apply ends_bind
    refine ends_change ?_ rfl
    intro disk hcopy
    exact ends_printLine _ (Or.inr ⟨hkept.1, hcopy⟩)
  · rw [if_neg hkept]
    exact Or.inl ⟨hkept, rfl⟩

/-- A backup changes nothing about the file that it is of. -/
theorem ends_keepBackup (hread : session.disk.read path = .ok content) (wanted : Bool) :
    Ends (keepBackup path wanted) session (fun _ after => after.disk.read path = .ok content)
      (fun after => after.disk.read path = .ok content) := by
  apply (ends_keepBackup_copy path wanted).mono
  · rintro - after (⟨-, hsame⟩ | ⟨-, hcopy⟩)
    · rw [hsame]
      exact hread
    · exact read_of_copy (by decide) (by decide) hread hcopy
  · intro after hsame
    rw [hsame]
    exact hread

/-! ## Editing a text -/

/-- Up to the writing of the file an edit of a text only looks and prints. -/
theorem ends_setText_of_save {index : Nat} {text : String} {target : Target}
    {done : Unit → Session → Prop} (opens : RecordFile → Prop)
    (hopen : Ends (openRecord settings source) session
      (fun file opened => opens file ∧ opened.disk = session.disk) failed)
    (hfailed : ∀ after, after.disk = session.disk → failed after)
    (hsave : ∀ file edited message warned, opens file → warned.disk = session.disk →
      file.setText index text = .ok edited →
      Ends (do
        let path ← save source edited target
        printLine message
        printLine ("Saved: " ++ path)) warned done failed) :
    Ends (setText settings source index text target) session done failed := by
  have hedit (file : RecordFile) (slot : Slot) (warned : Session) (hfile : opens file)
      (hwarned : warned.disk = session.disk) :
      Ends (do
        let edited ← accept ("Failed to update string " ++ toString index) Slot.Failure.chain
          (file.setText index text)
        let path ← save source edited target
        printLine ("String " ++ toString index ++ " set to " ++
          Text.quoted { slot with text }.fittedText)
        printLine ("Saved: " ++ path)) warned done failed := by
    apply ends_bind
    refine ends_accept ?_ (hfailed warned hwarned)
    intro edited hedited
    exact hsave file edited _ warned hfile hwarned hedited
  unfold CommandLine.setText
  apply ends_bind
  apply hopen.mono
  · rintro file opened ⟨hfile, hopened⟩
    dsimp only
    cases file.script.slots[index]? with
    | none => exact hfailed opened hopened
    | some slot =>
        -- The warning changes only what is printed.
        dsimp only
        split
        · apply ends_bind
          apply ends_printLine
          exact hedit file slot _ hfile hopened
        · exact hedit file slot opened hfile hopened
  · exact fun _ hkept => hkept

end ScriptRecord.Proofs.CommandLine.Actions
