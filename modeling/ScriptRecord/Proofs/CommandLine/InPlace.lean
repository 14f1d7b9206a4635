import ScriptRecord.Proofs.CommandLine.Actions
import ScriptRecord.Proofs.Record.Sequence
import ScriptRecord.Proofs.Slot.WritingBack
/-!
# Edits in place

A record in a file is read, edited and written back, over and over.  However many runs
there are, and whichever of them fail, the bytes on both sides of the record stay what
they were: the reader stops where the writer has stopped, so each run replaces what the
one before it has written and nothing else (`edits_in_place`).
-/

namespace ScriptRecord.Proofs.CommandLine.InPlace

open ScriptRecord.CommandLine
open ScriptRecord.Proofs.BytesAt
open ScriptRecord.Proofs.CommandLine.Actions
open ScriptRecord.Proofs.Disk.Writing
open ScriptRecord.Proofs.Record.ReadBack
open ScriptRecord.Proofs.Record.Sequence
open ScriptRecord.Proofs.Results
open ScriptRecord.Proofs.Slot.WritingBack

/-- A run that edits a record in its file. -/
inductive Edit where
  | setText (index : Nat) (text : String) (backup : Bool)
  | importPayload (payload : String) (backup : Bool)

namespace Edit

def request (source : Source) : Edit → Request
  | .setText index text backup => .setText source index text ⟨none, backup⟩
  | .importPayload payload backup => .importPayload source payload ⟨none, backup⟩

/-- The payload that an edit gives a script, if it does: the one with the slot's new text, or
that of a file. -/
def payload? (disk : Disk) (script : Script) : Edit → Option Bytes
  | .setText index text _ =>
    let slots := Slot.extract script.container script.payload
    match Slot.writeBack script.container (slots.modify index fun slot => { slot with text })
      script.payload with
    | .ok () payload => some payload
    | .error _ _ => none
  | .importPayload path _ => (disk.read path).toOption

/-- An imported payload has a size that fits a word. -/
def Fits (disk : Disk) : Edit → Prop
  | .setText .. => True
  | .importPayload path _ => ∀ bytes, disk.read path = .ok bytes → bytes.size < UInt32.size

end Edit

/-- What some runs have led to. -/
structure Progress where
  disk : Disk
  /-- The payload that was put into the record last. -/
  payload : Bytes
  /-- Whether any run has succeeded. -/
  saved : Bool

/-- One more run. What it leaves on the disk stays, whether or not it fails. -/
def next (home : Location) (settings : Settings) (source : Source) (script : Script)
    (progress : Progress) (edit : Edit) : Option Progress :=
  match (edit.request source).run home settings ⟨progress.disk, ""⟩ with
  | .ok () session => do
    return ⟨session.disk, ← edit.payload? progress.disk (script.setPayload progress.payload), true⟩
  | .error _ session => some { progress with disk := session.disk }

def follow (home : Location) (settings : Settings) (source : Source) (script : Script)
    (start : Progress) (edits : List Edit) : Option Progress :=
  edits.foldlM (next home settings source script) start

/-- Every imported payload has a size that fits a word when it is read. -/
def ImportsFit (home : Location) (settings : Settings) (source : Source) (script : Script)
    (start : Progress) : List Edit → Prop
  | [] => True
  | edit :: edits => edit.Fits start.disk ∧
      ∀ after, next home settings source script start edit = some after →
        ImportsFit home settings source script after edits

/-- The bytes of a record in its file, where `record` stood before the runs. -/
def recordBytes (script : Script) (record : Bytes) (progress : Progress) : Bytes :=
  if progress.saved then (script.setPayload progress.payload).toBytes Lzss.codec else record

/-- What runs keep: the bytes on both sides of the record, and all of the script but its
payload. -/
structure Kept (settings : Settings) (source : Source) (file : RecordFile) (record : Bytes)
    (progress : Progress) : Prop where
  read_eq : progress.disk.read source.path =
    .ok (file.before ++ recordBytes file.script record progress ++ file.after)
  opens : openRecord settings source ⟨progress.disk, ""⟩ =
    .ok (file.setPayload progress.payload) ⟨progress.disk, ""⟩
  size_lt : progress.payload.size < UInt32.size

variable {home : Location} {settings : Settings} {source : Source} {container : Container}
  {session : Session} {file : RecordFile} {script : Script} {content payload : Bytes}

/-! ## The record in its file -/

theorem locate_append {before after : Bytes} (hscript : Storable container script) :
    RecordFile.locate container (before ++ script.toBytes Lzss.codec ++ after) before.size =
      .ok ⟨before, script.copy, after⟩ := by
  have hbefore : (before ++ script.toBytes Lzss.codec ++ after).extract 0 before.size = before := by
    simp
  have hrest : (before ++ script.toBytes Lzss.codec ++ after).extract before.size
      (before ++ script.toBytes Lzss.codec ++ after).size =
        script.toBytes Lzss.codec ++ after := by
    rw [Array.append_assoc, Array.size_append, Array.extract_append_right, Array.extract_size]
  have hafter : (script.toBytes Lzss.codec ++ after).extract (script.toBytes Lzss.codec).size
      (script.toBytes Lzss.codec ++ after).size = after := by
    simp
  have hread : Script.read container Lzss.codec (script.toBytes Lzss.codec ++ after) 0 =
      .ok script.copy (script.toBytes Lzss.codec).size := by
    have hat := hasAt_middle #[] (script.toBytes Lzss.codec) after
    rw [Array.empty_append] at hat
    rw [read_script lossless_lzss hscript (Nat.zero_mod _) hat, Nat.zero_add]
  simp only [RecordFile.locate, hrest, hread]
  rw [hbefore, hafter]

/-- A record that is read stops at a multiple of the alignment. -/
theorem read_mod {codec : Codec} {stream : Bytes} {size : Nat}
    (h : Script.read container codec stream 0 = .ok script size) :
    size % Record.alignment = 0 := by
  obtain ⟨record, hread, -⟩ := Script.ofResult_eq_ok h
  obtain ⟨_, stored, -, -, hnext⟩ := exists_of_read hread
  rw [hnext]
  exact align_mod _

theorem setPayload_payload (h : file.script.cache = none) :
    file.setPayload file.script.payload = file := by
  obtain ⟨before, ⟨record, container, cache⟩, after⟩ := file
  cases h
  rfl

theorem toBytes_eq (file : RecordFile) :
    file.toBytes = .ok (file.before ++ file.script.toBytes Lzss.codec ++ file.after) := by
  unfold RecordFile.toBytes
  rw [write_script lossless_lzss]
  rfl

/-! ## One run -/

theorem ends_save (hread : session.disk.read source.path = .ok content) (edited : RecordFile)
    (backup : Bool) :
    Ends (save source edited ⟨none, backup⟩) session
      (fun _ after => after.disk.read source.path =
        .ok (edited.before ++ edited.script.toBytes Lzss.codec ++ edited.after))
      (fun after => after.disk.read source.path = .ok content) := by
  unfold save
  apply ends_bind
  refine ends_accept ?_ hread
  intro bytes hbytes
  rw [toBytes_eq] at hbytes
  cases hbytes
  apply ends_bind
  apply (ends_keepBackup hread backup).mono _ fun _ hkept => hkept
  intro _ kept hkept
  apply ends_bind
  apply (ends_writeFile source.path _).mono
  · intro _ after hwrite
    exact read_of_write hwrite
  · rintro after rfl
    exact hkept

/-- What an edit that succeeds leaves in its file. -/
def Edited (source : Source) (file : RecordFile) (disk : Disk) (edit : Edit) (after : Session) :
    Prop :=
  ∃ payload, edit.payload? disk file.script = some payload ∧
    after.disk.read source.path =
      .ok (file.before ++ (file.script.setPayload payload).toBytes Lzss.codec ++ file.after)

theorem setText_eq_ok {edited : RecordFile} {index : Nat} {text : String} (disk : Disk)
    (backup : Bool) (hcache : file.script.cache = none)
    (h : file.setText index text = .ok edited) :
    ∃ payload, (Edit.setText index text backup).payload? disk file.script = some payload ∧
      edited = file.setPayload payload := by
  obtain ⟨before, ⟨record, container, cache⟩, after⟩ := file
  cases hcache
  unfold RecordFile.setText Script.commit at h
  unfold Edit.payload?
  cases hwrite : Slot.writeBack container
    ((Slot.extract container record.payload).modify index fun slot => { slot with text })
    record.payload with
  | ok done payload =>
      simp only [Script.editText, Script.slots, Script.payload, Option.getD_none, hwrite] at h ⊢
      cases h
      exact ⟨payload, rfl, rfl⟩
  | error error payload =>
      simp only [Script.editText, Script.slots, Script.payload, Option.getD_none, hwrite] at h
      cases h

theorem ends_setText (hopen : openRecord settings source session = .ok file session)
    (hcache : file.script.cache = none) (hread : session.disk.read source.path = .ok content)
    (index : Nat) (text : String) (backup : Bool) :
    Ends (setText settings source index text ⟨none, backup⟩) session
      (fun _ => Edited source file session.disk (.setText index text backup))
      (fun after => after.disk.read source.path = .ok content) := by
  apply ends_setText_of_save (· = file) (ends_of_ok hopen ⟨rfl, rfl⟩)
  · intro after hsame
    rw [hsame]
    exact hread
  · rintro file edited message warned rfl hdisk hedited
    have hread' : warned.disk.read source.path = .ok content := hdisk ▸ hread
    obtain ⟨payload, hpayload, rfl⟩ := setText_eq_ok session.disk backup hcache hedited
    apply ends_bind
    apply (ends_save hread' _ backup).mono _ fun _ hkept => hkept
    intro saved after hsaved
    exact ⟨payload, hpayload, hsaved⟩

theorem ends_importPayload (hopen : openRecord settings source session = .ok file session)
    (hread : session.disk.read source.path = .ok content) (path : String) (backup : Bool) :
    Ends (importPayload settings source path ⟨none, backup⟩) session
      (fun _ => Edited source file session.disk (.importPayload path backup))
      (fun after => after.disk.read source.path = .ok content) := by
  unfold importPayload
  apply ends_bind
  refine ends_of_ok hopen ?_
  apply ends_bind
  refine ends_look ?_ hread
  intro bytes hbytes
  apply ends_bind
  apply (ends_save hread _ backup).mono _ fun _ hkept => hkept
  intro saved after hsaved
  refine ⟨bytes, ?_, hsaved⟩
  rw [Edit.payload?, hbytes]
  rfl

theorem ends_edit (hopen : openRecord settings source session = .ok file session)
    (hcache : file.script.cache = none) (hread : session.disk.read source.path = .ok content)
    (edit : Edit) :
    Ends ((edit.request source).run home settings) session
      (fun _ => Edited source file session.disk edit)
      (fun after => after.disk.read source.path = .ok content) := by
  cases edit with
  | setText index text backup => exact ends_setText hopen hcache hread index text backup
  | importPayload path backup => exact ends_importPayload hopen hread path backup

/-- New texts keep the size of the payload. -/
theorem size_payload? {disk : Disk} {edit : Edit} (h : edit.payload? disk script = some payload)
    (hsize : script.payload.size < UInt32.size) (hfits : edit.Fits disk) :
    payload.size < UInt32.size := by
  cases edit with
  | setText index text backup =>
      unfold Edit.payload? at h
      dsimp only at h
      split at h
      · rename_i after hwrite
        obtain ⟨writes, -, rfl⟩ := fitAll_of_writeBack hwrite
        cases h
        rw [size_written]
        exact hsize
      · cases h
  | importPayload path backup =>
      change (disk.read path).toOption = some payload at h
      cases hread : disk.read path with
      | ok bytes =>
          rw [hread] at h
          cases h
          exact hfits _ hread
      | error fault =>
          rw [hread] at h
          cases h

/-! ## Any number of runs -/

variable {record : Bytes} {progress : Progress}

theorem kept_next (hscript : Storable (settings.container source.platform source.order) file.script)
    (hbefore : file.before.size = source.offset) (h : Kept settings source file record progress)
    {edit : Edit} (hfits : edit.Fits progress.disk) :
    ∃ after, next home settings source file.script progress edit = some after ∧
      Kept settings source file record after := by
  have hends := @ends_edit home _ _ _ _ _ h.opens rfl h.read_eq edit
  unfold Ends at hends
  unfold next
  cases hrun : (edit.request source).run home settings ⟨progress.disk, ""⟩ with
  | ok done session =>
      rw [hrun] at hends
      obtain ⟨payload, hpayload, hread⟩ := hends
      have hsize := size_payload? hpayload h.size_lt hfits
      -- What was written is read up to its end, so the bytes after it are the same again.
      have hstorable : Storable (settings.container source.platform source.order)
          (file.script.setPayload payload) :=
        ⟨hscript.container_eq, hscript.type_eq, hsize⟩
      refine ⟨⟨session.disk, payload, true⟩, ?_, hread, ?_, hsize⟩
      · change (edit.payload? progress.disk (file.setPayload progress.payload).script >>= _) = _
        rw [hpayload]
        rfl
      · have hread' : (Session.mk session.disk "").disk.read source.path = _ := hread
        apply openRecord_of_locate hread'
        · rw [Array.size_append, Array.size_append, ← hbefore]
          exact (Nat.le_add_right _ _).trans (Nat.le_add_right _ _)
        · rw [← hbefore]
          exact locate_append hstorable
  | error failure session =>
      rw [hrun] at hends
      -- The file is as it was, and all that is read comes from it.
      obtain ⟨content, hread, hoffset, hlocate⟩ := locate_of_openRecord h.opens
      have hcontent := h.read_eq.symm.trans hread
      cases hcontent
      exact ⟨_, rfl, hends, openRecord_of_locate hends hoffset hlocate, h.size_lt⟩

theorem kept_follow
    (hscript : Storable (settings.container source.platform source.order) file.script)
    (hbefore : file.before.size = source.offset) {edits : List Edit} {start : Progress}
    (h : Kept settings source file record start)
    (hfit : ImportsFit home settings source file.script start edits) :
    ∃ progress, follow home settings source file.script start edits = some progress ∧
      Kept settings source file record progress := by
  induction edits generalizing start with
  | nil => exact ⟨start, rfl, h⟩
  | cons edit edits ih =>
      obtain ⟨hfits, hrest⟩ := hfit
      obtain ⟨after, hafter, hkept⟩ := kept_next hscript hbefore h hfits
      rw [follow, List.foldlM_cons, hafter]
      exact ih hkept (hrest after hafter)

/-- What is exported is the payload that was put in last, and the exported file reads so. -/
theorem export_of_kept (h : Kept settings source file record progress) {output : String}
    {written : Disk} (hwrite : progress.disk.write output progress.payload = .ok written) :
    ∃ printed, (Request.exportPayload source output).run home settings ⟨progress.disk, ""⟩ =
        .ok () ⟨written, printed⟩ ∧
      written.read output = .ok progress.payload := by
  refine ⟨"" ++ ("Exported " ++ toString progress.payload.size ++ " bytes to " ++ output ++ "\n"),
    ?_, read_of_write hwrite⟩
  change exportPayload settings source output ⟨progress.disk, ""⟩ = _
  have hpayload : (file.setPayload progress.payload).script.payload = progress.payload := rfl
  simp only [exportPayload, bind, EStateM.bind, h.opens, writeFile, change, hpayload, hwrite]
  rfl

/-- However many runs edit a record in place, and whichever fail, its file is the bytes
before the record, the record, and the bytes after it, never past the end.  Once a run
has succeeded, the record is that of the script with the last payload, and so are the
script that is read again and the payload that is exported. -/
theorem edits_in_place (home : Location) (settings : Settings) (source : Source) (disk : Disk)
    (file : RecordFile) (hopen : openRecord settings source ⟨disk, ""⟩ = .ok file ⟨disk, ""⟩)
    (edits : List Edit)
    (hfit : ImportsFit home settings source file.script ⟨disk, file.script.payload, false⟩ edits) :
    ∃ content size progress, disk.read source.path = .ok content ∧
      Script.read (settings.container source.platform source.order) Lzss.codec
        (content.extract source.offset content.size) 0 = .ok file.script size ∧
      size % Record.alignment = 0 ∧
      file.before = content.extract 0 source.offset ∧
      file.after = content.extract (source.offset + size) content.size ∧
      follow home settings source file.script ⟨disk, file.script.payload, false⟩ edits =
        some progress ∧
      progress.disk.read source.path = .ok (file.before ++
        (if progress.saved then (file.script.setPayload progress.payload).toBytes Lzss.codec
          else content.extract source.offset (source.offset + size)) ++ file.after) ∧
      openRecord settings source ⟨progress.disk, ""⟩ =
        .ok (file.setPayload progress.payload) ⟨progress.disk, ""⟩ ∧
      ∀ output written, progress.disk.write output progress.payload = .ok written →
        ∃ printed, (Request.exportPayload source output).run home settings ⟨progress.disk, ""⟩ =
            .ok () ⟨written, printed⟩ ∧
          written.read output = .ok progress.payload := by
  obtain ⟨content, hread, hoffset, hlocate⟩ := locate_of_openRecord hopen
  obtain ⟨size, hscript, hbefore, hafter⟩ := exists_of_locate hlocate
  have hstorable := storable_of_read hscript
  have hsize : file.before.size = source.offset := by
    rw [hbefore, Array.size_extract]
    omega
  have hcontent : file.before ++ content.extract source.offset (source.offset + size) ++ file.after =
      content := by
    rw [hbefore, hafter, Array.extract_append_extract, Nat.zero_min, Nat.max_eq_right (by omega),
      Array.extract_append_extract, Nat.zero_min, Array.extract_eq_self_of_le (by omega)]
  have hstart : Kept settings source file (content.extract source.offset (source.offset + size))
      ⟨disk, file.script.payload, false⟩ := by
    refine ⟨?_, ?_, hstorable.size_lt⟩
    · change disk.read source.path = .ok (file.before ++ _ ++ file.after)
      rw [hread]
      exact congrArg Except.ok hcontent.symm
    · change openRecord settings source ⟨disk, ""⟩ = .ok (file.setPayload file.script.payload) _
      rw [setPayload_payload (cache_of_read hscript)]
      exact hopen
  obtain ⟨progress, hfollow, hkept⟩ := kept_follow hstorable hsize hstart hfit
  refine ⟨content, size, progress, hread, hscript, read_mod hscript, hbefore, hafter, hfollow,
    hkept.read_eq, hkept.opens, ?_⟩
  intro output written hwrite
  exact export_of_kept hkept hwrite

/-- A payload is imported, a text of it is changed, and the edit of a slot that is not there
fails. -/
theorem edits_in_place_threeRuns :
    let source : Source := ⟨"scripts", 4, none, none⟩
    let script : Script := (Script.fresh (Settings.empty.container none none)).setPayload
      #[1, 0x48, 0x45, 0x4C, 0x4C, 0x4F, 1, 0x24]
    let file : RecordFile := ⟨#[9, 9, 9, 9], script, #[7]⟩
    let disk : Disk := ⟨[["work"]],
      [(["work", "scripts"], file.before ++ script.toBytes Lzss.codec ++ file.after),
        (["work", "payload"], #[0x48, 0x4F, 0x57, 0x44, 0x59, 1, 0x24])], ["work"]⟩
    let start : Progress := ⟨disk, script.payload, false⟩
    let edits : List Edit :=
      [.importPayload "payload" true, .setText 0 "BYE" false, .setText 1 "BYE" false]
    openRecord .empty source ⟨disk, ""⟩ = .ok file ⟨disk, ""⟩ ∧
      ImportsFit [] .empty source script start edits ∧
      ∃ progress, follow [] .empty source script start edits = some progress ∧
        (progress.payload, progress.saved) = (#[0x42, 0x59, 0x45, 0x20, 0x20, 1, 0x24], true) ∧
        progress.disk.read "scripts" = .ok (#[9, 9, 9, 9] ++
          (script.setPayload progress.payload).toBytes Lzss.codec ++ #[7]) := by
  intro source script file disk start edits
  have hopen : openRecord .empty source ⟨disk, ""⟩ = .ok file ⟨disk, ""⟩ := by
    have hscript : Storable (Settings.empty.container none none) script :=
      ⟨rfl, rfl, by decide⟩
    have hread : disk.read "scripts" =
        .ok (file.before ++ script.toBytes Lzss.codec ++ file.after) := by
      rfl
    exact openRecord_of_locate hread (by simp [source, file]) (locate_append hscript)
  have hfit : ImportsFit [] .empty source script start edits := by
    refine ⟨?_, fun _ _ => ⟨trivial, fun _ _ => ⟨trivial, fun _ _ => trivial⟩⟩⟩
    intro bytes hbytes
    have hread : disk.read "payload" = .ok #[0x48, 0x4F, 0x57, 0x44, 0x59, 1, 0x24] := by
      rfl
    cases hread.symm.trans hbytes
    decide
  have hrun : (follow [] .empty source script start edits).map
      (fun progress => (progress.payload, progress.saved)) =
        some (#[0x42, 0x59, 0x45, 0x20, 0x20, 1, 0x24], true) := by
    decide +kernel
  obtain ⟨content, size, progress, -, -, -, -, -, hfollow, hread, -⟩ :=
    edits_in_place [] .empty source disk file hopen edits hfit
  have hpair : (progress.payload, progress.saved) =
      (#[0x42, 0x59, 0x45, 0x20, 0x20, 1, 0x24], true) :=
    Option.some_inj.mp ((congrArg (Option.map _) hfollow).symm.trans hrun)
  refine ⟨hopen, hfit, progress, hfollow, hpair, ?_⟩
  rw [if_pos (congrArg Prod.snd hpair)] at hread
  exact hread

end ScriptRecord.Proofs.CommandLine.InPlace
