import ScriptRecord.Proofs.CommandLine.Actions
/-!
# What a run leaves alone

Files are written last, so a run that fails has not written any.  The one step that
could fail after another has written is the write after a backup, and it does not: a
file that was just copied can be written over.  `runs_framed` puts this together for
all requests: which runs change nothing at all, and which places an edit may change.
-/

namespace ScriptRecord.Proofs.CommandLine.Frame

open ScriptRecord.CommandLine
open ScriptRecord.Proofs.CommandLine.Actions
open ScriptRecord.Proofs.Disk.Writing
open ScriptRecord.Proofs.Results

/-- A request that is answered on the screen. -/
def OnlyShows : Request → Prop
  | .info _ | .listSlots _ _ | .dump _ | .decompile _ _ none | .showSettings => True
  | _ => False

/-- Where an edit reads a record from and where it goes. -/
def edit? : Request → Option (Source × Target)
  | .setText source _ _ target | .importPayload source _ target => some (source, target)
  | _ => none

/-- A run that does what it is asked for. -/
def Succeeds (home : Location) (disk : Disk) (words : List String) : Prop :=
  ∃ report, run home disk words = .ok report ∧ report.failure = none

/-- The disk that a run leaves. Words that are no request are answered without a disk. -/
def diskAfter (home : Location) (disk : Disk) (words : List String) : Disk :=
  match run home disk words with
  | .ok report => report.disk
  | .error _ => disk

/-- The same disk, except for the files in some places. -/
structure SameBut (places : List Location) (disk after : Disk) : Prop where
  folders : after.folders = disk.folders
  here : after.here = disk.here
  files : ∀ place, place ∉ places → after.file? place = disk.file? place

/-- What may have changed once an edit has been written to a path: the file there, and the one
beside it that holds what the file held before. -/
inductive Saved (disk : Disk) (path : String) (backup : Bool) (after : Disk) : Prop
  | alone (target : Location) (found : disk.findTarget path = .ok target)
      (unwanted : ¬ (backup = true ∧ (disk.file? target).isSome = true))
      (same : SameBut [target] disk after)
  | kept (target beside : Location) (old : Bytes) (found : disk.findTarget path = .ok target)
      (wanted : backup = true) (held : disk.file? target = some old)
      (foundBeside : disk.findTarget (path ++ ".bak") = .ok beside)
      (ne : beside ≠ target) (copied : after.file? beside = some old)
      (same : SameBut [target, beside] disk after)

/-- A step that leaves the disk as it is, whichever way it ends. -/
def Looks {α : Type} (step : Action α) : Prop :=
  ∀ session, Ends step session (fun _ after => after.disk = session.disk)
    (fun after => after.disk = session.disk)

variable {α β ε : Type} {step : Action α} {next : α → Action β} {session : Session}
  {settings : Settings} {source : Source} {home : Location}

/-! ## Steps that look -/

theorem looks_pure (a : α) : Looks (pure a : Action α) := fun _ => rfl

theorem looks_throw (failure : Failure) : Looks (throw failure : Action α) := fun _ => rfl

theorem looks_look (context : String) (f : Disk → Except DiskFault α) : Looks (look context f) :=
  fun _ => ends_look (fun _ _ => rfl) rfl

theorem looks_accept (context : String) (chain : ε → List String) (result : Except ε α) :
    Looks (accept context chain result) :=
  fun _ => ends_accept (fun _ _ => rfl) rfl

theorem looks_print (text : String) : Looks (print text) := fun _ => rfl

theorem looks_printLine (text : String) : Looks (printLine text) := fun _ => rfl

/-- What follows a look starts from the same disk. -/
theorem Looks.ends_bind {done : β → Session → Prop} {failed : Session → Prop} (h : Looks step)
    (hnext : ∀ a after, after.disk = session.disk → Ends (next a) after done failed)
    (hfailed : ∀ after, after.disk = session.disk → failed after) :
    Ends (step >>= next) session done failed :=
  Results.ends_bind ((h session).mono hnext hfailed)

theorem Looks.bind (h : Looks step) (hnext : ∀ a, Looks (next a)) : Looks (step >>= next) := by
  intro session
  apply h.ends_bind
  · intro a after hafter
    rw [← hafter]
    exact hnext a after
  · exact fun _ hafter => hafter

theorem looks_openRecord (settings : Settings) (source : Source) :
    Looks (openRecord settings source) := by
  apply (looks_look _ _).bind
  intro bytes
  dsimp only
  split
  · exact looks_throw _
  · exact looks_accept _ _ _

theorem looks_loadNames (path : Option String) : Looks (loadNames path) := by
  cases path with
  | none => exact looks_pure _
  | some path => exact (looks_look _ _).bind fun _ => looks_pure _

theorem looks_loadSettings (home : Location) : Looks (loadSettings home) := by
  apply (looks_look _ _).bind
  intro text
  cases text with
  | none => exact looks_pure _
  | some text =>
      dsimp only
      split
      · exact looks_pure _
      · exact looks_throw _

theorem looks_showSettings (home : Location) (settings : Settings) :
    Looks (showSettings home settings) := by
  unfold showSettings
  iterate 4 refine (looks_printLine _).bind fun _ => ?_
  exact looks_printLine _

theorem looks_of_onlyShows {request : Request} (h : OnlyShows request) (home : Location)
    (settings : Settings) : Looks (request.run home settings) := by
  cases request with
  | info source =>
      apply (looks_openRecord settings source).bind
      intro file
      exact (looks_print _).bind fun _ => looks_printLine _
  | decompile source names output =>
      cases output with
      | some path => exact h.elim
      | none =>
          apply (looks_openRecord settings source).bind
          intro file
          apply (looks_loadNames _).bind
          intro global
          apply (looks_loadNames _).bind
          intro overrides
          exact (looks_accept _ _ _).bind fun _ => looks_printLine _
  | listSlots source format =>
      apply (looks_openRecord settings source).bind
      intro file
      cases format with
      | table => exact looks_print _
      | json => exact looks_printLine _
  | dump source => exact (looks_openRecord settings source).bind fun _ => looks_print _
  | showSettings => exact looks_showSettings home settings
  | setText | exportPayload | importPayload | changeSettings => exact h.elim

/-! ## Writing an edited file -/

theorem has_of_file {disk : Disk} {path : String} {location : Location} {content : Bytes}
    (hfind : disk.find path = .ok location) (hfile : disk.file? location = some content) :
    disk.has path = true := by
  rw [Disk.has, hfind]
  simp [Disk.isTaken, hfile]

theorem SameBut.put (disk : Disk) (place : Location) (bytes : Bytes) :
    SameBut [place] disk (disk.put place bytes) where
  folders := rfl
  here := rfl
  files other hother := Disk.file?_put_of_ne disk bytes (by simpa using hother)

theorem SameBut.trans {places others : List Location} {disk after last : Disk}
    (h : SameBut places disk after) (h' : SameBut others after last) :
    SameBut (others ++ places) disk last where
  folders := h'.folders.trans h.folders
  here := h'.here.trans h.here
  files place hplace := by
    rw [List.mem_append, not_or] at hplace
    exact (h'.files place hplace.1).trans (h.files place hplace.2)

theorem saved_put {disk : Disk} {path : String} {backup : Bool} {target : Location}
    (bytes : Bytes) (hfound : disk.findTarget path = .ok target)
    (hunwanted : ¬ (backup = true ∧ disk.has path = true)) :
    Saved disk path backup (disk.put target bytes) := by
  refine .alone target hfound ?_ (.put disk target bytes)
  rintro ⟨hbackup, hsome⟩
  obtain ⟨content, hfile⟩ := Option.isSome_iff_exists.mp hsome
  exact hunwanted ⟨hbackup, has_of_file (find_of_findTarget hfound).1 hfile⟩

/-- After a backup the write does not fail, and the backup stays. -/
theorem exists_saved_of_copy {disk copied : Disk} {path : String}
    (h : disk.copy path (path ++ ".bak") = .ok copied) (bytes : Bytes) :
    ∃ after, copied.write path bytes = .ok after ∧ Saved disk path true after := by
  obtain ⟨target, old, beside, hfind, hfolder, hfile, hbeside, rfl⟩ := exists_put_of_copy h
  obtain ⟨hne, hfound⟩ := findTarget_of_copy (by decide) (by decide) hfind hfile hfolder hbeside
  refine ⟨_, write_eq_ok.mpr ⟨target, hfound, rfl⟩, ?_⟩
  refine .kept target beside old (findTarget_of_find hfind hfile hfolder) rfl hfile hbeside
    hne.symm ?_ ((SameBut.put disk beside old).trans (.put _ target bytes))
  rw [Disk.file?_put_of_ne _ _ hne.symm, Disk.file?_put]

theorem writeFile_of_write {path : String} {bytes : Bytes} {disk : Disk}
    (h : session.disk.write path bytes = .ok disk) :
    writeFile path bytes session = .ok () { session with disk } := by
  simp only [writeFile, change, h]

/-- An edit is written as it should be or not at all. -/
theorem save_framed (source : Source) (file : RecordFile) (target : Target) :
    Ends (save source file target) session
      (fun _ after => Saved session.disk (target.output.getD source.path) target.backup after.disk)
      (fun after => after.disk = session.disk) := by
  unfold save
  apply (looks_accept _ _ _).ends_bind
  · intro bytes encoded hencoded
    apply ends_bind
    apply (ends_keepBackup_copy _ target.backup).mono
    · rintro - kept (⟨hunwanted, hkept⟩ | ⟨hwanted, hcopy⟩)
      · -- Without a backup the write may fail, and has changed nothing then.
        rw [hencoded] at hunwanted hkept
        apply ends_bind
        apply (ends_writeFile _ bytes).mono
        · intro _ after hwrite
          rw [hkept] at hwrite
          obtain ⟨place, hfound, hafter⟩ := write_eq_ok.mp hwrite
          change Saved _ _ _ after.disk
          rw [hafter]
          exact saved_put bytes hfound hunwanted
        · rintro after rfl
          exact hkept
      · rw [hencoded] at hcopy
        -- The disk has changed, so the write must not fail from here on.
        obtain ⟨disk, hwrite, hsaved⟩ := exists_saved_of_copy hcopy bytes
        apply ends_bind
        refine ends_of_ok (writeFile_of_write hwrite) ?_
        change Saved _ _ _ disk
        rw [hwanted]
        exact hsaved
    · intro after hafter
      exact hafter.trans hencoded
  · exact fun _ hafter => hafter

/-- The end of every edit. -/
theorem ends_save_report {disk : Disk} (hdisk : session.disk = disk) (source : Source)
    (file : RecordFile) (target : Target) (message : String) :
    Ends (do
      let path ← save source file target
      printLine message
      printLine ("Saved: " ++ path)) session
      (fun _ after => Saved disk (target.output.getD source.path) target.backup after.disk)
      (fun after => after.disk = disk) := by
  subst hdisk
  apply ends_bind
  apply (save_framed source file target).mono
  · intro path saved hsaved
    apply ends_bind
    apply ends_printLine
    apply ends_printLine
    exact hsaved
  · exact fun _ hkept => hkept

theorem setText_framed (source : Source) (index : Nat) (text : String) (target : Target) :
    Ends (setText settings source index text target) session
      (fun _ after => Saved session.disk (target.output.getD source.path) target.backup after.disk)
      (fun after => after.disk = session.disk) := by
  apply ends_setText_of_save fun _ => True
  · exact (looks_openRecord settings source session).mono (fun _ _ h => ⟨trivial, h⟩)
      fun _ hkept => hkept
  · exact fun _ hkept => hkept
  · intro file edited message warned _ hwarned _
    exact ends_save_report hwarned source edited target message

theorem importPayload_framed (source : Source) (payload : String) (target : Target) :
    Ends (importPayload settings source payload target) session
      (fun _ after => Saved session.disk (target.output.getD source.path) target.backup after.disk)
      (fun after => after.disk = session.disk) := by
  apply (looks_openRecord settings source).ends_bind
  · intro file opened hopened
    apply (looks_look _ _).ends_bind
    · intro bytes read hread
      exact ends_save_report (hread.trans hopened) source _ target _
    · exact fun _ hkept => hkept.trans hopened
  · exact fun _ hkept => hkept

theorem edit_framed {request : Request} {target : Target}
    (h : edit? request = some (source, target)) (home : Location) (settings : Settings) :
    Ends (request.run home settings) session
      (fun _ after => Saved session.disk (target.output.getD source.path) target.backup after.disk)
      (fun after => after.disk = session.disk) := by
  cases request with
  | setText source index text target =>
      cases h
      exact setText_framed source index text target
  | importPayload source payload target =>
      cases h
      exact importPayload_framed source payload target
  | _ => cases h

/-! ## Failures -/

/-- A step that leaves the files as they are if it fails. -/
def Refuses {α : Type} (step : Action α) : Prop :=
  ∀ session, Ends step session (fun _ _ => True)
    (fun after => after.disk.files = session.disk.files)

theorem Looks.refuses (h : Looks step) : Refuses step := fun session =>
  (h session).mono (fun _ _ _ => trivial) fun _ hkept => congrArg Disk.files hkept

/-- Looking before a step does not make its failure worse. -/
theorem Looks.bind_refuses (h : Looks step) (hnext : ∀ a, Refuses (next a)) :
    Refuses (step >>= next) := by
  intro session
  apply h.ends_bind
  · intro a after hafter
    rw [← hafter]
    exact hnext a after
  · exact fun _ hkept => congrArg Disk.files hkept

/-- A report at the end does not fail. -/
theorem refuses_report {change : Action Unit} (h : Refuses change) (message : String) :
    Refuses (change >>= fun _ => printLine message) := fun session =>
  ends_bind ((h session).mono (fun _ _ _ => ends_printLine _ trivial) fun _ hkept => hkept)

theorem refuses_writeFile (path : String) (bytes : Bytes) : Refuses (writeFile path bytes) :=
  fun _ => ends_change (fun _ _ => trivial) rfl

theorem files_of_makeFolder {disk after : Disk} {location : Location}
    (h : disk.makeFolder location = .ok after) : after.files = disk.files := by
  unfold Disk.makeFolder at h
  dsimp only at h
  split at h
  · cases h
  · split at h
    · cases h
    · cases h
      rfl

/-- Where the settings cannot be written, at most their folder has been made. -/
theorem refuses_saveSettings (home : Location) (settings : Settings) :
    Refuses (saveSettings home settings) := by
  intro session
  apply ends_bind
  refine ends_change ?_ rfl
  intro disk hmade
  exact ends_change (fun _ _ => trivial) (files_of_makeFolder hmade)

theorem looks_setPlatform (settings : Settings) (platform : Option Platform) :
    Looks (setPlatform settings platform) := by
  cases platform with
  | none => exact looks_pure _
  | some platform => exact (looks_printLine _).bind fun _ => looks_pure _

theorem looks_setOrder (settings : Settings) (order : Option ByteOrder) :
    Looks (setOrder settings order) := by
  cases order with
  | none => exact looks_pure _
  | some order => exact (looks_printLine _).bind fun _ => looks_pure _

theorem looks_setCharset (settings : Settings) (chars : Option String) :
    Looks (setCharset settings chars) := by
  cases chars with
  | none => exact looks_pure _
  | some chars =>
      unfold setCharset
      dsimp only
      split
      · exact (looks_printLine _).bind fun _ => looks_pure _
      · exact (looks_printLine _).bind fun _ => looks_pure _

theorem looks_setNames (settings : Settings) (path : Option String) :
    Looks (setNames settings path) := by
  cases path with
  | none => exact looks_pure _
  | some path =>
      apply (looks_look _ _).bind
      intro found
      exact (looks_printLine _).bind fun _ => looks_pure _

theorem refuses_changeSettings (home : Location) (settings changes : Settings) :
    Refuses (changeSettings home settings changes) := by
  unfold changeSettings
  split
  · exact (looks_print _).refuses
  · apply (looks_setPlatform _ _).bind_refuses
    intro settings
    apply (looks_setOrder _ _).bind_refuses
    intro settings
    apply (looks_setCharset _ _).bind_refuses
    intro settings
    apply (looks_setNames _ _).bind_refuses
    intro settings
    exact refuses_report (refuses_saveSettings home settings) _

theorem refuses_decompile (settings : Settings) (source : Source) (names output : Option String) :
    Refuses (CommandLine.decompile settings source names output) := by
  apply (looks_openRecord settings source).bind_refuses
  intro file
  apply (looks_loadNames _).bind_refuses
  intro global
  apply (looks_loadNames _).bind_refuses
  intro overrides
  apply (looks_accept _ _ _).bind_refuses
  intro text
  cases output with
  | none => exact (looks_printLine _).refuses
  | some path => exact refuses_report (refuses_writeFile path _) _

/-- No request leaves a file that was half done. -/
theorem refuses_run (request : Request) (home : Location) (settings : Settings) :
    Refuses (request.run home settings) := by
  have hedit {source : Source} {target : Target} (h : edit? request = some (source, target)) :
      Refuses (request.run home settings) := fun session =>
    (edit_framed h home settings).mono (fun _ _ _ => trivial) fun _ hkept =>
      congrArg Disk.files hkept
  cases request with
  | info | listSlots | dump | showSettings =>
      exact (looks_of_onlyShows (by exact trivial) home settings).refuses
  | decompile source names output => exact refuses_decompile settings source names output
  | setText | importPayload => exact hedit rfl
  | exportPayload source output =>
      apply (looks_openRecord settings source).bind_refuses
      intro file
      exact refuses_report (refuses_writeFile output _) _
  | changeSettings changes => exact refuses_changeSettings home settings changes

/-! ## Runs -/

theorem refuses_perform (home : Location) (request : Request) :
    Refuses (request.perform home) :=
  (looks_loadSettings home).bind_refuses fun settings => refuses_run request home settings

theorem looks_perform {request : Request} (h : OnlyShows request) (home : Location) :
    Looks (request.perform home) :=
  (looks_loadSettings home).bind fun settings => looks_of_onlyShows h home settings

theorem perform_framed {request : Request} {target : Target}
    (h : edit? request = some (source, target)) (home : Location) :
    Ends (request.perform home) session
      (fun _ after => Saved session.disk (target.output.getD source.path) target.backup after.disk)
      (fun after => after.disk = session.disk) := by
  apply (looks_loadSettings home).ends_bind
  · intro settings loaded hloaded
    rw [← hloaded]
    exact edit_framed h home settings
  · exact fun _ hkept => hkept

variable {disk : Disk} {words : List String} {request : Request}

theorem diskAfter_of_stop {stop : Stop} (h : Request.read words = .error stop) :
    diskAfter home disk words = disk := by
  rw [diskAfter, run, h]
  rfl

/-- What a request ends with is what the run of its words leaves. -/
theorem run_of_ends (done failed : Disk → Prop) (hread : Request.read words = .ok request)
    (h : Ends (request.perform home) ⟨disk, ""⟩ (fun _ after => done after.disk)
      (fun after => failed after.disk)) :
    (Succeeds home disk words → done (diskAfter home disk words)) ∧
      (¬ Succeeds home disk words → failed (diskAfter home disk words)) := by
  unfold Ends at h
  cases hrun : request.perform home ⟨disk, ""⟩ with
  | ok a after =>
      have hreport : run home disk words = .ok ⟨after.printed, none, after.disk⟩ := by
        simp only [run, hread, hrun, bind, Except.bind]
        rfl
      rw [hrun] at h
      rw [diskAfter, hreport]
      exact ⟨fun _ => h, fun hfailed => (hfailed ⟨_, hreport, rfl⟩).elim⟩
  | error failure after =>
      have hreport : run home disk words = .ok ⟨after.printed, some failure, after.disk⟩ := by
        simp only [run, hread, hrun, bind, Except.bind]
        rfl
      rw [hrun] at h
      rw [diskAfter, hreport]
      refine ⟨?_, fun _ => h⟩
      rintro ⟨report, hother, hsuccess⟩
      rw [hreport] at hother
      cases hother
      cases hsuccess

/-- A run that fails leaves all files as they were, one that only shows leaves the whole disk, and
an edit changes the file it is written to and, where one is wanted, the backup beside it. -/
theorem runs_framed (home : Location) (disk : Disk) (words : List String) :
    (¬ Succeeds home disk words → (diskAfter home disk words).files = disk.files) ∧
    (∀ request, Request.read words = .ok request → OnlyShows request →
      diskAfter home disk words = disk) ∧
    (∀ request source target, Request.read words = .ok request →
      edit? request = some (source, target) → Succeeds home disk words →
        Saved disk (target.output.getD source.path) target.backup
          (diskAfter home disk words)) := by
  refine ⟨?_, ?_, ?_⟩
  · intro hfailed
    cases hread : Request.read words with
    | error stop => rw [diskAfter_of_stop hread]
    | ok request =>
        exact (run_of_ends (fun _ => True) (fun after => after.files = disk.files) hread
          (refuses_perform home request ⟨disk, ""⟩)).2 hfailed
  · intro request hread hshows
    have hends := run_of_ends (fun after => after = disk) (fun after => after = disk) hread
      (looks_perform hshows home ⟨disk, ""⟩)
    by_cases hsuccess : Succeeds home disk words
    · exact hends.1 hsuccess
    · exact hends.2 hsuccess
  · intro request source target hread hedit hsuccess
    exact (run_of_ends (Saved disk (target.output.getD source.path) target.backup)
      (fun after => after = disk) hread (perform_framed hedit home)).1 hsuccess

end ScriptRecord.Proofs.CommandLine.Frame
