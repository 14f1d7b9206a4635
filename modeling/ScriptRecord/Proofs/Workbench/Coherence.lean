import Mathlib.Logic.Function.Basic
import ScriptRecord.Proofs.Record.Sequence
import ScriptRecord.Proofs.Slot.Texts
import ScriptRecord.Proofs.Slot.WritingBack
import ScriptRecord.Workbench
/-!
# Kept slots stay those of the payload

Slots are found when they are first asked for and kept until a commit or a new payload.
Along any commands, in any order, the slots that a script keeps are those of its
payload, except that some of their texts were edited.  `caches_coherent` says so, and
what it means for a commit: it never reaches past the payload, it changes nothing when
it fails, and after it the slots are found anew.
-/

namespace ScriptRecord.Proofs.Workbench.Coherence

open ScriptRecord.Proofs.Record.Sequence
open ScriptRecord.Proofs.Results
open ScriptRecord.Proofs.Slot.Texts
open ScriptRecord.Proofs.Slot.WritingBack

/-- A workbench, and for each of its scripts which slots were edited since its slots were
last found. -/
structure Watched where
  bench : Workbench
  edited : Nat → List Nat

/-- What is still edited when slots are asked for. -/
def kept (script : Script) (edited : List Nat) : List Nat :=
  if script.cache.isSome then edited else []

/-- What is edited after a command on the current script. -/
def noted (script : Script) (edited : List Nat) : Workbench.Command → List Nat
  | .slots => kept script edited
  | .editText index _ => index :: kept script edited
  | _ => edited

def note (watched : Watched) (command : Workbench.Command) : Nat → List Nat :=
  match watched.bench.script? with
  | some script => Function.update watched.edited watched.bench.current
      (noted script (watched.edited watched.bench.current) command)
  | none => watched.edited

def advance (watched : Watched) (command : Workbench.Command) : Watched :=
  ⟨(watched.bench.run command).1, note watched command⟩

/-- Slots that are those that were found, except for the texts that were edited. -/
structure Agrees (edited : List Nat) (cached found : List Slot) : Prop where
  length_eq : cached.length = found.length
  place : ∀ {i : Nat} {slot other : Slot}, cached[i]? = some slot → found[i]? = some other →
    slot.pos = other.pos ∧ slot.length = other.length ∧ slot.wide = other.wide
  text : ∀ {i : Nat} {slot other : Slot}, cached[i]? = some slot → found[i]? = some other →
    i ∉ edited → slot.text = other.text

/-- The slots that a script keeps, if it does, are those of its payload. -/
def Coherent (edited : List Nat) (script : Script) : Prop :=
  ∀ cached, script.cache = some cached →
    Agrees edited cached (Slot.extract script.container script.payload)

/-- A commit of the current script either fails for another reason than that a slot lies
past the payload, and leaves everything as it was, or it puts a payload of the same size
in the place of the old one, and the next slots are the ones found in that. -/
def CommitsCleanly (bench : Workbench) (script : Script) : Prop :=
  (∃ error, bench.run .commit = (bench, .failed error) ∧
    ∀ index pos width size, error ≠ .stringOutOfBounds index pos width size) ∨
  ∃ payload, payload.size = script.payload.size ∧
    bench.run .commit = (bench.update (script.setPayload payload), .done) ∧
    ((bench.update (script.setPayload payload)).run .slots).2 =
      .slots (Slot.extract script.container payload)

variable {edited : List Nat} {cached found slots : List Slot} {script : Script}

/-! ## Slots that agree -/

theorem Agrees.refl (edited : List Nat) (slots : List Slot) : Agrees edited slots slots where
  length_eq := rfl
  place hslot hother := by
    rw [hslot, Option.some_inj] at hother
    subst hother
    exact ⟨rfl, rfl, rfl⟩
  text hslot hother _ := by
    rw [hslot, Option.some_inj] at hother
    rw [hother]

theorem Agrees.editText (h : Agrees edited cached found) (index : Nat) (text : String) :
    Agrees (index :: edited) (cached.modify index fun slot => { slot with text }) found where
  length_eq := by rw [List.length_modify, h.length_eq]
  place := by
    intro i slot other hslot hother
    rw [List.getElem?_modify] at hslot
    obtain ⟨old, hold, rfl⟩ := Option.map_eq_some_iff.mp hslot
    have hplace := h.place hold hother
    by_cases hi : index = i
    · rw [if_pos hi]
      exact hplace
    · rw [if_neg hi]
      exact hplace
  text := by
    intro i slot other hslot hother hmem
    rw [List.mem_cons, not_or] at hmem
    rw [List.getElem?_modify_ne _ _ (Ne.symm hmem.1)] at hslot
    exact h.text hslot hother hmem.2

/-- Edits move no slot, so none comes to lie past the payload. -/
theorem Agrees.inside {container : Container} {payload : Bytes}
    (h : Agrees edited cached (Slot.extract container payload)) :
    ∀ slot ∈ cached, slot.pos + slot.byteLength ≤ payload.size := by
  intro slot hmem
  obtain ⟨i, hi, hslot⟩ := List.getElem_of_mem hmem
  have hi' : i < (Slot.extract container payload).length := h.length_eq ▸ hi
  obtain ⟨hpos, hlength, hwide⟩ := h.place (List.getElem?_eq_some_iff.mpr ⟨hi, hslot⟩)
    (List.getElem?_eq_getElem hi')
  have hinside := extract_inside container payload _ (List.getElem_mem hi')
  rw [Slot.byteLength, Slot.charWidth] at hinside ⊢
  rw [hpos, hlength, hwide]
  exact hinside

/-! ## One script -/

theorem coherent_of_none (h : script.cache = none) : Coherent edited script := by
  intro cached hcached
  rw [h] at hcached
  cases hcached

/-- Slots that are asked for are those kept, or found now. -/
theorem agrees_slots (h : Coherent edited script) :
    Agrees (kept script edited) script.slots (Slot.extract script.container script.payload) := by
  unfold kept Script.slots
  cases hcache : script.cache with
  | none => exact .refl _ _
  | some cached => exact h cached hcache

theorem coherent_keepSlots (h : Coherent edited script) :
    Coherent (kept script edited) script.keepSlots := by
  intro cached hcached
  cases hcached
  exact agrees_slots h

theorem coherent_editText (h : Coherent edited script) (index : Nat) (text : String) :
    Coherent (index :: kept script edited) (script.editText index text) := by
  intro cached hcached
  cases hcached
  exact (agrees_slots h).editText index text

/-- What is reported about a slot that lies inside the payload is another fault. -/
theorem refused_of_inside {container : Container} {size index : Nat} {slot : Slot} {error : Error}
    (h : Refused container size index slot error) (hinside : slot.pos + slot.byteLength ≤ size)
    (i pos width size' : Nat) : error ≠ .stringOutOfBounds i pos width size' := by
  cases h with
  | char | unencodable | width => nofun
  | outside _ _ _ houtside =>
      have hend := wordEnd_le slot.pos slot.byteLength
      omega

/-- A commit of slots that agree with the payload. -/
theorem commit_cases (h : Coherent edited script) :
    (∃ error, script.commit = .error (.refused error) script ∧
      ∀ index pos width size, error ≠ .stringOutOfBounds index pos width size) ∨
    ∃ payload, payload.size = script.payload.size ∧
      script.commit = .ok () (script.setPayload payload) := by
  obtain ⟨record, container, _ | cached⟩ := script
  · exact .inr ⟨record.payload, rfl, rfl⟩
  · cases hrun : Slot.writeBack container cached record.payload with
    | ok done after =>
        obtain ⟨writes, -, rfl⟩ := fitAll_of_writeBack hrun
        refine .inr ⟨_, size_written record.payload writes, ?_⟩
        simp only [Script.commit, Script.payload, hrun]
    | error failure after =>
        have hinside : ∀ slot ∈ cached, slot.pos + slot.byteLength ≤ record.payload.size :=
          (h _ rfl).inside
        obtain ⟨error, rfl, rfl, before, slot, rest, rfl, -, hrefused⟩ :=
          firstRefused_of_inside hinside hrun
        refine .inl ⟨error, ?_, refused_of_inside hrefused (hinside slot (by simp))⟩
        simp only [Script.commit, Script.payload, hrun]

theorem cache_of_readItem {container : Container} {codec : Codec} {stream : Bytes}
    {pos next : Nat} (h : Script.readItem container codec stream pos = .ok script next) :
    script.cache = none := by
  obtain ⟨record, -, rfl⟩ := Script.ofResult_eq_ok h
  rfl

/-! ## All scripts of a workbench -/

/-- What holds of every script on the bench, whatever is done. -/
def AllCoherent (scripts : Array Script) (edited : Nat → List Nat) : Prop :=
  ∀ i script, scripts[i]? = some script → Coherent (edited i) script

variable {scripts : Array Script} {edits : Nat → List Nat} {watched : Watched}

theorem AllCoherent.push (h : AllCoherent scripts edits) (hcache : script.cache = none) :
    AllCoherent (scripts.push script) edits := by
  intro i found hfound
  rw [Array.getElem?_push] at hfound
  split at hfound
  · cases hfound
    exact coherent_of_none hcache
  · exact h i found hfound

theorem AllCoherent.update (h : AllCoherent scripts edits) {current : Nat} {edited : List Nat}
    (hscript : Coherent edited script) :
    AllCoherent (scripts.setIfInBounds current script) (Function.update edits current edited) := by
  intro i found hfound
  by_cases hi : current = i
  · subst hi
    rw [Array.getElem?_setIfInBounds_self] at hfound
    split at hfound
    · cases hfound
      rw [Function.update_self]
      exact hscript
    · cases hfound
  · rw [Array.getElem?_setIfInBounds_ne hi] at hfound
    rw [Function.update_of_ne (Ne.symm hi)]
    exact h i found hfound

/-- A commit that fails puts the script back as it was. -/
theorem update_script {bench : Workbench} (h : bench.script? = some script) :
    bench.update script = bench := by
  have hscripts : bench.scripts.setIfInBounds bench.current script = bench.scripts := by
    apply Array.ext_getElem?
    intro i
    by_cases hi : bench.current = i
    · subst hi
      have hlt : bench.current < bench.scripts.size := (Array.getElem?_eq_some_iff.mp h).1
      rw [Array.getElem?_setIfInBounds_self_of_lt hlt, ← h]
      rfl
    · exact Array.getElem?_setIfInBounds_ne hi
  rw [Workbench.update, hscripts]

theorem note_of_noted {command : Workbench.Command}
    (h : ∀ script edited, noted script edited command = edited) :
    note watched command = watched.edited := by
  unfold note
  cases watched.bench.script? with
  | none => rfl
  | some script => simp only [h, Function.update_eq_self]

/-- A command on the current script leaves all scripts coherent. -/
theorem runOn_coherent (h : AllCoherent watched.bench.scripts watched.edited)
    (hscript : watched.bench.script? = some script) (command : Workbench.Command) :
    AllCoherent (watched.bench.runOn script command).1.scripts
      (Function.update watched.edited watched.bench.current
        (noted script (watched.edited watched.bench.current) command)) := by
  have hcoherent := h _ _ hscript
  -- Commands that ask for no slots note nothing, and leave them or drop them.
  have hupdate {after : Script} (hafter : Coherent (watched.edited watched.bench.current) after) :
      AllCoherent (watched.bench.update after).scripts
        (Function.update watched.edited watched.bench.current
          (watched.edited watched.bench.current)) :=
    h.update hafter
  cases command with
  | slots => exact h.update (coherent_keepSlots hcoherent)
  | editText index text => exact h.update (coherent_editText hcoherent index text)
  | setPayload payload => exact hupdate (coherent_of_none rfl)
  | setItemKey key => exact hupdate hcoherent
  | setUnknown word => exact hupdate hcoherent
  | commit =>
      unfold Workbench.runOn
      rcases commit_cases hcoherent with ⟨error, hcommit, -⟩ | ⟨payload, -, hcommit⟩
      · rw [hcommit]
        exact hupdate hcoherent
      · rw [hcommit]
        exact hupdate (coherent_of_none rfl)
  | duplicate =>
      simp only [noted, Function.update_eq_self]
      exact h.push rfl
  | write codec =>
      simp only [noted, Function.update_eq_self, Workbench.runOn]
      split <;> exact h
  | decompile names =>
      simp only [noted, Function.update_eq_self, Workbench.runOn]
      split <;> exact h
  | _ =>
      simp only [noted, Function.update_eq_self]
      exact h

/-- A command works on the current script, or it edits nothing and at most puts a script
on the bench that keeps no slots. -/
theorem run_cases (bench : Workbench) (command : Workbench.Command) :
    (bench.run command = match bench.script? with
      | some script => bench.runOn script command
      | none => (bench, .nothing)) ∨
    (∀ script edited, noted script edited command = edited) ∧
      ((bench.run command).1.scripts = bench.scripts ∨
        ∃ script : Script, script.cache = none ∧
          (bench.run command).1.scripts = bench.scripts.push script) := by
  cases command with
  | add container => exact .inr ⟨fun _ _ => rfl, .inr ⟨_, rfl, rfl⟩⟩
  | create type container =>
      refine .inr ⟨fun _ _ => rfl, ?_⟩
      by_cases htype : type.isScript = true
      · refine .inr ⟨.fresh container, rfl, ?_⟩
        simp only [Workbench.run, Script.create, htype, if_true]
        rfl
      · refine .inl ?_
        simp only [Workbench.run, Script.create, htype, Bool.false_eq_true, if_false]
  | select index =>
      refine .inr ⟨fun _ _ => rfl, .inl ?_⟩
      unfold Workbench.run
      dsimp only
      split <;> rfl
  | setStream stream => exact .inr ⟨fun _ _ => rfl, .inl rfl⟩
  | seek pos => exact .inr ⟨fun _ _ => rfl, .inl rfl⟩
  | read container codec =>
      refine .inr ⟨fun _ _ => rfl, ?_⟩
      cases hread : Script.read container codec bench.stream bench.pos with
      | error error stop => exact .inl (by simp only [Workbench.run, hread])
      | ok found next =>
          refine .inr ⟨found, cache_of_read hread, ?_⟩
          simp only [Workbench.run, hread]
          rfl
  | readItem container codec =>
      refine .inr ⟨fun _ _ => rfl, ?_⟩
      cases hread : Script.readItem container codec bench.stream bench.pos with
      | error error stop => exact .inl (by simp only [Workbench.run, hread])
      | ok found next =>
          refine .inr ⟨found, cache_of_readItem hread, ?_⟩
          simp only [Workbench.run, hread]
          rfl
  | _ => exact .inl rfl

/-- A command leaves all scripts coherent. -/
theorem advance_coherent (h : AllCoherent watched.bench.scripts watched.edited)
    (command : Workbench.Command) :
    AllCoherent (advance watched command).bench.scripts (advance watched command).edited := by
  simp only [advance]
  rcases run_cases watched.bench command with hrun | ⟨hnoted, hscripts | ⟨script, hcache, hscripts⟩⟩
  · rw [hrun]
    unfold note
    cases hscript : watched.bench.script? with
    | none => exact h
    | some script => exact runOn_coherent h hscript command
  · rw [note_of_noted hnoted, hscripts]
    exact h
  · rw [note_of_noted hnoted, hscripts]
    exact h.push hcache

/-- What a commit of a coherent script does to the bench. -/
theorem commitsCleanly {bench : Workbench} (hscript : bench.script? = some script)
    (h : Coherent edited script) : CommitsCleanly bench script := by
  have hrun : bench.run .commit = bench.runOn script .commit := by
    simp only [Workbench.run, hscript]
  rcases commit_cases h with ⟨error, hcommit, herror⟩ | ⟨payload, hsize, hcommit⟩
  · refine .inl ⟨error, ?_, herror⟩
    simp only [hrun, Workbench.runOn, hcommit, update_script hscript]
  · have hlt : bench.current < bench.scripts.size := (Array.getElem?_eq_some_iff.mp hscript).1
    have hcurrent : (bench.update (script.setPayload payload)).script? =
        some (script.setPayload payload) :=
      Array.getElem?_setIfInBounds_self_of_lt hlt
    refine .inr ⟨payload, hsize, ?_, ?_⟩
    · simp only [hrun, Workbench.runOn, hcommit]
    · simp only [Workbench.run, hcurrent]
      rfl

/-- After any commands the slots that scripts keep are those of their payloads but for the
texts that were edited, and a commit of the current script is clean. -/
theorem caches_coherent (commands : List Workbench.Command) :
    let watched := commands.foldl advance ⟨.empty, fun _ => []⟩
    (∀ i script cached, watched.bench.scripts[i]? = some script → script.cache = some cached →
      Agrees (watched.edited i) cached (Slot.extract script.container script.payload)) ∧
    ∀ script, watched.bench.script? = some script → CommitsCleanly watched.bench script := by
  have hrun (watched : Watched) (h : AllCoherent watched.bench.scripts watched.edited) :
      AllCoherent (commands.foldl advance watched).bench.scripts
        (commands.foldl advance watched).edited := by
    induction commands generalizing watched with
    | nil => exact h
    | cons command commands ih => exact ih (advance watched command) (advance_coherent h command)
  intro watched
  have hall : AllCoherent watched.bench.scripts watched.edited := by
    apply hrun
    intro i script hscript
    cases hscript
  refine ⟨fun i script cached hscript hcached => hall i script hscript cached hcached, ?_⟩
  intro script hscript
  exact commitsCleanly hscript (hall _ _ hscript)

end ScriptRecord.Proofs.Workbench.Coherence
