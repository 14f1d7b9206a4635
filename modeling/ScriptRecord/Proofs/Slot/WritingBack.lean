import ScriptRecord.Slot.Commit
import Mathlib.Data.List.Forall2
/-!
# How texts are written back

A slot has one of three faults: a character outside the charset, bytes that are not as
many as the slot has, and an end past the payload.  A faulty slot is refused before
anything is written, unless its only fault is an end so far out that the sum comes round
to a place inside the payload (`Missed`): then the program ends where that slot should be
written.  `writeBack_exact` says which of this happens, which slot and fault are reported,
and what the payload is like behind it.  The slots may be any: they may overlap, and the
last of those that cover a byte decides.
-/

namespace ScriptRecord.Proofs.Slot.WritingBack

/-- A slot whose text goes into a payload of `size` bytes as `bytes`. -/
structure Fits (container : Container) (size : Nat) (slot : Slot) (bytes : List UInt8) : Prop where
  allowed : ∀ c ∈ slot.fitted, container.charset.contains c = true
  encoded : Slot.encode? container.order slot.wide slot.fitted = some bytes
  width : bytes.length = slot.byteLength
  inside : slot.pos + slot.byteLength ≤ size

/-- A slot that is not refused for a payload of `size` bytes. -/
structure Passes (container : Container) (size : Nat) (slot : Slot) (bytes : List UInt8) :
    Prop where
  allowed : ∀ c ∈ slot.fitted, container.charset.contains c = true
  encoded : Slot.encode? container.order slot.wide slot.fitted = some bytes
  width : bytes.length = slot.byteLength
  ends : Slot.wordEnd slot.pos slot.byteLength ≤ size

/-- A slot that cannot be written into a payload of `size` bytes. -/
def Faulty (container : Container) (size : Nat) (slot : Slot) : Prop :=
  (∃ c ∈ slot.fitted, container.charset.contains c = false) ∨
    (∀ bytes, Slot.encode? container.order slot.wide slot.fitted = some bytes →
      bytes.length ≠ slot.byteLength) ∨
    size < slot.pos + slot.byteLength

/-- A slot that reaches past a payload of `size` bytes and is not refused. -/
def Missed (container : Container) (size : Nat) (slot : Slot) : Prop :=
  (∃ bytes, Passes container size slot bytes) ∧ size < slot.pos + slot.byteLength

/-- What is reported about a faulty slot, the one at `index`: the first of its faults, and
of its characters the first that is not allowed. -/
inductive Refused (container : Container) (size index : Nat) (slot : Slot) : Error → Prop
  | char {before after : List Char} {c : Char} (text : slot.fitted = before ++ c :: after)
      (allowed : ∀ b ∈ before, container.charset.contains b = true)
      (refused : container.charset.contains c = false) :
      Refused container size index slot (.invalidStringChar index c)
  | unencodable (allowed : ∀ c ∈ slot.fitted, container.charset.contains c = true)
      (encoded : Slot.encode? container.order slot.wide slot.fitted = none) :
      Refused container size index slot (.stringWidth index slot.byteLength 0)
  | width {bytes : List UInt8} (allowed : ∀ c ∈ slot.fitted, container.charset.contains c = true)
      (encoded : Slot.encode? container.order slot.wide slot.fitted = some bytes)
      (width : bytes.length ≠ slot.byteLength) :
      Refused container size index slot (.stringWidth index slot.byteLength bytes.length)
  | outside {bytes : List UInt8}
      (allowed : ∀ c ∈ slot.fitted, container.charset.contains c = true)
      (encoded : Slot.encode? container.order slot.wide slot.fitted = some bytes)
      (width : bytes.length = slot.byteLength)
      (outside : size < Slot.wordEnd slot.pos slot.byteLength) :
      Refused container size index slot
        (.stringOutOfBounds index slot.pos slot.byteLength size)

def Covers (slot : Slot) (pos : Nat) : Prop :=
  slot.pos ≤ pos ∧ pos < slot.pos + slot.byteLength

/-- What a payload is like after the texts of some slots have gone into it. -/
structure Updated (container : Container) (slots : List Slot) (payload after : Bytes) : Prop where
  size_eq : after.size = payload.size
  covered : ∀ {before rest : List Slot} {slot : Slot} {pos : Nat},
    slots = before ++ slot :: rest → Covers slot pos → (∀ later ∈ rest, ¬ Covers later pos) →
    ∃ bytes byte, Slot.encode? container.order slot.wide slot.fitted = some bytes ∧
      bytes[pos - slot.pos]? = some byte ∧ after[pos]? = some byte
  uncovered : ∀ {pos : Nat}, (∀ slot ∈ slots, ¬ Covers slot pos) → after[pos]? = payload[pos]?

variable {container : Container} {size index : Nat} {slot : Slot}

/-! ## One slot -/

theorem wordEnd_le (pos length : Nat) : Slot.wordEnd pos length ≤ pos + length :=
  Nat.mod_le _ _

theorem Fits.passes {bytes : List UInt8} (h : Fits container size slot bytes) :
    Passes container size slot bytes where
  allowed := h.allowed
  encoded := h.encoded
  width := h.width
  ends := Nat.le_trans (wordEnd_le _ _) h.inside

theorem Passes.fits {bytes : List UInt8} (h : Passes container size slot bytes)
    (hinside : slot.pos + slot.byteLength ≤ size) : Fits container size slot bytes where
  allowed := h.allowed
  encoded := h.encoded
  width := h.width
  inside := hinside

theorem find_of_allowed (h : ∀ c ∈ slot.fitted, container.charset.contains c = true) :
    (slot.fitted.find? fun c => !container.charset.contains c) = none := by
  rw [List.find?_eq_none]
  intro c hc
  simp [h c hc]

theorem toBytes_of_passes {bytes : List UInt8} (h : Passes container size slot bytes) :
    slot.toBytes container size index = .ok bytes := by
  have hwidth := h.width
  have hends := h.ends
  simp only [Slot.toBytes, find_of_allowed h.allowed, h.encoded]
  rw [if_neg (by omega), hwidth, if_neg (by omega)]

theorem toBytes_of_refused {error : Error} (h : Refused container size index slot error) :
    slot.toBytes container size index = .error error := by
  cases h with
  | @char before after c htext hallowed hrefused =>
      have hfirst : (slot.fitted.find? fun c => !container.charset.contains c) = some c := by
        rw [List.find?_eq_some_iff_append]
        refine ⟨by simp [hrefused], before, after, htext, ?_⟩
        intro b hb
        simp [hallowed b hb]
      simp only [Slot.toBytes, hfirst]
  | unencodable hallowed hencoded => simp only [Slot.toBytes, find_of_allowed hallowed, hencoded]
  | width hallowed hencoded hwidth =>
      simp only [Slot.toBytes, find_of_allowed hallowed, hencoded]
      rw [if_pos hwidth]
  | outside hallowed hencoded hwidth houtside =>
      simp only [Slot.toBytes, find_of_allowed hallowed, hencoded]
      rw [if_neg (by omega), hwidth, if_pos houtside]

/-- A slot passes, or there is something to report about it. -/
theorem passes_or_refused (container : Container) (size index : Nat) (slot : Slot) :
    (∃ bytes, Passes container size slot bytes) ∨
      ∃ error, Refused container size index slot error := by
  cases hfind : slot.fitted.find? fun c => !container.charset.contains c with
  | some c =>
      obtain ⟨hc, before, after, htext, hbefore⟩ := List.find?_eq_some_iff_append.mp hfind
      refine .inr ⟨_, .char htext ?_ (by simpa using hc)⟩
      intro b hb
      simpa using hbefore b hb
  | none =>
      have hallowed : ∀ c ∈ slot.fitted, container.charset.contains c = true := by
        simpa using List.find?_eq_none.mp hfind
      cases hencoded : Slot.encode? container.order slot.wide slot.fitted with
      | none => exact .inr ⟨_, .unencodable hallowed hencoded⟩
      | some bytes =>
          by_cases hwidth : bytes.length = slot.byteLength
          · by_cases hends : Slot.wordEnd slot.pos slot.byteLength ≤ size
            · exact .inl ⟨bytes, hallowed, hencoded, hwidth, hends⟩
            · exact .inr ⟨_, .outside hallowed hencoded hwidth (Nat.lt_of_not_le hends)⟩
          · exact .inr ⟨_, .width hallowed hencoded hwidth⟩

theorem Fits.not_faulty {bytes : List UInt8} (h : Fits container size slot bytes) :
    ¬ Faulty container size slot := by
  have hinside := h.inside
  rintro (⟨c, hc, hrefused⟩ | hwidth | houtside)
  · rw [h.allowed c hc] at hrefused
    cases hrefused
  · exact hwidth bytes h.encoded h.width
  · omega

theorem Missed.faulty (h : Missed container size slot) : Faulty container size slot :=
  .inr (.inr h.2)

theorem Refused.faulty {error : Error} (h : Refused container size index slot error) :
    Faulty container size slot := by
  cases h with
  | @char before after c htext _ hrefused => exact .inl ⟨c, by simp [htext], hrefused⟩
  | unencodable _ hencoded =>
      refine .inr (.inl ?_)
      intro bytes hbytes
      rw [hencoded] at hbytes
      cases hbytes
  | width _ hencoded hwidth =>
      refine .inr (.inl ?_)
      intro bytes hbytes
      rw [hencoded] at hbytes
      cases hbytes
      exact hwidth
  | outside _ _ _ houtside => exact .inr (.inr (Nat.lt_of_lt_of_le houtside (wordEnd_le _ _)))

/-- A slot that passes is missed or fits. -/
theorem Passes.missed_or_fits {bytes : List UInt8} (h : Passes container size slot bytes) :
    Missed container size slot ∨ Fits container size slot bytes := by
  by_cases hinside : slot.pos + slot.byteLength ≤ size
  · exact .inr (h.fits hinside)
  · exact .inl ⟨⟨bytes, h⟩, Nat.lt_of_not_le hinside⟩

/-- The writes of slots that pass, one for each slot. -/
def PassAll (container : Container) (size : Nat) : List Slot → List Slot.Write → Prop :=
  List.Forall₂ fun slot write => write.pos = slot.pos ∧ Passes container size slot write.bytes

/-- The writes of slots that fit, one for each slot. -/
def FitAll (container : Container) (size : Nat) : List Slot → List Slot.Write → Prop :=
  List.Forall₂ fun slot write => write.pos = slot.pos ∧ Fits container size slot write.bytes

/-- The first slot that is refused, counted from `index`, and what is reported about it. -/
def FirstRefused (container : Container) (size index : Nat) (slots : List Slot) (error : Error) :
    Prop :=
  ∃ before slot rest, slots = before ++ slot :: rest ∧
    (∀ earlier ∈ before, ∃ bytes, Passes container size earlier bytes) ∧
    Refused container size (index + before.length) slot error

theorem writes_of_passAll {slots : List Slot} {writes : List Slot.Write}
    (h : PassAll container size slots writes) (index : Nat) :
    Slot.writes container size index slots = .ok writes := by
  induction h generalizing index with
  | nil => rfl
  | @cons slot write slots writes hslot _ ih =>
      obtain ⟨hpos, hpasses⟩ := hslot
      rw [Slot.writes, toBytes_of_passes hpasses, ih (index + 1), ← hpos]
      rfl

theorem writes_of_firstRefused {slots : List Slot} {error : Error}
    (h : FirstRefused container size index slots error) :
    Slot.writes container size index slots = .error error := by
  obtain ⟨before, slot, rest, rfl, hbefore, hrefused⟩ := h
  induction before generalizing index with
  | nil =>
      rw [List.nil_append, Slot.writes, toBytes_of_refused (by simpa using hrefused)]
      rfl
  | cons earlier before ih =>
      obtain ⟨bytes, hpasses⟩ := hbefore earlier List.mem_cons_self
      rw [List.length_cons, Nat.add_comm before.length, ← Nat.add_assoc] at hrefused
      have hrest := ih (fun s hs => hbefore s (List.mem_cons_of_mem earlier hs)) hrefused
      rw [List.cons_append, Slot.writes, toBytes_of_passes hpasses, hrest]
      rfl

theorem passAll_or_firstRefused (container : Container) (size index : Nat) (slots : List Slot) :
    (∃ writes, PassAll container size slots writes) ∨
      ∃ error, FirstRefused container size index slots error := by
  induction slots generalizing index with
  | nil => exact .inl ⟨[], .nil⟩
  | cons slot slots ih =>
      rcases passes_or_refused container size index slot with ⟨bytes, hpasses⟩ | ⟨error, hrefused⟩
      · rcases ih (index + 1) with
          ⟨writes, hwrites⟩ | ⟨error, before, next, rest, rfl, hbefore, hnext⟩
        · exact .inl ⟨⟨slot.pos, bytes⟩ :: writes, .cons ⟨rfl, hpasses⟩ hwrites⟩
        · refine .inr ⟨error, slot :: before, next, rest, rfl, ?_, ?_⟩
          · intro earlier hearlier
            rcases List.mem_cons.mp hearlier with rfl | hmem
            · exact ⟨bytes, hpasses⟩
            · exact hbefore earlier hmem
          · rw [List.length_cons, Nat.add_comm before.length, ← Nat.add_assoc]
            exact hnext
      · exact .inr ⟨error, [], slot, slots, rfl, by simp, hrefused⟩

theorem FitAll.passAll {slots : List Slot} {writes : List Slot.Write}
    (h : FitAll container size slots writes) : PassAll container size slots writes :=
  h.imp fun _ _ hslot => ⟨hslot.1, hslot.2.passes⟩

theorem exists_fitAll {slots : List Slot}
    (h : ∀ slot ∈ slots, ∃ bytes, Fits container size slot bytes) :
    ∃ writes, FitAll container size slots writes := by
  induction slots with
  | nil => exact ⟨[], .nil⟩
  | cons slot slots ih =>
      obtain ⟨bytes, hfits⟩ := h slot List.mem_cons_self
      obtain ⟨writes, hwrites⟩ := ih fun other hother => h other (List.mem_cons_of_mem slot hother)
      exact ⟨⟨slot.pos, bytes⟩ :: writes, .cons ⟨rfl, hfits⟩ hwrites⟩

theorem not_faulty_of_fitAll {slots : List Slot} {writes : List Slot.Write}
    (h : FitAll container size slots writes) : ∀ slot ∈ slots, ¬ Faulty container size slot := by
  induction h with
  | nil => intro slot hslot; cases hslot
  | cons hslot _ ih =>
      intro slot hmem
      rcases List.mem_cons.mp hmem with rfl | hmem
      · exact hslot.2.not_faulty
      · exact ih slot hmem

theorem passes_of_passAll {slots : List Slot} {writes : List Slot.Write}
    (h : PassAll container size slots writes) :
    ∀ slot ∈ slots, ∃ bytes, Passes container size slot bytes := by
  induction h with
  | nil => intro slot hslot; cases hslot
  | @cons _ write _ _ hslot _ ih =>
      intro slot hmem
      rcases List.mem_cons.mp hmem with rfl | hmem
      · exact ⟨write.bytes, hslot.2⟩
      · exact ih slot hmem

/-- Slots that pass fit, up to the first that is missed. -/
theorem fitAll_or_missed {slots : List Slot} {writes : List Slot.Write}
    (h : PassAll container size slots writes) :
    FitAll container size slots writes ∨
      ∃ before slot rest front write back, slots = before ++ slot :: rest ∧
        writes = front ++ write :: back ∧ FitAll container size before front ∧
        Missed container size slot ∧ write.pos = slot.pos ∧
        write.bytes.length = slot.byteLength := by
  induction h with
  | nil => exact .inl .nil
  | @cons slot write slots writes hslot _ ih =>
      rcases hslot.2.missed_or_fits with hmissed | hfits
      · exact .inr ⟨[], slot, slots, [], write, writes, rfl, rfl, .nil, hmissed, hslot.1,
          hslot.2.width⟩
      · rcases ih with hall | ⟨before, next, rest, front, nextWrite, back, rfl, rfl, hfront, hnext⟩
        · exact .inl (.cons ⟨hslot.1, hfits⟩ hall)
        · exact .inr ⟨slot :: before, next, rest, write :: front, nextWrite, back, rfl, rfl,
            .cons ⟨hslot.1, hfits⟩ hfront, hnext⟩

/-! ## What the writes leave -/

/-- A payload after some writes. -/
def written (payload : Bytes) (writes : List Slot.Write) : Bytes :=
  writes.foldl (fun data write => data.overwrite write.pos write.bytes) payload

theorem written_cons (payload : Bytes) (write : Slot.Write) (writes : List Slot.Write) :
    written payload (write :: writes) =
      written (payload.overwrite write.pos write.bytes) writes := rfl

theorem size_written (payload : Bytes) (writes : List Slot.Write) :
    (written payload writes).size = payload.size := by
  induction writes generalizing payload with
  | nil => rfl
  | cons write writes ih => rw [written_cons, ih, Bytes.size_overwrite]

theorem overwrite_outside (data : Bytes) (pos : Nat) (bytes : List UInt8) {i : Nat}
    (h : i < pos ∨ pos + bytes.length ≤ i) : (data.overwrite pos bytes)[i]? = data[i]? := by
  induction bytes generalizing data pos with
  | nil => rfl
  | cons byte bytes ih =>
      rw [List.length_cons] at h
      rw [Bytes.overwrite, ih _ _ (by omega), Array.getElem?_setIfInBounds_ne (by omega)]

theorem overwrite_inside (data : Bytes) (pos : Nat) (bytes : List UInt8) {i : Nat}
    (hle : pos ≤ i) (hlt : i < pos + bytes.length) (hsize : i < data.size) :
    (data.overwrite pos bytes)[i]? = bytes[i - pos]? := by
  induction bytes generalizing data pos with
  | nil => exact absurd hlt (Nat.not_lt.mpr hle)
  | cons byte bytes ih =>
      rw [List.length_cons] at hlt
      rw [Bytes.overwrite]
      by_cases hi : i = pos
      · subst hi
        rw [overwrite_outside _ _ _ (.inl (Nat.lt_succ_self i)),
          Array.getElem?_setIfInBounds_self_of_lt hsize, Nat.sub_self]
        rfl
      · have hrest := ih (data.setIfInBounds pos byte) (pos + 1) (by omega) (by omega)
          (by rw [Array.size_setIfInBounds]; exact hsize)
        have hshift : i - pos = i - (pos + 1) + 1 := by omega
        rw [hrest, hshift, List.getElem?_cons_succ]

theorem written_outside (payload : Bytes) (writes : List Slot.Write) {i : Nat}
    (h : ∀ write ∈ writes, i < write.pos ∨ write.pos + write.bytes.length ≤ i) :
    (written payload writes)[i]? = payload[i]? := by
  induction writes generalizing payload with
  | nil => rfl
  | cons write writes ih =>
      have hwrites := ih (payload.overwrite write.pos write.bytes)
        fun w hw => h w (List.mem_cons_of_mem write hw)
      rw [overwrite_outside _ _ _ (h write List.mem_cons_self)] at hwrites
      exact hwrites

theorem covers_or_not (slot : Slot) (pos : Nat) :
    Covers slot pos ∨ pos < slot.pos ∨ slot.pos + slot.byteLength ≤ pos := by
  unfold Covers
  omega

theorem outside_of_not_covers {slots : List Slot} {writes : List Slot.Write}
    (hfit : FitAll container size slots writes) {pos : Nat}
    (h : ∀ slot ∈ slots, ¬ Covers slot pos) :
    ∀ write ∈ writes, pos < write.pos ∨ write.pos + write.bytes.length ≤ pos := by
  induction hfit with
  | nil => intro write hwrite; cases hwrite
  | @cons slot write slots writes hslot _ ih =>
      intro w hw
      rcases List.mem_cons.mp hw with rfl | hmem
      · have hcovers := covers_or_not slot pos
        rw [hslot.1, hslot.2.width]
        exact hcovers.resolve_left (h slot List.mem_cons_self)
      · exact ih (fun s hs => h s (List.mem_cons_of_mem slot hs)) w hmem

theorem exists_of_fitAll_append {before rest : List Slot} {writes : List Slot.Write}
    (h : FitAll container size (before ++ slot :: rest) writes) :
    ∃ front bytes back, writes = front ++ ⟨slot.pos, bytes⟩ :: back ∧
      Fits container size slot bytes ∧ FitAll container size rest back := by
  induction before generalizing writes with
  | nil =>
      obtain ⟨⟨pos, bytes⟩, back, ⟨rfl, hfits⟩, hback, rfl⟩ := List.forall₂_cons_left_iff.mp h
      exact ⟨[], bytes, back, rfl, hfits, hback⟩
  | cons earlier before ih =>
      obtain ⟨first, others, _, hothers, rfl⟩ := List.forall₂_cons_left_iff.mp h
      obtain ⟨front, bytes, back, rfl, hrest⟩ := ih hothers
      exact ⟨first :: front, bytes, back, rfl, hrest⟩

theorem updated_written {payload : Bytes} {slots : List Slot} {writes : List Slot.Write}
    (hfit : FitAll container payload.size slots writes) :
    Updated container slots payload (written payload writes) where
  size_eq := size_written payload writes
  covered := by
    rintro before rest slot pos rfl ⟨hle, hlt⟩ hrest
    obtain ⟨front, bytes, back, rfl, hfits, hback⟩ := exists_of_fitAll_append hfit
    have hinside := hfits.inside
    have hwidth := hfits.width
    have hi : pos - slot.pos < bytes.length := by omega
    refine ⟨bytes, bytes[pos - slot.pos], hfits.encoded, List.getElem?_eq_getElem hi, ?_⟩
    have hwritten := overwrite_inside (written payload front) slot.pos bytes hle
      (by omega) (by rw [size_written]; omega)
    rw [List.getElem?_eq_getElem hi] at hwritten
    rw [written, List.foldl_append, List.foldl_cons, ← hwritten]
    exact written_outside _ back (outside_of_not_covers hback hrest)
  uncovered := by
    intro pos h
    exact written_outside payload writes (outside_of_not_covers hfit h)

/-! ## The payload in place -/

theorem applyWrites_of_fitAll {payload : Bytes} {slots : List Slot} {writes : List Slot.Write}
    (h : FitAll container payload.size slots writes) (others : List Slot.Write) :
    Slot.applyWrites payload (writes ++ others) =
      Slot.applyWrites (written payload writes) others := by
  induction writes generalizing payload slots with
  | nil => rfl
  | cons write writes ih =>
      obtain ⟨slot, slots, ⟨hpos, hfits⟩, hrest, rfl⟩ := List.forall₂_cons_right_iff.mp h
      have hinside := hfits.inside
      have hwidth := hfits.width
      rw [List.cons_append, Slot.applyWrites, if_pos (by omega), written_cons]
      exact ih (by rw [Bytes.size_overwrite]; exact hrest)

theorem writeBack_of_passAll {payload : Bytes} {slots : List Slot} {writes : List Slot.Write}
    (h : PassAll container payload.size slots writes) :
    Slot.writeBack container slots payload = Slot.applyWrites payload writes := by
  simp only [Slot.writeBack, writes_of_passAll h 0]

theorem writeBack_of_fitAll {payload : Bytes} {slots : List Slot} {writes : List Slot.Write}
    (h : FitAll container payload.size slots writes) :
    Slot.writeBack container slots payload = .ok () (written payload writes) := by
  rw [writeBack_of_passAll h.passAll, ← List.append_nil writes, applyWrites_of_fitAll h,
    List.append_nil]
  rfl

theorem writeBack_of_firstRefused {payload : Bytes} {slots : List Slot} {error : Error}
    (h : FirstRefused container payload.size 0 slots error) :
    Slot.writeBack container slots payload = .error (.refused error) payload := by
  simp only [Slot.writeBack, writes_of_firstRefused h]

/-- The slots up to the first that is missed, once none is refused, and their writes. -/
def FirstMissed (container : Container) (size : Nat) (slots : List Slot)
    (front : List Slot.Write) : Prop :=
  (∀ slot ∈ slots, ∃ bytes, Passes container size slot bytes) ∧
    ∃ before slot rest, slots = before ++ slot :: rest ∧ FitAll container size before front ∧
      Missed container size slot

/-- The three ways in which slots are written back. -/
theorem writeBack_cases (container : Container) (slots : List Slot) (payload : Bytes) :
    (∃ writes, FitAll container payload.size slots writes ∧
      Slot.writeBack container slots payload = .ok () (written payload writes)) ∨
    (∃ error, FirstRefused container payload.size 0 slots error ∧
      Slot.writeBack container slots payload = .error (.refused error) payload) ∨
    ∃ front, FirstMissed container payload.size slots front ∧
      Slot.writeBack container slots payload = .error .crashed (written payload front) := by
  rcases passAll_or_firstRefused container payload.size 0 slots with
    ⟨writes, hpass⟩ | ⟨error, hrefused⟩
  · rcases fitAll_or_missed hpass with
      hfit | ⟨before, slot, rest, front, write, back, rfl, rfl, hfront, hmissed, hpos, hwidth⟩
    · exact .inl ⟨writes, hfit, writeBack_of_fitAll hfit⟩
    · refine .inr (.inr ⟨front, ⟨passes_of_passAll hpass, before, slot, rest, rfl, hfront, hmissed⟩,
        ?_⟩)
      have houtside := hmissed.2
      rw [writeBack_of_passAll hpass, applyWrites_of_fitAll hfront, Slot.applyWrites,
        if_neg (by rw [size_written]; omega)]
  · exact .inr (.inl ⟨error, hrefused, writeBack_of_firstRefused hrefused⟩)

/-- A payload for which a slot is refused is what it was. -/
theorem firstRefused_of_writeBack {payload after : Bytes} {slots : List Slot} {error : Error}
    (h : Slot.writeBack container slots payload = .error (.refused error) after) :
    after = payload ∧ FirstRefused container payload.size 0 slots error := by
  rcases writeBack_cases container slots payload with
    ⟨writes, -, hrun⟩ | ⟨reported, hreported, hrun⟩ | ⟨front, -, hrun⟩
  · rw [hrun] at h
    cases h
  · rw [hrun] at h
    cases h
    exact ⟨rfl, hreported⟩
  · rw [hrun] at h
    cases h

theorem firstMissed_of_writeBack {payload after : Bytes} {slots : List Slot}
    (h : Slot.writeBack container slots payload = .error .crashed after) :
    ∃ front, FirstMissed container payload.size slots front ∧ after = written payload front := by
  rcases writeBack_cases container slots payload with
    ⟨writes, -, hrun⟩ | ⟨reported, -, hrun⟩ | ⟨front, hfront, hrun⟩
  · rw [hrun] at h
    cases h
  · rw [hrun] at h
    cases h
  · rw [hrun] at h
    cases h
    exact ⟨front, hfront, rfl⟩

theorem fitAll_of_writeBack {payload after : Bytes} {slots : List Slot}
    (h : Slot.writeBack container slots payload = .ok () after) :
    ∃ writes, FitAll container payload.size slots writes ∧ after = written payload writes := by
  rcases writeBack_cases container slots payload with
    ⟨writes, hfit, hrun⟩ | ⟨reported, -, hrun⟩ | ⟨front, -, hrun⟩
  · rw [hrun] at h
    cases h
    exact ⟨writes, hfit, rfl⟩
  · rw [hrun] at h
    cases h
  · rw [hrun] at h
    cases h

/-- Slots inside the payload are written back or refused. -/
theorem firstRefused_of_inside {payload after : Bytes} {slots : List Slot} {failure : Slot.Failure}
    (hinside : ∀ slot ∈ slots, slot.pos + slot.byteLength ≤ payload.size)
    (h : Slot.writeBack container slots payload = .error failure after) :
    ∃ error, failure = .refused error ∧ after = payload ∧
      FirstRefused container payload.size 0 slots error := by
  cases failure with
  | refused error => exact ⟨error, rfl, firstRefused_of_writeBack h⟩
  | crashed =>
      obtain ⟨front, ⟨-, before, slot, rest, rfl, -, hmissed⟩, -⟩ := firstMissed_of_writeBack h
      exact absurd (hinside slot (by simp)) (Nat.not_le_of_lt hmissed.2)

theorem fitAll_of_commit {payload after : Bytes} {slots : List Slot}
    (h : Slot.commit container payload slots = .ok after) :
    ∃ writes, FitAll container payload.size slots writes ∧ after = written payload writes := by
  unfold Slot.commit at h
  cases hrun : Slot.writeBack container slots payload with
  | ok done result =>
      rw [hrun] at h
      cases h
      exact fitAll_of_writeBack hrun
  | error failure result =>
      rw [hrun] at h
      cases h

theorem updated_of_commit {payload after : Bytes} {slots : List Slot}
    (h : Slot.commit container payload slots = .ok after) :
    Updated container slots payload after := by
  obtain ⟨writes, hfit, rfl⟩ := fitAll_of_commit h
  exact updated_written hfit

theorem firstRefused_of_commit {payload : Bytes} {slots : List Slot} {failure : Slot.Failure}
    (hinside : ∀ slot ∈ slots, slot.pos + slot.byteLength ≤ payload.size)
    (h : Slot.commit container payload slots = .error failure) :
    ∃ error, failure = .refused error ∧ FirstRefused container payload.size 0 slots error := by
  unfold Slot.commit at h
  cases hrun : Slot.writeBack container slots payload with
  | ok done result =>
      rw [hrun] at h
      cases h
  | error reported result =>
      rw [hrun] at h
      cases h
      obtain ⟨error, rfl, -, hrefused⟩ := firstRefused_of_inside hinside hrun
      exact ⟨error, rfl, hrefused⟩

/-- Slots that all fit are committed. -/
theorem commit_of_fits {payload : Bytes} {slots : List Slot}
    (h : ∀ slot ∈ slots, ∃ bytes, Fits container payload.size slot bytes) :
    ∃ after, Slot.commit container payload slots = .ok after ∧
      Updated container slots payload after := by
  obtain ⟨writes, hfit⟩ := exists_fitAll h
  refine ⟨written payload writes, ?_, updated_written hfit⟩
  rw [Slot.commit, writeBack_of_fitAll hfit]

end ScriptRecord.Proofs.Slot.WritingBack
