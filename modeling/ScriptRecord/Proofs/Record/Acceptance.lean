import Mathlib.Order.Bounds.Basic
import ScriptRecord.Script
import ScriptRecord.Proofs.Record.ReadBack
/-!
# Which records are accepted

What has to stand at a position so that a record is read from there, for any codec,
also for one that breaks its rules.  `read_eq_ok_iff` says it in terms of the six words
in front of the stored payload; a refused record is told apart by the word that refuses
it.  Reading an item of any type differs in nothing but what is said about other types:
both readers stop at the same position, whether or not they fail.
-/

namespace ScriptRecord.Proofs.Record.Acceptance

open ScriptRecord.Proofs.BytesAt
open ScriptRecord.Proofs.Record.ReadBack
open ScriptRecord.Proofs.Results

/-- The words in front of a stored payload. -/
structure Words where
  tag : UInt32
  itemKey : UInt32
  fileKey : UInt32
  unknown : UInt32
  size : UInt32
  storedSize : UInt32

/-- The words that stand at a position. -/
structure WordsAt (order : ByteOrder) (stream : Bytes) (pos : Nat) (words : Words) : Prop where
  tag : stream.word32? order pos = some words.tag
  itemKey : stream.word32? order (pos + 4) = some words.itemKey
  fileKey : stream.word32? order (pos + 8) = some words.fileKey
  unknown : stream.word32? order (pos + 12) = some words.unknown
  size : stream.word32? order (pos + 16) = some words.size
  storedSize : stream.word32? order (pos + 20) = some words.storedSize

/-- The bytes behind the words of a record at `pos`. -/
def storedAt (stream : Bytes) (pos : Nat) (words : Words) : Bytes :=
  stream.extract (pos + 24) (pos + 24 + words.storedSize.toNat)

/-- What is stored gives a payload of `size` bytes: as it is, or through the codec if it is
smaller. -/
inductive Restores (codec : Codec) (stored : Bytes) (size : Nat) : Bytes → Prop
  | verbatim (size_eq : stored.size = size) : Restores codec stored size stored
  | expanded {payload : Bytes} (size_lt : stored.size < size)
      (decompressed : codec.decompress stored size = .ok payload)
      (size_eq : payload.size = size) : Restores codec stored size payload

/-- The record that words and a payload make up. -/
def recordOf (words : Words) (payload : Bytes) : ScriptRecord.Record :=
  ⟨⟨.script, ⟨words.itemKey⟩, ⟨words.fileKey⟩⟩, words.unknown, payload⟩

variable {container : Container} {order : ByteOrder} {codec : Codec} {stream : Bytes}
  {pos next : Nat} {words : Words} {script : Script} {record : ScriptRecord.Record}
  {stored payload : Bytes} {offset size : Nat} {refuse : ItemType → Error}

/-! ## Words -/

theorem le_size_of_word32 {place : Nat} {word : UInt32}
    (h : stream.word32? order place = some word) : place + 4 ≤ stream.size := by
  unfold Bytes.word32? at h
  split at h
  · assumption
  · cases h

theorem exists_wordsAt : (∃ words, WordsAt order stream pos words) ↔ pos + 24 ≤ stream.size := by
  constructor
  · rintro ⟨words, hwords⟩
    have hle := le_size_of_word32 hwords.storedSize
    omega
  · intro hle
    have hword (k : Nat) (hk : k ≤ 20) : ∃ word, stream.word32? order (pos + k) = some word :=
      exists_word32 (by omega)
    obtain ⟨tag, htag⟩ := hword 0 (by omega)
    obtain ⟨itemKey, hitem⟩ := hword 4 (by omega)
    obtain ⟨fileKey, hfile⟩ := hword 8 (by omega)
    obtain ⟨unknown, hunknown⟩ := hword 12 (by omega)
    obtain ⟨size, hsize⟩ := hword 16 (by omega)
    obtain ⟨storedSize, hstored⟩ := hword 20 (by omega)
    exact ⟨⟨tag, itemKey, fileKey, unknown, size, storedSize⟩,
      ⟨htag, hitem, hfile, hunknown, hsize, hstored⟩⟩

theorem ofTag_eq_script (tag : UInt32) :
    ItemType.ofTag tag = .script ↔ tag = ItemType.scriptTag := by
  unfold ItemType.ofTag
  constructor
  · intro h
    by_contra hne
    rw [if_neg hne] at h
    split at h <;> cases h
  · intro h
    rw [if_pos h]

theorem size_storedAt (h : pos + 24 + words.storedSize.toNat ≤ stream.size) :
    (storedAt stream pos words).size = words.storedSize.toNat := by
  rw [storedAt, Array.size_extract]
  omega

/-! ## The payload -/

theorem restore_of_ok (hlt : stored.size < size) (h : codec.decompress stored size = .ok payload) :
    Record.restore codec stored offset size =
      if payload.size = size then .ok payload
      else .error (.decompressedLength offset size payload.size) := by
  unfold Record.restore
  rw [if_pos hlt, h]
  rfl

theorem restore_of_error {error : Error} (hlt : stored.size < size)
    (h : codec.decompress stored size = .error error) :
    Record.restore codec stored offset size = .error (Record.locate offset size error) := by
  unfold Record.restore
  rw [if_pos hlt, h]
  rfl

theorem restore_of_le (hle : size ≤ stored.size) :
    Record.restore codec stored offset size =
      if stored.size = size then .ok stored
      else .error (.decompressedLength offset size stored.size) := by
  unfold Record.restore
  rw [if_neg (Nat.not_lt.mpr hle)]
  rfl

theorem restore_eq_ok_iff :
    Record.restore codec stored offset size = .ok payload ↔ Restores codec stored size payload := by
  constructor
  · intro h
    have hsize := size_of_restore h
    by_cases hlt : stored.size < size
    · cases hresult : codec.decompress stored size with
      | error error =>
          rw [restore_of_error hlt hresult] at h
          cases h
      | ok found =>
          rw [restore_of_ok hlt hresult] at h
          split at h
          · cases h
            exact .expanded hlt hresult hsize
          · cases h
    · rw [restore_of_le (Nat.not_lt.mp hlt)] at h
      split at h
      · cases h
        exact .verbatim hsize
      · cases h
  · intro h
    cases h with
    | verbatim hsize => rw [restore_of_le hsize.ge, if_pos hsize]
    | expanded hlt hresult hsize => rw [restore_of_ok hlt hresult, if_pos hsize]

theorem Restores.size_payload (h : Restores codec stored size payload) : payload.size = size := by
  cases h with
  | verbatim heq => exact heq
  | expanded _ _ heq => exact heq

/-- What a codec says about the size of its result is never passed on as it is. -/
theorem restore_ne_decompressionSize (expected actual : Nat) :
    Record.restore codec stored offset size ≠ .error (.decompressionSize expected actual) := by
  by_cases hlt : stored.size < size
  · cases hresult : codec.decompress stored size with
    | error error =>
        rw [restore_of_error hlt hresult]
        cases error <;> simp [Record.locate]
    | ok found =>
        rw [restore_of_ok hlt hresult]
        split <;> simp
  · rw [restore_of_le (Nat.not_lt.mp hlt)]
    split <;> simp

/-! ## The words, read one after another -/

theorem read_header (h : WordsAt order stream pos words) :
    Header.read order stream pos =
      .ok ⟨.ofTag words.tag, ⟨words.itemKey⟩, ⟨words.fileKey⟩⟩ := by
  rw [Header.read, h.tag, h.itemKey, h.fileKey]

theorem readBody_of_short (h : stream.size < pos + 24) (header : Header) :
    Record.readBody order codec stream pos header =
      .error (.cutShort .fields) stream.size := by
  have hlast : stream.word32? order (pos + Header.size + 8) = none :=
    word32_eq_none (by simp only [Header.size]; omega)
  unfold Record.readBody
  dsimp only
  rw [hlast]
  split
  · contradiction
  · rfl

theorem readBody_of_cut (h : WordsAt order stream pos words) (header : Header)
    (hcut : stream.size < pos + 24 + words.storedSize.toNat) :
    Record.readBody order codec stream pos header =
      .error (.cutShort .payload) stream.size := by
  have hslice : stream.slice? (pos + 24) words.storedSize.toNat = none :=
    if_neg (Nat.not_le.mpr hcut)
  unfold Record.readBody
  simp only [Header.size, Record.frontSize, Record.fieldsSize, Nat.add_assoc, Nat.reduceAdd,
    h.unknown, h.size, h.storedSize, hslice]

theorem readBody_of_stored (h : WordsAt order stream pos words) (header : Header)
    (hle : pos + 24 + words.storedSize.toNat ≤ stream.size) :
    Record.readBody order codec stream pos header =
      match Record.restore codec (storedAt stream pos words) (pos + 24) words.size.toNat with
      | .ok payload => .ok ⟨header, words.unknown, payload⟩
          (Record.align (pos + 24 + words.storedSize.toNat))
      | .error error => .error error (pos + 24 + words.storedSize.toNat) := by
  have hslice : stream.slice? (pos + 24) words.storedSize.toNat =
      some (storedAt stream pos words) := if_pos hle
  have hsize := size_storedAt hle
  unfold Record.readBody
  cases hrestore : Record.restore codec (storedAt stream pos words) (pos + 24)
      words.size.toNat with
  | ok | error =>
    simp only [Header.size, Record.frontSize, Record.fieldsSize, Nat.add_assoc, Nat.reduceAdd,
      h.unknown, h.size, h.storedSize, hslice, hsize, hrestore]

/-! ## The item -/

theorem exists_header {tag : UInt32} (htag : stream.word32? order pos = some tag)
    (hle : pos + 12 ≤ stream.size) :
    ∃ header, Header.read order stream pos = .ok header ∧ header.type = .ofTag tag := by
  have hword (k : Nat) (hk : k ≤ 8) : ∃ word, stream.word32? order (pos + k) = some word :=
    exists_word32 (by omega)
  obtain ⟨itemKey, hitem⟩ := hword 4 (by omega)
  obtain ⟨fileKey, hfile⟩ := hword 8 (by omega)
  refine ⟨⟨.ofTag tag, ⟨itemKey⟩, ⟨fileKey⟩⟩, ?_, rfl⟩
  rw [Header.read, htag, hitem, hfile]

theorem read_header_of_short (h : stream.size < pos + 12) :
    Header.read order stream pos = .error (.cutShort .fields) := by
  have hlast : stream.word32? order (pos + 8) = none := word32_eq_none (by omega)
  rw [Header.read, hlast]
  split
  · contradiction
  · rfl

/-- Only scripts are read on, and about any other type something is said. -/
theorem readOr_eq {header : Header} (h : Header.read order stream pos = .ok header) :
    Record.readOr refuse order codec stream pos =
      if header.type = .script then Record.readBody order codec stream pos header
      else .error (refuse header.type) (pos + 12) := by
  unfold Record.readOr
  rw [h]
  simp only [ItemType.isScript, decide_eq_true_eq, Header.size]

theorem readOr_of_short (h : stream.size < pos + 24) :
    ∃ error stop, Record.readOr refuse order codec stream pos = .error error stop := by
  cases hheader : Header.read order stream pos with
  | error error =>
      refine ⟨error, stream.size, ?_⟩
      unfold Record.readOr
      rw [hheader]
  | ok header =>
      rw [readOr_eq hheader, readBody_of_short h]
      split
      · exact ⟨_, _, rfl⟩
      · exact ⟨_, _, rfl⟩

theorem readOr_eq_ok_iff :
    Record.readOr refuse order codec stream pos = .ok record next ↔
      ∃ words payload, WordsAt order stream pos words ∧ words.tag = ItemType.scriptTag ∧
        pos + 24 + words.storedSize.toNat ≤ stream.size ∧
        Restores codec (storedAt stream pos words) words.size.toNat payload ∧
        record = recordOf words payload ∧
        next = Record.align (pos + 24 + words.storedSize.toNat) := by
  constructor
  · intro h
    -- What can be missing, in the order in which it is looked for.
    by_cases hfront : pos + 24 ≤ stream.size
    · obtain ⟨words, hwords⟩ := exists_wordsAt.mpr hfront
      rw [readOr_eq (read_header hwords)] at h
      by_cases hscript : ItemType.ofTag words.tag = .script
      · have htag := (ofTag_eq_script words.tag).mp hscript
        rw [if_pos hscript] at h
        by_cases hle : pos + 24 + words.storedSize.toNat ≤ stream.size
        · rw [readBody_of_stored hwords _ hle] at h
          split at h
          · rename_i payload hpayload
            cases h
            refine ⟨words, payload, hwords, htag, hle, restore_eq_ok_iff.mp hpayload, ?_, rfl⟩
            rw [hscript, recordOf]
          · cases h
        · rw [readBody_of_cut hwords _ (Nat.not_le.mp hle)] at h
          cases h
      · rw [if_neg hscript] at h
        cases h
    · obtain ⟨error, stop, herror⟩ := readOr_of_short (Nat.not_le.mp hfront)
      rw [herror] at h
      cases h
  · rintro ⟨words, payload, hwords, htag, hle, hpayload, rfl, rfl⟩
    have hscript := (ofTag_eq_script words.tag).mpr htag
    rw [readOr_eq (read_header hwords), if_pos hscript, readBody_of_stored hwords _ hle,
      restore_eq_ok_iff.mpr hpayload, hscript]
    rfl

theorem readOr_ne_decompressionSize {expected actual stop : Nat}
    (hrefuse : ∀ type, refuse type ≠ .decompressionSize expected actual) :
    Record.readOr refuse order codec stream pos ≠
      .error (.decompressionSize expected actual) stop := by
  intro h
  by_cases hheader : pos + 12 ≤ stream.size
  · obtain ⟨tag, htag⟩ : ∃ tag, stream.word32? order pos = some tag := exists_word32 (by omega)
    obtain ⟨header, hread, -⟩ := exists_header htag hheader
    rw [readOr_eq hread] at h
    split at h
    · by_cases hfront : pos + 24 ≤ stream.size
      · obtain ⟨words, hwords⟩ := exists_wordsAt.mpr hfront
        by_cases hle : pos + 24 + words.storedSize.toNat ≤ stream.size
        · rw [readBody_of_stored hwords _ hle] at h
          split at h
          · cases h
          · rename_i error hrestore
            cases h
            exact restore_ne_decompressionSize expected actual hrestore
        · rw [readBody_of_cut hwords _ (Nat.not_le.mp hle)] at h
          cases h
      · rw [readBody_of_short (Nat.not_le.mp hfront)] at h
        cases h
    · exact hrefuse header.type (EStateM.Result.error.inj h).1
  · unfold Record.readOr at h
    rw [read_header_of_short (Nat.not_le.mp hheader)] at h
    cases h

/-! ## Scripts -/

theorem align_isLeast (n : Nat) : IsLeast {m | 4 ∣ m ∧ n ≤ m} (Record.align n) := by
  simp only [Record.align, Record.alignment]
  constructor
  · exact ⟨Nat.dvd_mul_left 4 _, by omega⟩
  · rintro m ⟨⟨k, rfl⟩, hle⟩
    omega

theorem read_eq_ok_iff :
    Script.read container codec stream pos = .ok script next ↔
      ∃ words payload, WordsAt container.order stream pos words ∧
        words.tag = ItemType.scriptTag ∧
        pos + 24 + words.storedSize.toNat ≤ stream.size ∧
        Restores codec (storedAt stream pos words) words.size.toNat payload ∧
        script = .ofRecord container (recordOf words payload) ∧
        next = Record.align (pos + 24 + words.storedSize.toNat) := by
  constructor
  · intro h
    obtain ⟨record, hread, rfl⟩ := Script.ofResult_eq_ok h
    obtain ⟨words, payload, hwords, htag, hle, hpayload, rfl, rfl⟩ := readOr_eq_ok_iff.mp hread
    exact ⟨words, payload, hwords, htag, hle, hpayload, rfl, rfl⟩
  · rintro ⟨words, payload, hwords, htag, hle, hpayload, rfl, rfl⟩
    have hread : Record.read container.order codec stream pos = .ok (recordOf words payload) _ :=
      readOr_eq_ok_iff.mpr ⟨words, payload, hwords, htag, hle, hpayload, rfl, rfl⟩
    rw [Script.read, hread]
    rfl

theorem restores_iff (hsize : stored.size = words.storedSize.toNat) :
    (∃ payload, Restores codec stored words.size.toNat payload) ↔
      words.storedSize = words.size ∨ words.storedSize < words.size ∧
        ∃ payload, codec.decompress stored words.size.toNat = .ok payload ∧
          payload.size = words.size.toNat := by
  rw [← UInt32.toNat_inj, UInt32.lt_iff_toNat_lt, ← hsize]
  constructor
  · rintro ⟨payload, hpayload⟩
    cases hpayload with
    | verbatim heq => exact Or.inl heq
    | expanded hlt hresult heq => exact Or.inr ⟨hlt, payload, hresult, heq⟩
  · rintro (heq | ⟨hlt, payload, hresult, heq⟩)
    · exact ⟨stored, .verbatim heq⟩
    · exact ⟨payload, .expanded hlt hresult heq⟩

/-- A fault of the codec's result is reported with the place of the stored payload. -/
theorem read_of_decompressionSize {expected actual : Nat}
    (hwords : WordsAt container.order stream pos words) (htag : words.tag = ItemType.scriptTag)
    (hle : pos + 24 + words.storedSize.toNat ≤ stream.size)
    (hlt : words.storedSize < words.size)
    (h : codec.decompress (storedAt stream pos words) words.size.toNat =
      .error (.decompressionSize expected actual)) :
    Script.read container codec stream pos =
      .error (.decompressedLength (pos + 24) words.size.toNat actual)
        (pos + 24 + words.storedSize.toNat) := by
  have hscript := (ofTag_eq_script words.tag).mpr htag
  have hsmaller : (storedAt stream pos words).size < words.size.toNat := by
    rw [size_storedAt hle]
    exact UInt32.lt_iff_toNat_lt.mp hlt
  have hread : Record.read container.order codec stream pos =
      .error (.decompressedLength (pos + 24) words.size.toNat actual)
        (pos + 24 + words.storedSize.toNat) := by
    unfold Record.read
    rw [readOr_eq (read_header hwords), if_pos hscript, readBody_of_stored hwords _ hle,
      restore_of_error hsmaller h]
    rfl
  rw [Script.read, hread]
  rfl

theorem read_ne_decompressionSize (expected actual stop : Nat) :
    Script.read container codec stream pos ≠
      .error (.decompressionSize expected actual) stop := by
  intro h
  have hrefuse (type : ItemType) :
      Error.notScriptItem type ≠ .decompressionSize expected actual := nofun
  exact readOr_ne_decompressionSize hrefuse (Script.ofResult_eq_error h)

/-- Other types are refused by both readers, each in its own words. -/
theorem read_of_other {tag : UInt32} (htag : stream.word32? container.order pos = some tag)
    (hle : pos + 12 ≤ stream.size) (hother : tag ≠ ItemType.scriptTag) :
    Script.read container codec stream pos = .error (.notScriptItem (.ofTag tag)) (pos + 12) ∧
      Script.readItem container codec stream pos =
        .error (.unsupportedItemType (.ofTag tag)) (pos + 12) := by
  obtain ⟨header, hheader, htype⟩ := exists_header htag hle
  have hne : header.type ≠ .script := by
    rw [htype]
    exact mt (ofTag_eq_script tag).mp hother
  constructor
  · rw [Script.read, Record.read, readOr_eq hheader, if_neg hne, htype]
    rfl
  · rw [Script.readItem, Record.readItem, readOr_eq hheader, if_neg hne, htype]
    rfl

theorem readItem_eq_read (h : stream.size < pos + 12 ∨
    stream.word32? container.order pos = some ItemType.scriptTag) :
    Script.readItem container codec stream pos = Script.read container codec stream pos := by
  have hsame : Record.readItem container.order codec stream pos =
      Record.read container.order codec stream pos := by
    -- The readers differ in what they refuse with, and nothing is refused for its type here.
    unfold Record.readItem Record.read
    by_cases hle : pos + 12 ≤ stream.size
    · have htag := h.resolve_left (Nat.not_lt.mpr hle)
      obtain ⟨header, hheader, htype⟩ := exists_header htag hle
      have hscript : header.type = .script := by
        rw [htype]
        exact (ofTag_eq_script _).mpr rfl
      rw [readOr_eq hheader, readOr_eq hheader, if_pos hscript, if_pos hscript]
    · unfold Record.readOr
      rw [read_header_of_short (Nat.not_le.mp hle)]
  unfold Script.readItem Script.read
  rw [hsame]

/-- What is read, with any codec.  A record is accepted if its words are there, the tag is
that of scripts, the stored payload is there, and it has the size of the payload or the
codec makes that size of it.  Then the payload has that size, and the position moves to the
next multiple of four.  No error is about a size alone: one that a codec reports gets the
place of the stored payload.  Items of any type are read alike, up to the same position
also where reading fails, except for what is said about a tag that is not that of
scripts. -/
theorem read_accepts (container : Container) (codec : Codec) (stream : Bytes) (pos : Nat) :
    ((∃ script next, Script.read container codec stream pos = .ok script next) ↔
      pos + 24 ≤ stream.size ∧ ∃ words, WordsAt container.order stream pos words ∧
        words.tag = ItemType.scriptTag ∧
        pos + 24 + words.storedSize.toNat ≤ stream.size ∧
        (words.storedSize = words.size ∨ words.storedSize < words.size ∧
          ∃ payload, codec.decompress (storedAt stream pos words) words.size.toNat = .ok payload ∧
            payload.size = words.size.toNat)) ∧
    (∀ script next, Script.read container codec stream pos = .ok script next →
      ∃ words, WordsAt container.order stream pos words ∧
        script = .ofRecord container (recordOf words script.payload) ∧
        script.payload.size = words.size.toNat ∧
        (words.storedSize = words.size → script.payload = storedAt stream pos words) ∧
        (words.storedSize < words.size →
          codec.decompress (storedAt stream pos words) words.size.toNat = .ok script.payload) ∧
        IsLeast {m | 4 ∣ m ∧ pos + 24 + words.storedSize.toNat ≤ m} next) ∧
    (∀ expected actual stop,
      Script.read container codec stream pos ≠
        .error (.decompressionSize expected actual) stop) ∧
    (∀ words expected actual, WordsAt container.order stream pos words →
      words.tag = ItemType.scriptTag → pos + 24 + words.storedSize.toNat ≤ stream.size →
      words.storedSize < words.size →
      codec.decompress (storedAt stream pos words) words.size.toNat =
        .error (.decompressionSize expected actual) →
      Script.read container codec stream pos =
        .error (.decompressedLength (pos + 24) words.size.toNat actual)
          (pos + 24 + words.storedSize.toNat)) ∧
    (∀ tag, stream.word32? container.order pos = some tag → pos + 12 ≤ stream.size →
      tag ≠ ItemType.scriptTag →
      Script.read container codec stream pos = .error (.notScriptItem (.ofTag tag)) (pos + 12) ∧
        Script.readItem container codec stream pos =
          .error (.unsupportedItemType (.ofTag tag)) (pos + 12)) ∧
    (stream.size < pos + 12 ∨
        stream.word32? container.order pos = some ItemType.scriptTag →
      Script.readItem container codec stream pos = Script.read container codec stream pos) := by
  refine ⟨?_, ?_, read_ne_decompressionSize, ?_, ?_, readItem_eq_read⟩
  · constructor
    · rintro ⟨script, next, h⟩
      obtain ⟨words, payload, hwords, htag, hle, hpayload, -, -⟩ := read_eq_ok_iff.mp h
      exact ⟨exists_wordsAt.mp ⟨words, hwords⟩, words, hwords, htag, hle,
        (restores_iff (size_storedAt hle)).mp ⟨payload, hpayload⟩⟩
    · rintro ⟨-, words, hwords, htag, hle, hrestores⟩
      obtain ⟨payload, hpayload⟩ := (restores_iff (size_storedAt hle)).mpr hrestores
      exact ⟨_, _, read_eq_ok_iff.mpr ⟨words, payload, hwords, htag, hle, hpayload, rfl, rfl⟩⟩
  · intro script next h
    obtain ⟨words, payload, hwords, htag, hle, hpayload, rfl, rfl⟩ := read_eq_ok_iff.mp h
    have hsize := size_storedAt hle
    refine ⟨words, hwords, rfl, ?_, ?_, ?_, align_isLeast _⟩
    · exact hpayload.size_payload
    · intro heq
      cases hpayload with
      | verbatim => rfl
      | expanded hlt =>
          rw [hsize, heq] at hlt
          exact absurd hlt (Nat.lt_irrefl _)
    · intro hlt
      cases hpayload with
      | verbatim heq =>
          rw [UInt32.lt_iff_toNat_lt, ← hsize, heq] at hlt
          exact absurd hlt (Nat.lt_irrefl _)
      | expanded _ hresult => exact hresult
  · intro words expected actual hwords htag hle hlt h
    exact read_of_decompressionSize hwords htag hle hlt h
  · intro tag htag hle hother
    exact read_of_other htag hle hother

end ScriptRecord.Proofs.Record.Acceptance
