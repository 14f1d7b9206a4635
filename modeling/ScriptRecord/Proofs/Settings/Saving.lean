import ScriptRecord.Proofs.Json.Quoting
import ScriptRecord.Proofs.Text.Members
import ScriptRecord.Settings.Json
import ScriptRecord.Slot
/-!
# Saved containers

A container is saved as an object of three texts: the name of the platform, the name of the
byte order and the members of the charset.  It is loaded as it was, but for the empty charset:
its text is empty, and the empty text stands for the standard charset (`ofJson?_toJson`).
-/

namespace ScriptRecord.Proofs.Settings.Saving

open ScriptRecord.Json
open ScriptRecord.Proofs.Json.Quoting
open ScriptRecord.Proofs.Text.Members

variable {set : Charset}

theorem ofName?_platform (platform : Platform) :
    Platform.ofName? platform.name = some platform := by
  cases platform <;> decide +kernel

theorem ofName?_order (order : ByteOrder) : ByteOrder.ofName? order.name = some order := by
  cases order <;> decide +kernel

/-! ## Charsets -/

theorem standard_not_empty : Charset.standard.isEmpty = false := by
  rw [← Bool.not_eq_true, Charset.standard, isEmpty_ofString]
  intro h
  exact absurd (h 'a' (by decide +kernel)) (by decide)

theorem isEmpty_toText (set : Charset) : set.toText.isEmpty = set.isEmpty := by
  rw [Bool.eq_iff_iff, String.isEmpty_iff, ← String.toList_inj, Charset.toText,
    String.toList_ofList, Charset.isEmpty, Charset.size, beq_iff_eq, List.length_eq_zero_iff]
  rfl

theorem ofText_toText (set : Charset) :
    Charset.ofText set.toText = if set.isEmpty then .standard else set := by
  rw [Charset.ofText, isEmpty_toText, ofString_toText]

/-- Only the empty charset is lost. -/
theorem ofText_toText_eq_iff : Charset.ofText set.toText = set ↔ set.isEmpty = false := by
  rw [ofText_toText]
  cases h : set.isEmpty with
  | false => exact iff_of_true (if_neg Bool.false_ne_true) rfl
  | true =>
      refine iff_of_false (fun heq => ?_) Bool.noConfusion
      rw [if_pos rfl] at heq
      rw [← heq, standard_not_empty] at h
      contradiction

/-! ## Containers -/

theorem toList_toJson (container : Container) :
    container.toJson.toList = '\x7b' :: ((quote "platform").toList ++ ':' ::
      ((quote container.platform.name).toList ++ ',' :: ((quote "endian").toList ++ ':' ::
      ((quote container.order.name).toList ++ ',' :: ((quote "charset").toList ++ ':' ::
      ((quote container.charset.toText).toList ++ '\x7d' :: [])))))) := by
  have hopen : "\x7b".toList = ['\x7b'] := rfl
  have hcolon : ":".toList = [':'] := rfl
  have hcomma : ",".toList = [','] := rfl
  have hclose : "\x7d".toList = ['\x7d'] := rfl
  unfold Container.toJson
  simp only [String.toList_append, List.append_assoc, hopen, hcolon, hcomma, hclose,
    List.cons_append, List.nil_append]

theorem parse?_toJson (container : Container) :
    Json.parse? container.toJson = some (.object
      [(some "platform", .string (some container.platform.name)),
        (some "endian", .string (some container.order.name)),
        (some "charset", .string (some container.charset.toText))]) := by
  have hread (fuel : Nat) : Json.read (fuel + 5) container.toJson.toList = some (.object
      [(some "platform", .string (some container.platform.name)),
        (some "endian", .string (some container.order.name)),
        (some "charset", .string (some container.charset.toText))], []) := by
    rw [toList_toJson, read_members, readMembers_more, readMembers_more, readMembers_final]
    rfl
  have hfuel : 4 ≤ container.toJson.toList.length := by
    rw [toList_toJson]
    simp only [List.length_cons, List.length_append]
    omega
  obtain ⟨fuel, hfuel⟩ := Nat.exists_eq_add_of_le' hfuel
  unfold Json.parse?
  dsimp only
  rw [hfuel, hread fuel]
  rfl

theorem ofJson?_eq (container : Container) :
    Container.ofJson? container.toJson =
      some { container with charset := .ofText container.charset.toText } := by
  rw [Container.ofJson?, parse?_toJson]
  simp [Container.fieldsOf?, Container.Fields.readMember?, Container.Fields.readPlatform?,
    Container.Fields.readOrder?, Container.Fields.readCharset?, Container.wordOf?,
    Container.charsetOf?, ofName?_platform, ofName?_order, Container.Fields.complete]

theorem ofJson?_eq_some_self_iff (container : Container) :
    Container.ofJson? container.toJson = some container ↔ container.charset.isEmpty = false := by
  rw [ofJson?_eq, Option.some.injEq, ← ofText_toText_eq_iff]
  constructor
  · intro hsame
    exact congrArg Container.charset hsame
  · intro hcharset
    rw [hcharset]

/-- What a saved container is loaded as.  Its charset is the text of its members, in order, and is
lost only if there are none, as in a charset made from characters beyond the first 256. -/
theorem ofJson?_toJson (container : Container) :
    let set := container.charset
    Platform.ofName? container.platform.name = some container.platform ∧
      ByteOrder.ofName? container.order.name = some container.order ∧
      (∀ c, c ∈ set.toText.toList ↔ set.contains c = true) ∧
      set.toText.toList.Pairwise (· < ·) ∧
      (Charset.ofText set.toText = set ↔ set.isEmpty = false) ∧
      Container.ofJson? container.toJson =
        some (if set.isEmpty then { container with charset := .standard } else container) ∧
      ∀ text, (Charset.ofString text).isEmpty = true ↔ ∀ c ∈ text.toList, 256 ≤ c.toNat := by
  intro set
  refine ⟨ofName?_platform _, ofName?_order _, fun _ => mem_toText, pairwise_toText set,
    ofText_toText_eq_iff, ?_, isEmpty_ofString⟩
  rw [ofJson?_eq, ofText_toText]
  cases hset : set.isEmpty with
  | false => rw [if_neg Bool.false_ne_true, if_neg Bool.false_ne_true]
  | true => rw [if_pos rfl, if_pos rfl]

/-- Nothing is a text under the empty charset, but under the one that it is loaded as. -/
theorem ofJson?_toJson_empty :
    let container : Container := ⟨.pc, .big, .ofString ""⟩
    let payload : Bytes := #[0x48, 0x45, 0x4C, 0x4C, 0x4F, 0x00]
    Charset.ofText container.charset.toText ≠ container.charset ∧
      Container.ofJson? container.toJson ≠ some container ∧
      ∃ loaded, Container.ofJson? container.toJson = some loaded ∧
        Slot.extract container payload = [] ∧
        Slot.extract loaded payload = [⟨"HELLO", 0, 5, false⟩] := by
  intro container payload
  have hempty : container.charset.isEmpty = true := (isEmpty_ofString "").mpr nofun
  have hlost : ¬ container.charset.isEmpty = false := fun h =>
    Bool.noConfusion (hempty.symm.trans h)
  refine ⟨mt ofText_toText_eq_iff.mp hlost, mt (ofJson?_eq_some_self_iff container).mp hlost, _,
    ofJson?_eq container, by decide +kernel, ?_⟩
  rw [ofText_toText, if_pos hempty]
  decide +kernel

end ScriptRecord.Proofs.Settings.Saving
