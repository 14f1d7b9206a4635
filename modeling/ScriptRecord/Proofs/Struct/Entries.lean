import ScriptRecord.Proofs.Struct.Uniqueness
import ScriptRecord.Proofs.Struct.Walking
import Mathlib.Data.List.Forall2
/-!
# The entries of a struct

The links of a struct never lead back: an offset that stood twice in the list would
stand in front of two lists of different lengths, and an image holds one list behind
an offset.  So the entries are found in the order of the links, and to the last.
-/

namespace ScriptRecord.Proofs.Struct.Entries

open ScriptRecord.Struct
open ScriptRecord.Proofs.Struct.Layout
open ScriptRecord.Proofs.Struct.Uniqueness
open ScriptRecord.Proofs.Struct.Walking

variable {img : Image}

/-- An entry that was found stands for a member. -/
def EntryFor (img : Image) (entry : Entry) : Member → Prop
  | .mk key value =>
    entry.tag = value.type.entryTag ∧ entry.key = key ∧
      ValueAt img (img.start + entry.offset + 8) value

/-- Every offset starts a list that is longer than `members`. -/
def StartLonger (img : Image) (offsets : Nat → Prop) (members : List Member) : Prop :=
  ∀ offset, offsets offset →
    ∃ longer, LinkedAt img offset longer ∧ members.length < longer.length

theorem not_of_startLonger {offsets : Nat → Prop} {members : List Member} {offset : Nat}
    (hlonger : StartLonger img offsets members) (h : LinkedAt img offset members) :
    ¬ offsets offset := by
  intro hoffset
  obtain ⟨longer, hlinked, hlt⟩ := hlonger offset hoffset
  rw [linked_unique h hlinked] at hlt
  omega

/-! ## The number of entries -/

/-- The offsets of the entries are distinct, and each lies within the data. -/
theorem exists_offsets {offset : Nat} {members : List Member} (h : LinkedAt img offset members) :
    ∃ offsets : List Nat, offsets.length = members.length ∧ offsets.Nodup ∧
      ∀ o ∈ offsets, o < img.data.size ∧
        ∃ sublist, LinkedAt img o sublist ∧ sublist.length ≤ members.length := by
  induction members generalizing offset with
  | nil => exact ⟨[], rfl, List.nodup_nil, fun o ho => absurd ho List.not_mem_nil⟩
  | cons member rest ih =>
      have hwhole := h
      cases h with
      | cons _ tag _ _ _ others =>
          obtain ⟨offsets, hlength, hnodup, hoffsets⟩ := ih others
          have hle := tag.le_size
          refine ⟨offset :: offsets, ?_, ?_, ?_⟩
          · rw [List.length_cons, List.length_cons, hlength]
          · apply List.nodup_cons.mpr
            refine ⟨?_, hnodup⟩
            -- An entry further on starts a shorter list than this one does.
            intro hmem
            obtain ⟨-, sublist, hsublist, hshort⟩ := hoffsets offset hmem
            rw [← linked_unique hwhole hsublist, List.length_cons] at hshort
            omega
          · intro o ho
            cases List.mem_cons.mp ho with
            | inl heq =>
                subst heq
                exact ⟨by omega, _, hwhole, Nat.le_refl _⟩
            | inr hmem =>
                obtain ⟨hlt, sublist, hsublist, hshort⟩ := hoffsets o hmem
                exact ⟨hlt, sublist, hsublist, Nat.le_succ_of_le hshort⟩

theorem length_le_size {offset : Nat} {members : List Member} (h : LinkedAt img offset members) :
    members.length ≤ img.data.size := by
  obtain ⟨offsets, hlength, hnodup, hoffsets⟩ := exists_offsets h
  rw [← hlength]
  exact length_le_of_lt hnodup fun o ho => (hoffsets o ho).1

/-! ## The search -/

theorem entriesFrom_of_linkedAt {offset : Nat} {members : List Member} (fuel : Nat)
    (seen : Std.HashSet Nat) (found : Array Entry) (h : LinkedAt img offset members)
    (hfuel : members.length ≤ fuel)
    (hseen : StartLonger img (fun o => seen.contains o = true) members) :
    ∃ entries, img.entriesFrom fuel offset seen found = (found ++ entries.toArray, .complete) ∧
      List.Forall₂ (EntryFor img) entries members := by
  induction members generalizing offset fuel seen found with
  | nil =>
      refine ⟨[], ?_, .nil⟩
      cases h with
      | nil last =>
          cases fuel with
          | zero => simp [Image.entriesFrom]
          | succ fuel => simp [Image.entriesFrom, last]
  | cons member rest ih =>
      have hnew := not_of_startLonger hseen h
      have hwhole := h
      cases h with
      | @cons _ key value next _ further tag named held link others =>
          have hrest : StartLonger img (fun o => (seen.insert offset).contains o = true) rest := by
            intro o ho
            rw [Std.HashSet.contains_insert, Bool.or_eq_true, beq_iff_eq] at ho
            cases ho with
            | inl heq =>
                subst heq
                exact ⟨_, hwhole, Nat.lt_succ_self rest.length⟩
            | inr hold =>
                obtain ⟨longer, hlonger, hlt⟩ := hseen o hold
                exact ⟨longer, hlonger, Nat.lt_of_succ_lt hlt⟩
          cases fuel with
          | zero => exact absurd hfuel (Nat.not_succ_le_zero rest.length)
          | succ fuel =>
              obtain ⟨entries, hentries, hall⟩ :=
                ih fuel (seen.insert offset) (found.push ⟨offset, value.type.entryTag, key⟩) others
                  (Nat.le_of_succ_le_succ hfuel) hrest
              refine ⟨⟨offset, value.type.entryTag, key⟩ :: entries, ?_,
                .cons ⟨rfl, rfl, held⟩ hall⟩
              simp only [Image.entriesFrom, if_neg further, if_neg hnew, tag.word, named.word,
                link.word, Option.getD_some, hentries]
              simp

/-- All entries of a struct are found, in the order of its members. -/
theorem entries_of_structAt {pos : Nat} {members : List Member} (h : StructAt img pos members) :
    ∃ entries, img.entries pos = (entries, .complete) ∧
      List.Forall₂ (EntryFor img) entries members := by
  obtain ⟨_, link, held⟩ := h
  have hfuel : members.length ≤ img.data.size + 2 := Nat.le_add_right_of_le (length_le_size held)
  have hseen : StartLonger img (fun o => (∅ : Std.HashSet Nat).contains o = true) members := by
    intro o ho
    rw [Std.HashSet.contains_empty] at ho
    contradiction
  obtain ⟨entries, hentries, hall⟩ := entriesFrom_of_linkedAt _ _ #[] held hfuel hseen
  refine ⟨entries, ?_, hall⟩
  rw [Image.entries, link.word, Option.getD_some, hentries, Array.empty_append]

end ScriptRecord.Proofs.Struct.Entries
