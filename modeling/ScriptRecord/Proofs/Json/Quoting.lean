import Mathlib.Data.List.Forall2
import ScriptRecord.Json.Value
/-!
# Quoted strings

A string that has been quoted is read as the text it was made from, whatever that is, and
what follows the closing quote is left (`piecesOnto_quoted`).  So an object whose members
are quoted strings is read member by member.
-/

namespace ScriptRecord.Proofs.Json.Quoting

open ScriptRecord.Json

/-- What a character is found as: itself, or the code unit of a control. -/
inductive Stands : Piece → Char → Prop where
  | char (c : Char) : Stands (.char c) c
  | unit {c : Char} : c.toNat < 0x20 → Stands (.unit (UInt16.ofNat c.toNat)) c

variable {text rest : List Char} {pieces : List Piece}
  {members : List (Option String × Value)}

/-! ## Characters -/

/-- A character stands for itself, behind a backslash, or as its number if it is a control. -/
theorem escape_cases (c : Char) :
    (escape c = [c] ∧ 0x20 ≤ c.toNat ∧ c ≠ '"' ∧ c ≠ '\\') ∨
      (∃ e, escape c = ['\\', e] ∧ escaped? e = some c ∧ e ≠ 'u') ∨
      (escape c = ['\\', 'u', '0', '0', Hex.lowerDigit (c.toNat / 16),
        Hex.lowerDigit (c.toNat % 16)] ∧ c.toNat < 0x20) := by
  unfold escape
  by_cases hquote : c = '"' ∨ c = '\\'
  · rw [if_pos hquote]
    rcases hquote with rfl | rfl <;> exact .inr (.inl ⟨_, rfl, rfl, by decide⟩)
  rw [if_neg hquote]
  obtain ⟨hmark, hslash⟩ := not_or.mp hquote
  split
  · next h => exact .inr (.inl ⟨'b', rfl, h ▸ rfl, by decide⟩)
  split
  · next h => exact .inr (.inl ⟨'f', rfl, h ▸ rfl, by decide⟩)
  split
  · next h => exact .inr (.inl ⟨'n', rfl, h ▸ rfl, by decide⟩)
  split
  · next h => exact .inr (.inl ⟨'r', rfl, h ▸ rfl, by decide⟩)
  split
  · next h => exact .inr (.inl ⟨'t', rfl, h ▸ rfl, by decide⟩)
  split
  · next h => exact .inr (.inr ⟨rfl, h⟩)
  · next h => exact .inl ⟨rfl, Nat.not_lt.mp h, hmark, hslash⟩

theorem valueFrom?_control {n : Nat} (h : n < 0x20) :
    Hex.valueFrom? 0 ['0', '0', Hex.lowerDigit (n / 16), Hex.lowerDigit (n % 16)] = some n := by
  have hall : ∀ n < 0x20, Hex.valueFrom? 0
      ['0', '0', Hex.lowerDigit (n / 16), Hex.lowerDigit (n % 16)] = some n := by decide +kernel
  exact hall n h

theorem exists_piece (c : Char) :
    ∃ piece, Stands piece c ∧
      ∀ done rest, piecesOnto done (escape c ++ rest) = piecesOnto (piece :: done) rest := by
  rcases escape_cases c with ⟨hescape, hlow, hmark, hslash⟩ | ⟨e, hescape, he, hu⟩ |
    ⟨hescape, hlow⟩
  · refine ⟨.char c, .char c, fun done rest => ?_⟩
    rw [hescape, List.singleton_append, piecesOnto]
    · rw [if_neg (by simp [hslash, hlow])]
    · exact hmark
    · exact fun _ _ _ _ _ hc _ => hslash hc
    · exact fun _ _ hc _ => hslash hc
  · refine ⟨.char c, .char c, fun done rest => ?_⟩
    rw [hescape]
    simp [piecesOnto, he, hu]
  · refine ⟨_, .unit hlow, fun done rest => ?_⟩
    rw [hescape]
    simp only [List.cons_append, List.nil_append]
    rw [piecesOnto]
    simp only [valueFrom?_control hlow]

/-! ## Strings -/

theorem exists_pieces (text : List Char) :
    ∃ pieces, List.Forall₂ Stands pieces text ∧ ∀ done rest,
      piecesOnto done (text.flatMap escape ++ '"' :: rest) =
        some (done.reverse ++ pieces, rest) := by
  induction text with
  | nil => exact ⟨[], .nil, fun done rest => by rw [List.append_nil]; rfl⟩
  | cons c text ih =>
      obtain ⟨piece, hpiece, hfirst⟩ := exists_piece c
      obtain ⟨pieces, hpieces, hrest⟩ := ih
      refine ⟨piece :: pieces, .cons hpiece hpieces, fun done rest => ?_⟩
      rw [List.flatMap_cons, List.append_assoc, hfirst, hrest, List.reverse_cons, List.append_assoc,
        List.singleton_append]

theorem joinOnto?_of_stands (h : List.Forall₂ Stands pieces text) (done : List Char) :
    joinOnto? done pieces = some (done.reverse ++ text) := by
  induction h generalizing done with
  | nil => rw [joinOnto?, List.append_nil]
  | @cons piece c pieces text hpiece _ ih =>
      have hstep : joinOnto? done (piece :: pieces) = joinOnto? (c :: done) pieces := by
        cases hpiece with
        | char => rw [joinOnto?]
        | unit hlow =>
            have hall : ∀ n < 0x20, Utf16.isLead (UInt16.ofNat n) = false ∧
                Utf16.isTrail (UInt16.ofNat n) = false ∧
                (UInt16.ofNat n).toNat = n := by decide +kernel
            obtain ⟨hlead, htrail, hnumber⟩ := hall c.toNat hlow
            rw [joinOnto?.eq_def]
            simp only [hlead, htrail, hnumber, Char.ofNat_toNat, Bool.false_eq_true, if_false]
      rw [hstep, ih, List.reverse_cons, List.append_assoc, List.singleton_append]

/-- A quoted string is read as its text. -/
theorem piecesOnto_quoted (text : String) (rest : List Char) :
    ∃ pieces, piecesOnto [] (text.toList.flatMap escape ++ '"' :: rest) = some (pieces, rest) ∧
      textOf? pieces = some text := by
  obtain ⟨pieces, hpieces, hread⟩ := exists_pieces text.toList
  refine ⟨pieces, hread [] rest, ?_⟩
  rw [textOf?, joinOnto?_of_stands hpieces, List.reverse_nil, List.nil_append, Option.map_some,
    String.ofList_toList]

theorem quote_append (text : String) (rest : List Char) :
    (quote text).toList ++ rest = '"' :: (text.toList.flatMap escape ++ '"' :: rest) := by
  simp only [quote, String.toList_ofList, List.cons_append, List.append_assoc, List.nil_append]

/-! ## Values -/

theorem skipBlank_cons {c : Char} (hc : c ≠ ' ' ∧ c ≠ '\t' ∧ c ≠ '\n' ∧ c ≠ '\r') :
    skipBlank (c :: rest) = c :: rest := by
  rw [skipBlank, List.dropWhile_cons_of_neg (by simp [hc])]

theorem read_quote (fuel : Nat) (text : String) (rest : List Char) :
    read (fuel + 1) ((quote text).toList ++ rest) = some (.string (some text), rest) := by
  obtain ⟨pieces, hread, htext⟩ := piecesOnto_quoted text rest
  rw [quote_append, Json.read, skipBlank_cons (by decide)]
  simp only [hread, htext, Option.map_some]

theorem read_members (fuel : Nat) (name : String) (rest : List Char) :
    read (fuel + 1) ('\x7b' :: ((quote name).toList ++ rest)) =
      readMembers fuel [] ((quote name).toList ++ rest) := by
  rw [quote_append, Json.read, skipBlank_cons (by decide)]
  simp only [skipBlank_cons (c := '"') (by decide)]
  rfl

/-- The member in front is read, and then the others behind the comma. -/
theorem readMembers_more (fuel : Nat) (name text : String) (rest : List Char) :
    readMembers (fuel + 2) members
        ((quote name).toList ++ ':' :: ((quote text).toList ++ ',' :: rest)) =
      readMembers (fuel + 1) ((some name, .string (some text)) :: members) rest := by
  obtain ⟨pieces, hread, hname⟩ :=
    piecesOnto_quoted name (':' :: ((quote text).toList ++ ',' :: rest))
  rw [quote_append, readMembers, skipBlank_cons (by decide)]
  simp only [hread, skipBlank_cons (c := ':') (by decide), read_quote,
    skipBlank_cons (c := ',') (by decide), hname]

theorem readMembers_final (fuel : Nat) (name text : String) (rest : List Char) :
    readMembers (fuel + 2) members
        ((quote name).toList ++ ':' :: ((quote text).toList ++ '\x7d' :: rest)) =
      some (.object ((some name, .string (some text)) :: members).reverse, rest) := by
  obtain ⟨pieces, hread, hname⟩ :=
    piecesOnto_quoted name (':' :: ((quote text).toList ++ '\x7d' :: rest))
  rw [quote_append, readMembers, skipBlank_cons (by decide)]
  simp only [hread, skipBlank_cons (c := ':') (by decide), read_quote,
    skipBlank_cons (c := '\x7d') (by decide), hname]

end ScriptRecord.Proofs.Json.Quoting
