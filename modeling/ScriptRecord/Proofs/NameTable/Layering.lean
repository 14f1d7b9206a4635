import ScriptRecord.NameTable
import ScriptRecord.Proofs.Text.HexDigits
import Mathlib.Data.List.Induction
/-!
# Name lists in layers

A table answers with the name that was entered last (`get?_ofList`), and the entries of two
texts with a line feed between them are those of the first and then those of the second
(`entriesOfText_join`).  So it is one and the same to ask two tables in turn and to ask the
table of both texts in the other order (`names_layered`).
-/

namespace ScriptRecord.Proofs.NameTable.Layering

open ScriptRecord.Proofs.Text.HexDigits

/-- What stands for a key without a name: a dollar sign and the eight digits of the key. -/
def Placeholder (key : Key) (text : String) : Prop :=
  ∃ digits, text = String.ofList ('$' :: digits) ∧ digits.length = 8 ∧
    Writes digits key.checksum.toNat

/-! ## Tables -/

theorem get?_insert (table : NameTable) (key other : Key) (name : String) :
    (table.insert key name).get? other = if key = other then some name else table.get? other := by
  rw [NameTable.get?, NameTable.insert, Std.HashMap.getElem?_insert]
  exact if_congr beq_iff_eq rfl rfl

theorem get?_ofList (pairs : List (Key × String)) (key : Key) :
    (NameTable.ofList pairs).get? key = pairs.reverse.lookup key := by
  induction pairs using List.reverseRecOn with
  | nil => exact Std.HashMap.getElem?_empty
  | append_singleton pairs pair ih =>
      rw [NameTable.ofList, List.foldl_append, List.foldl_cons, List.foldl_nil, get?_insert,
        ← NameTable.ofList, ih, List.reverse_append, List.reverse_singleton,
        List.singleton_append, List.lookup_cons]
      by_cases h : pair.1 = key
      · rw [if_pos h, h, beq_self_eq_true]
      · rw [if_neg h, beq_false_of_ne (Ne.symm h)]

theorem get?_ofList_append (pairs others : List (Key × String)) (key : Key) :
    (NameTable.ofList (pairs ++ others)).get? key =
      ((NameTable.ofList others).get? key).or ((NameTable.ofList pairs).get? key) := by
  rw [get?_ofList, get?_ofList, get?_ofList, List.reverse_append, List.lookup_append]

/-! ## Texts -/

/-- The line feed between two texts ends the last line of the first. -/
theorem entriesOfText_join (text other : List Char) :
    NameTable.entriesOfText (text ++ '\n' :: other) =
      NameTable.entriesOfText text ++ NameTable.entriesOfText other := by
  rw [NameTable.entriesOfText, List.splitOn_append_cons_self, List.filterMap_append]
  rfl

theorem get?_parse_join (a b : String) (key : Key) :
    (NameTable.parse (a ++ "\n" ++ b)).get? key =
      ((NameTable.parse b).get? key).or ((NameTable.parse a).get? key) := by
  have htext : (a ++ "\n" ++ b).toList = a.toList ++ '\n' :: b.toList := by
    rw [String.toList_append, String.toList_append, List.append_assoc]
    rfl
  rw [NameTable.parse, htext, entriesOfText_join, get?_ofList_append]
  rfl

/-! ## Layers -/

theorem placeholder_toHex (key : Key) : Placeholder key ("$" ++ key.toHex) := by
  obtain ⟨digits, hhex, hlength, hwrites⟩ := writes_toHex key
  refine ⟨digits, ?_, hlength, hwrites⟩
  rw [hhex, ← String.toList_inj, String.toList_append, String.toList_ofList, String.toList_ofList,
    String.toList_ofList, List.singleton_append]

/-- Of two texts in one list the second comes first.  Two tables asked in turn know what the table
of one such list knows, and where it has no name they give the digits of the key. -/
theorem names_layered (a b overrides global : String) (key : Key) :
    let names : Names := ⟨NameTable.parse overrides, NameTable.parse global⟩
    let table := NameTable.parse (global ++ "\n" ++ overrides)
    (NameTable.parse (a ++ "\n" ++ b)).get? key =
        ((NameTable.parse b).get? key).or ((NameTable.parse a).get? key) ∧
      names.lookup? key = table.get? key ∧
      (∀ name, table.get? key = some name → names.resolve key = name) ∧
      (table.get? key = none → Placeholder key (names.resolve key)) := by
  intro names table
  have hlookup : names.lookup? key = table.get? key := (get?_parse_join global overrides key).symm
  refine ⟨get?_parse_join a b key, hlookup, fun name hname => ?_, fun hnone => ?_⟩
  · rw [Names.resolve, hlookup, hname, Option.getD_some]
  · rw [Names.resolve, hlookup, hnone, Option.getD_none]
    exact placeholder_toHex key

end ScriptRecord.Proofs.NameTable.Layering
