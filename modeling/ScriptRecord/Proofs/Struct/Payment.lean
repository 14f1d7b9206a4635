import ScriptRecord.Proofs.Struct.Course
import Mathlib.Algebra.Order.BigOperators.Group.List
import Mathlib.Algebra.Order.Ring.Nat
/-!
# What the values of an image cost

The output of an image is spent on its values one after another, in the order in which
they are read: a struct or an array before what it holds.  `Paid` follows the output
through such a list.  An entry of unknown type is not a value here: its text stands in
the output of the image, and nothing is spent on it.
-/

namespace ScriptRecord.Proofs.Struct.Payment

open ScriptRecord.Struct
open ScriptRecord.Proofs.Struct.Reading
open ScriptRecord.Proofs.Struct.Course

/-! ## Values -/

/-- The text of a value that is neither a struct nor an array. -/
def plainText? : Node → Option String
  | .scalar text => some text
  | .missing type slot =>
    if type = .struct ∨ type = .array then none else some (missingText type slot)
  | _ => none

/-- Such a value has this text with any names and any indentation. -/
theorem render_of_plainText {node : Node} {text : String} (h : plainText? node = some text)
    (names : Names) (indent : String) : node.render names indent = text := by
  cases node with
  | scalar => exact Option.some.inj h
  | missing type slot =>
      rw [plainText?] at h
      split at h
      · contradiction
      · exact Option.some.inj h
  | _ => contradiction

/-- The length of that text, in bytes. -/
def textSize (node : Node) : Nat :=
  ((plainText? node).map String.utf8ByteSize).getD 0

/-- The output that is spent on a value, besides what it holds. -/
def charge : Node → Nat
  | .tooDeep | .overBudget => 0
  | node => valueCost + textSize node

mutual

/-- The values inside a value, in the order in which they are read. -/
def inside : Node → List Node
  | .struct _ _ fields _ => fieldValues fields
  | .array _ items _ => itemValues items
  | _ => []

/-- The values of some entries and the values inside them. -/
def fieldValues : List Field → List Node
  | [] => []
  | .known _ _ _ value :: rest => value :: (inside value ++ fieldValues rest)
  | .strange _ _ _ _ :: rest => fieldValues rest

/-- Some values and the values inside them. -/
def itemValues : List Node → List Node
  | [] => []
  | item :: rest => item :: (inside item ++ itemValues rest)

end

/-- The output that is spent on all of some values. -/
def spentOn (nodes : List Node) : Nat :=
  (nodes.map charge).sum

/-- The length of all their texts. -/
def written (nodes : List Node) : Nat :=
  (nodes.map textSize).sum

theorem written_append (front back : List Node) :
    written (front ++ back) = written front + written back := by
  rw [written, List.map_append, List.sum_append, written, written]

theorem charge_of_read {node : Node} (hreach : node ≠ .tooDeep) (hread : node ≠ .overBudget) :
    charge node = valueCost + textSize node := by
  rw [charge]
  · exact hreach
  · exact hread

theorem textSize_le_charge (node : Node) : textSize node ≤ charge node := by
  cases node with
  | tooDeep | overBudget => exact Nat.le_refl 0
  | _ => exact Nat.le_add_left _ _

theorem written_le_spentOn (nodes : List Node) : written nodes ≤ spentOn nodes :=
  List.sum_le_sum fun node _ => textSize_le_charge node

/-! ## Payment -/

/-- Values are read one after another, with the output left before and after.  Those within
reach are given up exactly when none is left. -/
inductive Paid : Nat → List Node → Nat → Prop
  | nil {budget : Nat} : Paid budget [] budget
  | cons {budget rest : Nat} {node : Node} {nodes : List Node}
      (given : node ≠ .tooDeep → (node = .overBudget ↔ budget = 0))
      (others : Paid (budget - charge node) nodes rest) : Paid budget (node :: nodes) rest

theorem Paid.append {budget between rest : Nat} {front back : List Node}
    (hfront : Paid budget front between) (hback : Paid between back rest) :
    Paid budget (front ++ back) rest := by
  induction hfront with
  | nil => exact hback
  | cons given _ ih => exact .cons given (ih hback)

/-- Values that are read cost what they are charged for. -/
theorem Paid.rest_eq {budget rest : Nat} {nodes : List Node} (h : Paid budget nodes rest) :
    rest = budget - spentOn nodes := by
  induction h with
  | nil => rfl
  | cons _ _ ih => rw [ih, spentOn, spentOn, List.map_cons, List.sum_cons, Nat.sub_sub]

theorem Paid.given_of_split {budget rest : Nat} {before after : List Node} {node : Node}
    (h : Paid budget (before ++ node :: after) rest) (hreach : node ≠ .tooDeep) :
    node = .overBudget ↔ budget ≤ spentOn before := by
  induction before generalizing budget with
  | nil =>
      cases h with
      | cons given => exact (given hreach).trans Nat.le_zero.symm
  | cons first before ih =>
      cases h with
      | cons _ others =>
          rw [ih others, spentOn, spentOn, List.map_cons, List.sum_cons, Nat.sub_le_iff_le_add']

/-- A value that is read has output left for it, whatever it is. -/
theorem Paid.read {budget rest : Nat} {node : Node} {nodes : List Node} (hbudget : 0 < budget)
    (hread : node ≠ .overBudget) (others : Paid (budget - charge node) nodes rest) :
    Paid budget (node :: nodes) rest :=
  .cons (fun _ => ⟨fun h => absurd h hread, fun h => absurd h hbudget.ne'⟩) others

/-! ## Readings -/

variable {img : Image}

/-- A value that does not lie within the data is charged for with the text that says so, ... -/
theorem charge_missing {type : ValueType} {slot : Nat}
    (hplain : ¬ (type = .struct ∨ type = .array)) :
    charge (.missing type slot) = valueCost + (missingText type slot).utf8ByteSize := by
  rw [charge_of_read Node.noConfusion Node.noConfusion, textSize, plainText?, if_neg hplain]
  rfl

/-- ... but a struct or an array without it. -/
theorem charge_nowhere {type : ValueType} {slot : Nat}
    (hfollowed : type = .struct ∨ type = .array) :
    charge (.missing type slot) = valueCost := by
  rw [charge_of_read Node.noConfusion Node.noConfusion, textSize, plainText?, if_pos hfollowed]
  rfl

/-- An array is charged for like a struct, however its header turns out. -/
theorem charge_of_readsArray {room pos : Nat} {p q : Progress} {node : Node}
    (h : ReadsArray img room p pos node q) : charge node = valueCost ∧ node ≠ .overBudget := by
  cases h with
  | _ => exact ⟨rfl, Node.noConfusion⟩

mutual

theorem paid_of_reads {room slot : Nat} {p q : Progress} {type : ValueType} {node : Node}
    (h : Reads img room p type slot node q) : Paid p.budget (node :: inside node) q.budget :=
  match h with
  | .tooDeep => .cons (absurd rfl) .nil
  | .overBudget empty => by
      rw [spent, empty]
      exact .cons (fun _ => ⟨fun _ => rfl, fun _ => rfl⟩) .nil
  | .scalar affords _ => .read affords Node.noConfusion .nil
  | .missing affords plain _ => by
      refine .read affords Node.noConfusion ?_
      rw [charge_missing plain]
      exact .nil
  | .nowhere affords followed _ => by
      refine .read affords Node.noConfusion ?_
      rw [charge_nowhere followed]
      exact .nil
  | .enclosing affords _ _ _ => .read affords Node.noConfusion .nil
  | .struct affords _ _ held => .read affords Node.noConfusion (paid_of_readsFields held)
  | .array affords _ _ held => by
      obtain ⟨hcharge, hread⟩ := charge_of_readsArray held
      refine .read affords hread ?_
      rw [hcharge]
      exact paid_of_readsArray held

theorem paid_of_readsFields {room : Nat} {p q : Progress} {entries : List Entry}
    {fields : List Field} (h : ReadsFields img room p entries fields q) :
    Paid p.budget (fieldValues fields) q.budget :=
  match h with
  | .nil => .nil
  | .known _ held others => (paid_of_reads held).append (paid_of_readsFields others)
  | .strange _ others => by
      rw [fieldValues]
      exact paid_of_readsFields others

theorem paid_of_readsArray {room pos : Nat} {p q : Progress} {node : Node}
    (h : ReadsArray img room p pos node q) : Paid p.budget (inside node) q.budget :=
  match h with
  | .cut _ => .nil
  | .strange _ _ => .nil
  | .empty _ _ => .nil
  | .single _ _ held => (paid_of_reads held).append .nil
  | .several _ _ _ _ held => paid_of_readsItems held

theorem paid_of_readsItems {room slot count : Nat} {p q : Progress} {type : ValueType}
    {items : List Node} (h : ReadsItems img room p type slot count items q) :
    Paid p.budget (itemValues items) q.budget :=
  match h with
  | .nil => .nil
  | .cons held others => (paid_of_reads held).append (paid_of_readsItems others)

end

/-! ## Images -/

/-- What is spent on an image is spent on the values in it: on each that is not nested too
deep, as long as output is left, `valueCost` and the length of its text if it is neither a
struct nor an array.  From the value on for which nothing is left all are given up.  So the
texts of such values stay within the output, except for the last one.  An entry of unknown
type is written without being paid for, and so is what stands for too deep a value. -/
theorem render_paid (img : Image) :
    ∃ fields stop q,
      img.tree.run .initial = (.struct img.start true fields stop, q) ∧
      q.budget = maxOutput - spentOn (fieldValues fields) ∧
      (∀ before node after, fieldValues fields = before ++ node :: after → node ≠ .tooDeep →
        (node = .overBudget ↔ maxOutput ≤ spentOn before) ∧
        (node ≠ .overBudget → written (before ++ [node]) < maxOutput + textSize node)) ∧
      (∀ node ∈ fieldValues fields, ∀ text, plainText? node = some text →
        ∀ indent, node.render img.names indent = text) ∧
      ∀ indent, img.render indent =
        (Node.struct img.start true fields stop).render img.names indent := by
  obtain ⟨fields, q, htree, hreads⟩ := reads_tree img
  have hpaid : Paid maxOutput (fieldValues fields) q.budget := paid_of_readsFields hreads
  refine ⟨fields, _, back .initial q, htree, hpaid.rest_eq, ?_, ?_, ?_⟩
  · intro before node after hsplit hreach
    rw [hsplit] at hpaid
    have hgiven := hpaid.given_of_split hreach
    refine ⟨hgiven, fun hread => ?_⟩
    have hleft : spentOn before < maxOutput := Nat.lt_of_not_le (mt hgiven.mpr hread)
    have hwritten : written [node] = textSize node := List.sum_singleton
    rw [written_append, hwritten]
    exact Nat.add_lt_add_right ((written_le_spentOn before).trans_lt hleft) _
  · exact fun node _ text htext indent => render_of_plainText htext img.names indent
  · intro indent
    rw [Image.render, htree]

/-- An image with one entry, of a type that is not known. -/
def strangeImage : Image where
  data := ([0x00000100, 0x08, 0x00990000, 0, 0xCAFE, 0].flatMap ByteOrder.big.bytes32).toArray
  start := 0
  names := default

theorem entries_strangeImage :
    strangeImage.entries 0 = ([⟨8, 0x00990000, ⟨0⟩⟩], .complete) := by
  have hfirst : strangeImage.word? 4 = some 8 := by decide
  have htag : strangeImage.word? 8 = some 0x00990000 := by decide
  have hkey : strangeImage.word? 12 = some 0 := by decide
  have hnext : strangeImage.word? 20 = some 0 := by decide
  have hstart : strangeImage.start = 0 := rfl
  simp [Image.entries, Image.entriesFrom, hfirst, htag, hkey, hnext, hstart]

/-- The entry is written, and with output left nothing is spent on it. -/
theorem render_not_paid :
    ∃ q, strangeImage.tree.run .initial =
        (.struct 0 true [.strange 8 0x00990000 ⟨0⟩ (some 0xCAFE)] .complete, q) ∧
      0 < q.budget ∧ maxOutput - q.budget < valueCost := by
  have htree : strangeImage.tree.run .initial =
      (.struct 0 true [.strange 8 0x00990000 ⟨0⟩ (some 0xCAFE)] .complete, .initial) := by
    refine run_guarded_of_run (q := following 0 .initial) List.not_mem_nil
      (run_structAt entries_strangeImage ?_) rfl
    rw [List.mapM_cons, run_bind_of_run (run_field_strange (by decide))]
    rfl
  exact ⟨.initial, htree, by decide, by decide⟩

end ScriptRecord.Proofs.Struct.Payment
