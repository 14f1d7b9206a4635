import ScriptRecord.Proofs.Struct.Entries
/-!
# Readings and their progress

What a reading leaves behind: the output that it spent, and the headers being
followed as it found them.  While a value is read, every header being followed is
that of a deeper value (`Within`), so the header of the value itself is none of them.
-/

namespace ScriptRecord.Proofs.Struct.Reading

open ScriptRecord.Struct
open ScriptRecord.Proofs.Struct.Layout
open ScriptRecord.Proofs.Struct.Uniqueness

variable {img : Image} {p : Progress}

/-! ## Spending -/

/-- Progress once some output has been spent. -/
def spent (p : Progress) (cost : Nat) : Progress :=
  { p with budget := p.budget - cost }

/-- Once the first of two costs is paid, enough is left for the second. -/
theorem le_budget_spent {first second : Nat} (h : first + second ≤ p.budget) :
    second ≤ (spent p first).budget := by
  change second ≤ p.budget - first
  omega

theorem spent_spent (first second : Nat) :
    spent (spent p first) second = spent p (first + second) := by
  rw [spent, spent, spent, Nat.sub_sub]

theorem run_spend (cost : Nat) :
    (spend cost).run p = (decide (0 < p.budget), spent p cost) := rfl

theorem run_bind_of_run {α β : Type} {reading : Reading α} {next : α → Reading β} {a : α}
    {q : Progress} (h : reading.run p = (a, q)) :
    (reading >>= next).run p = (next a).run q := by
  rw [StateT.run_bind, h]
  rfl

/-- Readings one after another. -/
theorem run_mapM_cons {α β : Type} {reading : α → Reading β} {x : α} {xs : List α} {y : β}
    {ys : List β} {q r : Progress} (h : (reading x).run p = (y, q))
    (hrest : (xs.mapM reading).run q = (ys, r)) :
    ((x :: xs).mapM reading).run p = (y :: ys, r) := by
  rw [List.mapM_cons, run_bind_of_run h, run_bind_of_run hrest]
  rfl

/-! ## Following -/

/-- Every header being followed is that of a value deeper than `depth`. -/
def Within (img : Image) (active : List Nat) (depth : Nat) : Prop :=
  ∀ pos ∈ active, ∃ v, HeaderAt img pos v ∧ depth < v.depth

theorem within_nil (depth : Nat) : Within img [] depth := by
  intro pos hpos
  exact absurd hpos List.not_mem_nil

theorem Within.mono {active : List Nat} {depth less : Nat} (h : Within img active depth)
    (hle : less ≤ depth) : Within img active less := by
  intro pos hpos
  obtain ⟨v, hv, hlt⟩ := h pos hpos
  exact ⟨v, hv, by omega⟩

theorem Within.cons {active : List Nat} {depth pos : Nat} {v : Value}
    (h : Within img active v.depth) (hv : HeaderAt img pos v) (hlt : depth < v.depth) :
    Within img (pos :: active) depth := by
  intro q hq
  cases List.mem_cons.mp hq with
  | inl heq =>
      subst heq
      exact ⟨v, hv, hlt⟩
  | inr hmem => exact h.mono (Nat.le_of_lt hlt) q hmem

/-- A struct or an array is not met inside itself, for a header stands for one value. -/
theorem Within.not_mem {active : List Nat} {pos : Nat} {v : Value}
    (h : Within img active v.depth) (hv : HeaderAt img pos v) : pos ∉ active := by
  intro hpos
  obtain ⟨w, hw, hlt⟩ := h pos hpos
  rw [header_unique hv hw] at hlt
  exact Nat.lt_irrefl _ hlt

/-- Progress while the struct or array at `pos` is followed. -/
def following (pos : Nat) (p : Progress) : Progress :=
  { p with active := pos :: p.active }

/-- A struct or an array that is followed is followed no more when it has been read. -/
theorem run_guarded_of_run {pos : Nat} {follow : Reading Node} {node : Node} {q : Progress}
    (hnew : pos ∉ p.active) (h : follow.run (following pos p) = (node, q))
    (hactive : q.active = (following pos p).active) :
    (img.guarded pos follow).run p = (node, { q with active := p.active }) := by
  have hget : (get : Reading Progress).run p = (p, p) := rfl
  have hpush : (modify fun q => { q with active := pos :: q.active } : Reading Unit).run p =
      ((), following pos p) := rfl
  have hpop : (modify fun q => { q with active := q.active.erase pos } : Reading Unit).run q =
      ((), { q with active := p.active }) := by
    change ((), Progress.mk (q.active.erase pos) q.budget) = _
    rw [hactive, following, List.erase_cons_head]
  rw [Image.guarded, run_bind_of_run hget, List.contains_eq_mem, decide_eq_false hnew,
    if_neg Bool.false_ne_true, run_bind_of_run hpush, run_bind_of_run h, run_bind_of_run hpop]
  rfl

theorem run_guarded_of_mem {pos : Nat} {follow : Reading Node} (h : pos ∈ p.active) :
    (img.guarded pos follow).run p = (.enclosing (pos - img.start), p) := by
  have hget : (get : Reading Progress).run p = (p, p) := rfl
  rw [Image.guarded, run_bind_of_run hget, List.contains_eq_mem, decide_eq_true h, if_pos rfl]
  rfl

theorem run_guarded {pos cost : Nat} {follow : Reading Node} {node : Node} (hnew : pos ∉ p.active)
    (h : follow.run (following pos p) = (node, spent (following pos p) cost)) :
    (img.guarded pos follow).run p = (node, spent p cost) :=
  run_guarded_of_run hnew h rfl

/-! ## Structs and arrays -/

section

variable {value : ValueType → Nat → Reading Node} {q : Progress} {pos : Nat} {type : ValueType}

theorem run_field {entry : Entry} {node : Node}
    (htype : ValueType.ofEntryTag? entry.tag = some type)
    (h : (value type (img.start + entry.offset + 8)).run p = (node, q)) :
    (img.field value entry).run p = (.known entry.offset type entry.key node, q) := by
  simp only [Image.field, htype]
  rw [run_bind_of_run h]
  rfl

theorem run_field_strange {entry : Entry} (htype : ValueType.ofEntryTag? entry.tag = none) :
    (img.field value entry).run p = (.strange entry.offset entry.tag entry.key
      (img.word? (img.start + entry.offset + 8)), p) := by
  simp only [Image.field, htype]
  rfl

theorem run_structAt {headed : Bool} {entries : List Entry} {stop : Stop} {fields : List Field}
    (hentries : img.entries pos = (entries, stop))
    (h : (entries.mapM (img.field value)).run p = (fields, q)) :
    (img.structAt value pos headed).run p = (.struct pos headed fields stop, q) := by
  simp only [Image.structAt, hentries]
  rw [run_bind_of_run h]
  rfl

/-- Values from slots, of which the others stand behind the first one. -/
theorem run_slots_succ {slot count : Nat} {item : Node} {items : List Node} {r : Progress}
    (h : (value type slot).run p = (item, q))
    (hrest : ((List.range count).mapM fun i => value type (slot + 4 + 4 * i)).run q = (items, r)) :
    ((List.range (count + 1)).mapM fun i => value type (slot + 4 * i)).run p =
      (item :: items, r) := by
  have hslots : (fun i => value type (slot + 4 * i)) ∘ Nat.succ =
      fun i => value type (slot + 4 + 4 * i) := by
    funext i
    rw [Function.comp_apply, Nat.mul_succ, Nat.add_comm (4 * i), ← Nat.add_assoc]
  rw [← hslots, ← List.mapM_map] at hrest
  rw [List.range_succ_eq_map]
  exact run_mapM_cons h hrest

variable (htype : (img.word? pos).bind ValueType.ofElementTag? = some type)
include htype

theorem run_arrayAt_empty (hcount : img.word? (pos + 4) = some 0) :
    (img.arrayAt value pos).run p = (.array pos [] 0, p) := by
  obtain ⟨tag, hword, htag⟩ := Option.bind_eq_some_iff.mp htype
  simp only [Image.arrayAt, hword, htag, hcount, if_true]
  rfl

theorem run_arrayAt_single (hcount : img.word? (pos + 4) = some 1) {item : Node}
    (h : (value type (pos + 8)).run p = (item, q)) :
    (img.arrayAt value pos).run p = (.array pos [item] 0, q) := by
  obtain ⟨tag, hword, htag⟩ := Option.bind_eq_some_iff.mp htype
  have hne : (1 : UInt32) ≠ 0 := by decide
  simp only [Image.arrayAt, hword, htag, hcount, if_neg hne, if_true]
  rw [run_bind_of_run h]
  rfl

variable {count : UInt32} (hzero : count ≠ 0) (hone : count ≠ 1)
  (hcount : img.word? (pos + 4) = some count)
include hzero hone hcount

theorem run_arrayAt_nowhere (hlist : img.resolve? (pos + 8) = none) :
    (img.arrayAt value pos).run p = (.cutArray pos, p) := by
  obtain ⟨tag, hword, htag⟩ := Option.bind_eq_some_iff.mp htype
  simp only [Image.arrayAt, hword, htag, hcount, if_neg hzero, if_neg hone, hlist]
  rfl

theorem run_arrayAt_several {list : Nat} {items : List Node}
    (hlist : img.resolve? (pos + 8) = some list)
    (h : ((List.range (min count.toNat ((img.data.size - list) / 4))).mapM fun i =>
      value type (list + 4 * i)).run p = (items, q)) :
    (img.arrayAt value pos).run p =
      (.array pos items (count.toNat - (img.data.size - list) / 4), q) := by
  obtain ⟨tag, hword, htag⟩ := Option.bind_eq_some_iff.mp htype
  simp only [Image.arrayAt, hword, htag, hcount, if_neg hzero, if_neg hone, hlist]
  rw [run_bind_of_run h]
  rfl

end

/-! ## Values -/

/-- Without output nothing is read, whatever the type. -/
theorem run_value_of_spent {room slot : Nat} {type : ValueType} (h : ¬ 0 < p.budget) :
    (img.value (room + 1) type slot).run p = (.overBudget, spent p valueCost) := by
  cases type
  case struct | array =>
    rw [Image.value, run_bind_of_run (run_spend valueCost), decide_eq_false h]
    rfl
  all_goals
    rw [Image.value, run_bind_of_run (run_spend valueCost), decide_eq_false h]
    · rfl
    · exact ValueType.noConfusion
    · exact ValueType.noConfusion

theorem run_value_scalar {room slot : Nat} {type : ValueType} {text : String}
    (hbudget : 0 < p.budget) (hstruct : type ≠ .struct) (harray : type ≠ .array)
    (htext : img.scalarText? type slot = some text) :
    (img.value (room + 1) type slot).run p =
      (.scalar text, spent p (valueCost + text.utf8ByteSize)) := by
  rw [Image.value, run_bind_of_run (run_spend valueCost), decide_eq_true hbudget, if_pos rfl]
  · simp only [htext]
    rw [run_bind_of_run (run_spend text.utf8ByteSize), spent_spent]
    rfl
  · exact hstruct
  · exact harray

theorem run_value_missing {room slot : Nat} {type : ValueType} (hbudget : 0 < p.budget)
    (hstruct : type ≠ .struct) (harray : type ≠ .array)
    (htext : img.scalarText? type slot = none) :
    (img.value (room + 1) type slot).run p =
      (.missing type slot, spent p (valueCost + (missingText type slot).utf8ByteSize)) := by
  rw [Image.value, run_bind_of_run (run_spend valueCost), decide_eq_true hbudget, if_pos rfl]
  · simp only [htext]
    rw [run_bind_of_run (run_spend (missingText type slot).utf8ByteSize), spent_spent]
    rfl
  · exact hstruct
  · exact harray

theorem run_value_struct {room slot pos : Nat} (hbudget : 0 < p.budget)
    (hresolve : img.resolve? slot = some pos) :
    (img.value (room + 1) .struct slot).run p =
      (img.guarded pos (img.structAt (img.value room) pos (img.word? pos == some header))).run
        (spent p valueCost) := by
  rw [Image.value, run_bind_of_run (run_spend valueCost), decide_eq_true hbudget, if_pos rfl]
  simp only [hresolve]

theorem run_value_array {room slot pos : Nat} (hbudget : 0 < p.budget)
    (hresolve : img.resolve? slot = some pos) :
    (img.value (room + 1) .array slot).run p =
      (img.guarded pos (img.arrayAt (img.value room) pos)).run (spent p valueCost) := by
  rw [Image.value, run_bind_of_run (run_spend valueCost), decide_eq_true hbudget, if_pos rfl]
  simp only [hresolve]

/-- A struct or an array is not looked for without an offset in its slot. -/
theorem run_value_nowhere {room slot : Nat} {type : ValueType} (hbudget : 0 < p.budget)
    (h : type = .struct ∨ type = .array) (hresolve : img.resolve? slot = none) :
    (img.value (room + 1) type slot).run p = (.missing type slot, spent p valueCost) := by
  rcases h with rfl | rfl
  all_goals
    rw [Image.value, run_bind_of_run (run_spend valueCost), decide_eq_true hbudget, if_pos rfl]
    simp only [hresolve]
    rfl

end ScriptRecord.Proofs.Struct.Reading
