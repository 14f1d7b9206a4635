import ScriptRecord.Proofs.Struct.Course
/-!
# Following offsets in any data

An image can be made so that its offsets lead round in circles, out of the data, or to the same
arrays again and again.  `Safe` says what the tree that is read from it looks like all the same:
no struct or array inside itself, nothing below so many levels, no entry of a struct twice,
no element of an array lost.  The output bounds the size of the tree: each value that is read
costs some, however its text turns out (`left`).
-/

namespace ScriptRecord.Proofs.Struct.Safety

open ScriptRecord.Struct
open ScriptRecord.Proofs.Struct.Reading
open ScriptRecord.Proofs.Struct.Walking
open ScriptRecord.Proofs.Struct.Course

/-! ## Trees -/

/-- The entries of the struct with its header at a position: those that its links lead to. -/
structure Listed (img : Image) (pos : Nat) (entries : List Entry) (stop : Stop) : Prop where
  walk : Walk img [] ((img.word? (pos + 4)).getD 0).toNat entries stop
  distinct : (entries.map Entry.offset).Nodup

/-- The elements of the array with its header at a position stand from `list` on, a single one
in the header itself. -/
structure Counted (img : Image) (pos list : Nat) (type : ValueType) (count : UInt32) : Prop where
  typed : (img.word? pos).bind ValueType.ofElementTag? = some type
  counted : img.word? (pos + 4) = some count
  single : count = 1 → list = pos + 8
  several : 1 < count → img.resolve? (pos + 8) = some list

mutual

/-- What may be read as the value of a type in a slot, inside the structs and arrays with their
headers in `active`, with `room` levels left. -/
inductive Safe (img : Image) : List Nat → Nat → ValueType → Nat → Node → Prop
  | tooDeep {active : List Nat} {type : ValueType} {slot : Nat} :
      Safe img active 0 type slot .tooDeep
  | overBudget {active : List Nat} {room slot : Nat} {type : ValueType} :
      Safe img active (room + 1) type slot .overBudget
  | scalar {active : List Nat} {room slot : Nat} {type : ValueType} {text : String}
      (held : img.scalarText? type slot = some text) :
      Safe img active (room + 1) type slot (.scalar text)
  | missing {active : List Nat} {room slot : Nat} {type : ValueType}
      (absent : img.scalarText? type slot = none)
      (nowhere : type = .struct ∨ type = .array → img.resolve? slot = none) :
      Safe img active (room + 1) type slot (.missing type slot)
  | enclosing {active : List Nat} {room slot pos : Nat} {type : ValueType}
      (followed : type = .struct ∨ type = .array) (points : img.resolve? slot = some pos)
      (again : pos ∈ active) :
      Safe img active (room + 1) type slot (.enclosing (pos - img.start))
  | struct {active : List Nat} {room slot pos : Nat} {headed : Bool} {entries : List Entry}
      {fields : List Field} {stop : Stop} (points : img.resolve? slot = some pos)
      (fresh : pos ∉ active) (listed : Listed img pos entries stop)
      (held : SafeFields img (pos :: active) room entries fields) :
      Safe img active (room + 1) .struct slot (.struct pos headed fields stop)
  | array {active : List Nat} {room slot pos list beyond : Nat} {type : ValueType}
      {count : UInt32} {items : List Node} (points : img.resolve? slot = some pos)
      (fresh : pos ∉ active) (counted : Counted img pos list type count)
      (held : SafeItems img (pos :: active) room type list items)
      (whole : items.length + beyond = count.toNat)
      (short : beyond ≠ 0 → img.data.size < list + 4 * items.length + 4) :
      Safe img active (room + 1) .array slot (.array pos items beyond)
  | cutArray {active : List Nat} {room slot pos : Nat} (points : img.resolve? slot = some pos)
      (fresh : pos ∉ active)
      (cut : img.word? pos = none ∨ img.word? (pos + 4) = none ∨ img.resolve? (pos + 8) = none) :
      Safe img active (room + 1) .array slot (.cutArray pos)
  | strangeArray {active : List Nat} {room slot pos : Nat} {tag : UInt32}
      (points : img.resolve? slot = some pos) (fresh : pos ∉ active)
      (tagged : img.word? pos = some tag) (strange : ValueType.ofElementTag? tag = none) :
      Safe img active (room + 1) .array slot .strangeArray

/-- What may be read for the entries of a struct. -/
inductive SafeFields (img : Image) : List Nat → Nat → List Entry → List Field → Prop
  | nil {active : List Nat} {room : Nat} : SafeFields img active room [] []
  | known {active : List Nat} {room : Nat} {entry : Entry} {type : ValueType} {value : Node}
      {entries : List Entry} {fields : List Field}
      (typed : ValueType.ofEntryTag? entry.tag = some type)
      (held : Safe img active room type (img.start + entry.offset + 8) value)
      (others : SafeFields img active room entries fields) :
      SafeFields img active room (entry :: entries)
        (.known entry.offset type entry.key value :: fields)
  | strange {active : List Nat} {room : Nat} {entry : Entry} {entries : List Entry}
      {fields : List Field} (untyped : ValueType.ofEntryTag? entry.tag = none)
      (others : SafeFields img active room entries fields) :
      SafeFields img active room (entry :: entries)
        (.strange entry.offset entry.tag entry.key
          (img.word? (img.start + entry.offset + 8)) :: fields)

/-- What may be read for elements of a type in slots one behind the other. -/
inductive SafeItems (img : Image) : List Nat → Nat → ValueType → Nat → List Node → Prop
  | nil {active : List Nat} {room slot : Nat} {type : ValueType} :
      SafeItems img active room type slot []
  | cons {active : List Nat} {room slot : Nat} {type : ValueType} {item : Node}
      {items : List Node} (held : Safe img active room type slot item)
      (others : SafeItems img active room type (slot + 4) items) :
      SafeItems img active room type slot (item :: items)

end

/-- Whether output was left when the value came to be read. -/
def passed : Node → Nat
  | .tooDeep | .overBudget => 0
  | _ => 1

mutual

/-- The values inside a value that output was left for. -/
def passedIn : Node → Nat
  | .struct _ _ fields _ => passedFields fields
  | .array _ items _ => passedItems items
  | _ => 0

def passedFields : List Field → Nat
  | [] => 0
  | .known _ _ _ value :: rest => passed value + passedIn value + passedFields rest
  | .strange _ _ _ _ :: rest => passedFields rest

def passedItems : List Node → Nat
  | [] => 0
  | item :: rest => passed item + passedIn item + passedItems rest

end

mutual

/-- Some value was given up for lack of output. -/
def Starved : Node → Prop
  | .overBudget => True
  | .struct _ _ fields _ => FieldsStarved fields
  | .array _ items _ => ItemsStarved items
  | _ => False

def FieldsStarved : List Field → Prop
  | [] => False
  | .known _ _ _ value :: rest => Starved value ∨ FieldsStarved rest
  | .strange _ _ _ _ :: rest => FieldsStarved rest

def ItemsStarved : List Node → Prop
  | [] => False
  | item :: rest => Starved item ∨ ItemsStarved rest

end

variable {img : Image} {p q : Progress}

/-! ## Output -/

/-- For how many more values output is left, if they cost nothing besides. -/
def left (p : Progress) : Nat :=
  (p.budget + (valueCost - 1)) / valueCost

theorem left_spent_le (cost : Nat) : left (spent p cost) ≤ left p := by
  apply Nat.div_le_div_right
  exact Nat.add_le_add_right (Nat.sub_le _ _) _

/-- A value takes its share of the output even if the output does not cover its cost. -/
theorem left_spent_value (h : 0 < p.budget) : 1 + left (spent p valueCost) ≤ left p := by
  change 1 + (p.budget - 16 + 15) / 16 ≤ (p.budget + 15) / 16
  omega

theorem left_eq_zero : left p = 0 ↔ p.budget = 0 := by
  change (p.budget + 15) / 16 = 0 ↔ _
  omega

theorem passed_le (node : Node) : passed node ≤ 1 := by
  unfold passed
  split <;> decide

/-- What a value costs pays for the value itself, whatever its text costs besides. -/
theorem left_plain (hbudget : 0 < p.budget) (cost : Nat) :
    1 + left (spent p (valueCost + cost)) ≤ left p := by
  have hvalue := left_spent_value hbudget
  have hcost := left_spent_le (p := spent p valueCost) cost
  rw [spent_spent] at hcost
  omega

/-- Then the rest pays for the values inside it. -/
theorem left_inside {node : Node} {inner : Nat} (hbudget : 0 < p.budget)
    (hinner : inner + left q ≤ left (spent p valueCost)) :
    passed node + inner + left q ≤ left p := by
  have hvalue := left_spent_value hbudget
  have hone := passed_le node
  omega

theorem left_none : 0 + left p ≤ left p ∧ (False → left p = 0) :=
  ⟨Nat.le_of_eq (Nat.zero_add _), False.elim⟩

theorem left_both {r : Progress} {first others : Nat} {starved starveds : Prop}
    (hfirst : first + left q ≤ left p ∧ (starved → left q = 0))
    (hothers : others + left r ≤ left q ∧ (starveds → left r = 0)) :
    first + others + left r ≤ left p ∧ (starved ∨ starveds → left r = 0) := by
  obtain ⟨hcount, hnone⟩ := hfirst
  obtain ⟨hcounts, hnones⟩ := hothers
  refine ⟨by omega, ?_⟩
  rintro (h | h)
  · have hleft := hnone h
    omega
  · exact hnones h

mutual

/-- What the values inside a value cost comes out of the output that was left for them, and
they are given up only if none is left. -/
theorem left_of_reads {room slot : Nat} {p q : Progress} {type : ValueType} {node : Node}
    (h : Reads img room p type slot node q) :
    passed node + passedIn node + left q ≤ left p ∧ (Starved node → left q = 0) :=
  match h with
  | .tooDeep => left_none
  | .overBudget empty => by
      have hnone := left_eq_zero.mpr empty
      exact ⟨(Nat.zero_add _).trans_le (left_spent_le _),
        fun _ => Nat.le_zero.mp ((left_spent_le _).trans_eq hnone)⟩
  | .scalar affords _ => ⟨left_plain affords _, False.elim⟩
  | .missing affords _ _ => ⟨left_plain affords _, False.elim⟩
  | .nowhere affords _ _ => ⟨left_plain affords 0, False.elim⟩
  | .enclosing affords _ _ _ => ⟨left_plain affords 0, False.elim⟩
  | .struct affords _ _ held => by
      obtain ⟨hcount, hstarved⟩ := left_of_readsFields held
      exact ⟨left_inside affords hcount, hstarved⟩
  | .array affords _ _ held => by
      obtain ⟨hcount, hstarved⟩ := left_of_readsArray held
      exact ⟨left_inside affords hcount, hstarved⟩

theorem left_of_readsFields {room : Nat} {p q : Progress} {entries : List Entry}
    {fields : List Field} (h : ReadsFields img room p entries fields q) :
    passedFields fields + left q ≤ left p ∧ (FieldsStarved fields → left q = 0) :=
  match h with
  | .nil => left_none
  | .known _ held others => left_both (left_of_reads held) (left_of_readsFields others)
  | .strange _ others => by
      rw [passedFields, FieldsStarved]
      exact left_of_readsFields others

theorem left_of_readsArray {room pos : Nat} {p q : Progress} {node : Node}
    (h : ReadsArray img room p pos node q) :
    passedIn node + left q ≤ left p ∧ (Starved node → left q = 0) :=
  match h with
  | .cut _ => left_none
  | .strange _ _ => left_none
  | .empty _ _ => left_none
  | .single _ _ held => by
      obtain ⟨hcount, hstarved⟩ := left_of_reads held
      exact ⟨hcount, fun h => h.elim hstarved False.elim⟩
  | .several _ _ _ _ held => left_of_readsItems held

theorem left_of_readsItems {room slot count : Nat} {p q : Progress} {type : ValueType}
    {items : List Node} (h : ReadsItems img room p type slot count items q) :
    passedItems items + left q ≤ left p ∧ (ItemsStarved items → left q = 0) :=
  match h with
  | .nil => left_none
  | .cons held others => left_both (left_of_reads held) (left_of_readsItems others)

end

/-! ## Places -/

theorem length_of_readsItems {room slot count : Nat} {type : ValueType} {items : List Node}
    (h : ReadsItems img room p type slot count items q) : items.length = count := by
  induction items generalizing p slot count with
  | nil =>
      cases h
      rfl
  | cons item items ih =>
      cases h with
      | cons _ others => rw [List.length_cons, ih others]

theorem listed_entries (img : Image) (pos : Nat) :
    Listed img pos (img.entries pos).1 (img.entries pos).2 :=
  ⟨entries_walk img pos, (entries_walk img pos).nodup.1⟩

section

variable {pos : Nat} {type : ValueType}
  (typed : (img.word? pos).bind ValueType.ofElementTag? = some type)
include typed

theorem counted_empty (counted : img.word? (pos + 4) = some 0) : Counted img pos 0 type 0 :=
  ⟨typed, counted, fun hone => absurd hone (by decide), fun hmany => absurd hmany (by decide)⟩

theorem counted_single (counted : img.word? (pos + 4) = some 1) :
    Counted img pos (pos + 8) type 1 :=
  ⟨typed, counted, fun _ => rfl, fun hmany => absurd hmany (by decide)⟩

theorem counted_several {count : UInt32} {list : Nat}
    (counted : img.word? (pos + 4) = some count) (many : 1 < count)
    (points : img.resolve? (pos + 8) = some list) : Counted img pos list type count := by
  refine ⟨typed, counted, fun hone => ?_, fun _ => points⟩
  rw [hone] at many
  exact absurd many (by decide)

end

mutual

/-- A value that is read in one of the ways is safe where it is read. -/
theorem safe_of_reads {room slot : Nat} {p q : Progress} {type : ValueType} {node : Node}
    (h : Reads img room p type slot node q) : Safe img p.active room type slot node :=
  match h with
  | .tooDeep => .tooDeep
  | .overBudget _ => .overBudget
  | .scalar _ held => .scalar held
  | .missing _ plain absent => .missing absent (absurd · plain)
  | .nowhere _ followed absent => by
      refine .missing ?_ fun _ => absent
      rcases followed with rfl | rfl <;> rfl
  | .enclosing _ followed points again => .enclosing followed points again
  | .struct _ points fresh held =>
      .struct points fresh (listed_entries _ _) (safe_of_readsFields held)
  | .array _ points fresh held => safe_of_readsArray points fresh rfl held

theorem safe_of_readsFields {room : Nat} {p q : Progress} {entries : List Entry}
    {fields : List Field} (h : ReadsFields img room p entries fields q) :
    SafeFields img p.active room entries fields :=
  match h with
  | .nil => .nil
  | .known typed held others => by
      have hothers := safe_of_readsFields others
      rw [active_of_reads held] at hothers
      exact .known typed (safe_of_reads held) hothers
  | .strange untyped others => .strange untyped (safe_of_readsFields others)

theorem safe_of_readsArray {room slot pos : Nat} {active : List Nat} {p q : Progress}
    {node : Node} (hpoints : img.resolve? slot = some pos) (hfresh : pos ∉ active)
    (hactive : p.active = pos :: active) (h : ReadsArray img room p pos node q) :
    Safe img active (room + 1) .array slot node :=
  match h with
  | .cut cut => .cutArray hpoints hfresh cut
  | .strange tagged untyped =>
      .strangeArray hpoints hfresh tagged untyped
  | .empty typed counted =>
      .array hpoints hfresh (counted_empty typed counted) .nil rfl (absurd rfl)
  | .single typed counted held => by
      have hitem := safe_of_reads held
      rw [hactive] at hitem
      exact .array hpoints hfresh (counted_single typed counted) (.cons hitem .nil) rfl
        (absurd rfl)
  | .several typed counted many points held => by
      have hlength := length_of_readsItems held
      have hitems := safe_of_readsItems held
      rw [hactive] at hitems
      refine .array hpoints hfresh (counted_several typed counted many points) hitems ?_ ?_
      · omega
      · omega

theorem safe_of_readsItems {room slot count : Nat} {p q : Progress} {type : ValueType}
    {items : List Node} (h : ReadsItems img room p type slot count items q) :
    SafeItems img p.active room type slot items :=
  match h with
  | .nil => .nil
  | .cons held others => by
      have hothers := safe_of_readsItems others
      rw [active_of_reads held] at hothers
      exact .cons (safe_of_reads held) hothers

end

/-! ## Images -/

/-- Whatever the data, the names and the start of an image, it is read as a struct with its
entries, the structs and arrays being followed are none again in the end, the tree is safe with
32 levels below the image, and at most 65536 values in it were read.  Values are given up
only once the output is spent.  This tree is what the image is rendered from, with any
indentation. -/
theorem tree_safe (img : Image) :
    ∃ entries fields stop q,
      img.tree.run .initial = (.struct img.start true fields stop, q) ∧ q.active = [] ∧
      Listed img img.start entries stop ∧ SafeFields img [img.start] 32 entries fields ∧
      passedFields fields ≤ 65536 ∧ (FieldsStarved fields → q.budget = 0) ∧
      ∀ indent, img.render indent =
        (Node.struct img.start true fields stop).render img.names indent := by
  obtain ⟨fields, q, htree, hreads⟩ := reads_tree img
  obtain ⟨hcount, hstarved⟩ := left_of_readsFields hreads
  refine ⟨_, fields, _, _, htree, rfl, listed_entries img img.start, safe_of_readsFields hreads,
    ?_, ?_, ?_⟩
  · have hinitial : left (following img.start .initial) = 65536 := by
      change (0x100000 + (16 - 1)) / 16 = 65536
      decide
    omega
  · exact fun h => left_eq_zero.mp (hstarved h)
  · intro indent
    rw [Image.render, htree]

end ScriptRecord.Proofs.Struct.Safety
