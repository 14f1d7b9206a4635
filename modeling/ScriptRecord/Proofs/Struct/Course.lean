import ScriptRecord.Proofs.Struct.Reading
/-!
# The course of a reading

Everything that can happen while a value is read, with the progress before and after it.
`Reads` has a case for each way to end; what a reading keeps or spends is proved from its
cases, without the monad.  Every value is read in one of these ways (`reads_value`), and
an image as the entries of a struct (`reads_tree`).
-/

namespace ScriptRecord.Proofs.Struct.Course

open ScriptRecord.Struct
open ScriptRecord.Proofs.Struct.Reading

/-- Progress once the struct or array that `p` came to has been read. -/
def back (p q : Progress) : Progress :=
  { q with active := p.active }

mutual

/-- A value is read from a slot, with so many levels left. -/
inductive Reads (img : Image) : Nat → Progress → ValueType → Nat → Node → Progress → Prop
  | tooDeep {p : Progress} {type : ValueType} {slot : Nat} : Reads img 0 p type slot .tooDeep p
  | overBudget {room slot : Nat} {p : Progress} {type : ValueType} (empty : p.budget = 0) :
      Reads img (room + 1) p type slot .overBudget (spent p valueCost)
  | scalar {room slot : Nat} {p : Progress} {type : ValueType} {text : String}
      (affords : 0 < p.budget) (held : img.scalarText? type slot = some text) :
      Reads img (room + 1) p type slot (.scalar text) (spent p (valueCost + text.utf8ByteSize))
  | missing {room slot : Nat} {p : Progress} {type : ValueType} (affords : 0 < p.budget)
      (plain : ¬ (type = .struct ∨ type = .array)) (absent : img.scalarText? type slot = none) :
      Reads img (room + 1) p type slot (.missing type slot)
        (spent p (valueCost + (missingText type slot).utf8ByteSize))
  | nowhere {room slot : Nat} {p : Progress} {type : ValueType} (affords : 0 < p.budget)
      (followed : type = .struct ∨ type = .array) (absent : img.resolve? slot = none) :
      Reads img (room + 1) p type slot (.missing type slot) (spent p valueCost)
  | enclosing {room slot pos : Nat} {p : Progress} {type : ValueType} (affords : 0 < p.budget)
      (followed : type = .struct ∨ type = .array) (points : img.resolve? slot = some pos)
      (again : pos ∈ p.active) :
      Reads img (room + 1) p type slot (.enclosing (pos - img.start)) (spent p valueCost)
  | struct {room slot pos : Nat} {p q : Progress} {fields : List Field}
      (affords : 0 < p.budget) (points : img.resolve? slot = some pos) (fresh : pos ∉ p.active)
      (held : ReadsFields img room (following pos (spent p valueCost)) (img.entries pos).1
        fields q) :
      Reads img (room + 1) p .struct slot
        (.struct pos (img.word? pos == some header) fields (img.entries pos).2) (back p q)
  | array {room slot pos : Nat} {p q : Progress} {node : Node} (affords : 0 < p.budget)
      (points : img.resolve? slot = some pos) (fresh : pos ∉ p.active)
      (held : ReadsArray img room (following pos (spent p valueCost)) pos node q) :
      Reads img (room + 1) p .array slot node (back p q)

/-- The values of entries are read one after another. -/
inductive ReadsFields (img : Image) :
    Nat → Progress → List Entry → List Field → Progress → Prop
  | nil {room : Nat} {p : Progress} : ReadsFields img room p [] [] p
  | known {room : Nat} {p q r : Progress} {entry : Entry} {type : ValueType} {value : Node}
      {entries : List Entry} {fields : List Field}
      (typed : ValueType.ofEntryTag? entry.tag = some type)
      (held : Reads img room p type (img.start + entry.offset + 8) value q)
      (others : ReadsFields img room q entries fields r) :
      ReadsFields img room p (entry :: entries)
        (.known entry.offset type entry.key value :: fields) r
  | strange {room : Nat} {p q : Progress} {entry : Entry} {entries : List Entry}
      {fields : List Field} (untyped : ValueType.ofEntryTag? entry.tag = none)
      (others : ReadsFields img room p entries fields q) :
      ReadsFields img room p (entry :: entries)
        (.strange entry.offset entry.tag entry.key
          (img.word? (img.start + entry.offset + 8)) :: fields) q

/-- An array is read, its header being at a position. -/
inductive ReadsArray (img : Image) : Nat → Progress → Nat → Node → Progress → Prop
  | cut {room pos : Nat} {p : Progress}
      (cut : img.word? pos = none ∨ img.word? (pos + 4) = none ∨ img.resolve? (pos + 8) = none) :
      ReadsArray img room p pos (.cutArray pos) p
  | strange {room pos : Nat} {p : Progress} {tag : UInt32} (tagged : img.word? pos = some tag)
      (untyped : ValueType.ofElementTag? tag = none) : ReadsArray img room p pos .strangeArray p
  | empty {room pos : Nat} {p : Progress} {type : ValueType}
      (typed : (img.word? pos).bind ValueType.ofElementTag? = some type)
      (counted : img.word? (pos + 4) = some 0) : ReadsArray img room p pos (.array pos [] 0) p
  | single {room pos : Nat} {p q : Progress} {type : ValueType} {item : Node}
      (typed : (img.word? pos).bind ValueType.ofElementTag? = some type)
      (counted : img.word? (pos + 4) = some 1) (held : Reads img room p type (pos + 8) item q) :
      ReadsArray img room p pos (.array pos [item] 0) q
  | several {room pos list : Nat} {p q : Progress} {type : ValueType} {count : UInt32}
      {items : List Node} (typed : (img.word? pos).bind ValueType.ofElementTag? = some type)
      (counted : img.word? (pos + 4) = some count) (many : 1 < count)
      (points : img.resolve? (pos + 8) = some list)
      (held : ReadsItems img room p type list
        (min count.toNat ((img.data.size - list) / 4)) items q) :
      ReadsArray img room p pos
        (.array pos items (count.toNat - (img.data.size - list) / 4)) q

/-- So many values are read from slots one behind the other. -/
inductive ReadsItems (img : Image) :
    Nat → Progress → ValueType → Nat → Nat → List Node → Progress → Prop
  | nil {room slot : Nat} {p : Progress} {type : ValueType} :
      ReadsItems img room p type slot 0 [] p
  | cons {room slot count : Nat} {p q r : Progress} {type : ValueType} {item : Node}
      {items : List Node} (held : Reads img room p type slot item q)
      (others : ReadsItems img room q type (slot + 4) count items r) :
      ReadsItems img room p type slot (count + 1) (item :: items) r

end

variable {img : Image} {p : Progress} {room slot pos : Nat} {type : ValueType}

/-- A reading ends in one of some ways, with as many headers followed as before. -/
def Ends {α : Type} (reading : Reading α) (p : Progress) (course : α → Progress → Prop) : Prop :=
  ∃ a q, reading.run p = (a, q) ∧ q.active = p.active ∧ course a q

/-- With so many levels left every value is read in one of the ways. -/
def ReadsValues (img : Image) (room : Nat) : Prop :=
  ∀ (p : Progress) (type : ValueType) (slot : Nat),
    Ends (img.value room type slot) p (Reads img room p type slot)

/-! ## Structs -/

theorem reads_fields (hvalues : ReadsValues img room) (entries : List Entry) (p : Progress) :
    Ends (entries.mapM (img.field (img.value room))) p (ReadsFields img room p entries) := by
  induction entries generalizing p with
  | nil => exact ⟨[], p, rfl, rfl, .nil⟩
  | cons entry entries ih =>
      cases htag : ValueType.ofEntryTag? entry.tag with
      | none =>
          obtain ⟨fields, q, hrun, hactive, hreads⟩ := ih p
          exact ⟨_ :: fields, q, run_mapM_cons (run_field_strange htag) hrun, hactive,
            .strange htag hreads⟩
      | some type =>
          obtain ⟨value, q, hrun, hactive, hreads⟩ :=
            hvalues p type (img.start + entry.offset + 8)
          obtain ⟨fields, r, hrest, hactives, hothers⟩ := ih q
          exact ⟨_ :: fields, r, run_mapM_cons (run_field htag hrun) hrest,
            hactives.trans hactive, .known htag hreads hothers⟩

theorem reads_struct (hvalues : ReadsValues img room) (pos : Nat) (headed : Bool)
    (p : Progress) :
    Ends (img.structAt (img.value room) pos headed) p fun node q =>
      ∃ fields, node = .struct pos headed fields (img.entries pos).2 ∧
        ReadsFields img room p (img.entries pos).1 fields q := by
  obtain ⟨fields, q, hrun, hactive, hreads⟩ := reads_fields hvalues (img.entries pos).1 p
  exact ⟨_, q, run_structAt rfl hrun, hactive, fields, rfl, hreads⟩

/-! ## Arrays -/

theorem reads_items (hvalues : ReadsValues img room) (type : ValueType) (count slot : Nat)
    (p : Progress) :
    Ends ((List.range count).mapM fun i => img.value room type (slot + 4 * i)) p
      (ReadsItems img room p type slot count) := by
  induction count generalizing slot p with
  | zero => exact ⟨[], p, rfl, rfl, .nil⟩
  | succ count ih =>
      obtain ⟨item, q, hrun, hactive, hreads⟩ := hvalues p type slot
      obtain ⟨items, r, hrest, hactives, hothers⟩ := ih (slot + 4) q
      exact ⟨item :: items, r, run_slots_succ hrun hrest, hactives.trans hactive,
        .cons hreads hothers⟩

theorem reads_elements {count : UInt32} (hvalues : ReadsValues img room)
    (htype : (img.word? pos).bind ValueType.ofElementTag? = some type)
    (hcount : img.word? (pos + 4) = some count) (p : Progress) :
    Ends (img.arrayAt (img.value room) pos) p (ReadsArray img room p pos) := by
  by_cases hzero : count = 0
  · subst hzero
    exact ⟨_, p, run_arrayAt_empty htype hcount, rfl, .empty htype hcount⟩
  by_cases hone : count = 1
  · subst hone
    obtain ⟨item, q, hrun, hactive, hreads⟩ := hvalues p type (pos + 8)
    exact ⟨_, q, run_arrayAt_single htype hcount hrun, hactive, .single htype hcount hreads⟩
  cases hlist : img.resolve? (pos + 8) with
  | none =>
      exact ⟨_, p, run_arrayAt_nowhere htype hzero hone hcount hlist, rfl,
        .cut (.inr (.inr hlist))⟩
  | some list =>
      have hmany : 1 < count := by
        rw [UInt32.lt_iff_toNat_lt]
        have hne := mt UInt32.toNat_inj.mp hzero
        have hne' := mt UInt32.toNat_inj.mp hone
        simp only [UInt32.toNat_zero, UInt32.toNat_one] at hne hne' ⊢
        omega
      obtain ⟨items, q, hrun, hactive, hreads⟩ :=
        reads_items hvalues type (min count.toNat ((img.data.size - list) / 4)) list p
      exact ⟨_, q, run_arrayAt_several htype hzero hone hcount hlist hrun, hactive,
        .several htype hcount hmany hlist hreads⟩

theorem reads_array (hvalues : ReadsValues img room) (pos : Nat) (p : Progress) :
    Ends (img.arrayAt (img.value room) pos) p (ReadsArray img room p pos) := by
  cases hword : img.word? pos with
  | none =>
      refine ⟨.cutArray pos, p, ?_, rfl, .cut (.inl hword)⟩
      simp only [Image.arrayAt, hword]
      rfl
  | some tag =>
      cases htag : ValueType.ofElementTag? tag with
      | none =>
          refine ⟨.strangeArray, p, ?_, rfl, .strange hword htag⟩
          simp only [Image.arrayAt, hword, htag]
          rfl
      | some type =>
          cases hcount : img.word? (pos + 4) with
          | none =>
              refine ⟨.cutArray pos, p, ?_, rfl, .cut (.inr (.inl hcount))⟩
              simp only [Image.arrayAt, hword, htag, hcount]
              rfl
          | some count =>
              have htype : (img.word? pos).bind ValueType.ofElementTag? = some type := by
                rw [hword, Option.bind_some, htag]
              exact reads_elements hvalues htype hcount p

/-! ## Values -/

theorem reads_plain (hplain : ¬ (type = .struct ∨ type = .array)) (hbudget : 0 < p.budget) :
    Ends (img.value (room + 1) type slot) p (Reads img (room + 1) p type slot) := by
  obtain ⟨hstruct, harray⟩ := not_or.mp hplain
  cases htext : img.scalarText? type slot with
  | some text =>
      exact ⟨_, _, run_value_scalar hbudget hstruct harray htext, rfl, .scalar hbudget htext⟩
  | none =>
      exact ⟨_, _, run_value_missing hbudget hstruct harray htext, rfl,
        .missing hbudget hplain htext⟩

/-- A struct or an array with its header where the slot points to. -/
theorem reads_followed (hfollowed : type = .struct ∨ type = .array) (hbudget : 0 < p.budget)
    {follow : Nat → Reading Node} {course : Nat → Node → Progress → Prop}
    (hrun : ∀ pos, img.resolve? slot = some pos → (img.value (room + 1) type slot).run p =
      (img.guarded pos (follow pos)).run (spent p valueCost))
    (hfollow : ∀ pos, Ends (follow pos) (following pos (spent p valueCost)) (course pos))
    (hcourse : ∀ pos node q, img.resolve? slot = some pos → pos ∉ p.active → course pos node q →
      Reads img (room + 1) p type slot node (back p q)) :
    Ends (img.value (room + 1) type slot) p (Reads img (room + 1) p type slot) := by
  cases hresolve : img.resolve? slot with
  | none =>
      exact ⟨_, _, run_value_nowhere hbudget hfollowed hresolve, rfl,
        .nowhere hbudget hfollowed hresolve⟩
  | some pos =>
      by_cases hmem : pos ∈ p.active
      · exact ⟨_, _, (hrun pos hresolve).trans (run_guarded_of_mem hmem), rfl,
          .enclosing hbudget hfollowed hresolve hmem⟩
      · obtain ⟨node, q, hread, hactive, hheld⟩ := hfollow pos
        have hguarded : (img.guarded pos (follow pos)).run (spent p valueCost) = (node, back p q) :=
          run_guarded_of_run hmem hread hactive
        exact ⟨node, back p q, (hrun pos hresolve).trans hguarded, rfl,
          hcourse pos node q hresolve hmem hheld⟩

theorem reads_value (img : Image) (room : Nat) : ReadsValues img room := by
  induction room with
  | zero => exact fun p type slot => ⟨.tooDeep, p, rfl, rfl, .tooDeep⟩
  | succ room ih =>
      intro p type slot
      by_cases hbudget : 0 < p.budget
      · by_cases hstruct : type = .struct
        · subst hstruct
          refine reads_followed (.inl rfl) hbudget (fun _ => run_value_struct hbudget)
            (fun pos => reads_struct ih pos (img.word? pos == some header) _) ?_
          rintro pos _ q hpoints hfresh ⟨fields, rfl, hreads⟩
          exact .struct hbudget hpoints hfresh hreads
        by_cases harray : type = .array
        · subst harray
          exact reads_followed (.inr rfl) hbudget (fun _ => run_value_array hbudget)
            (fun pos => reads_array ih pos _)
            fun pos node q hpoints hfresh => .array hbudget hpoints hfresh
        exact reads_plain (by simp [hstruct, harray]) hbudget
      · exact ⟨_, _, run_value_of_spent hbudget, rfl,
          .overBudget (Nat.eq_zero_of_not_pos hbudget)⟩

/-! ## What is being followed -/

theorem active_of_reads {q : Progress} {node : Node} (h : Reads img room p type slot node q) :
    q.active = p.active := by
  cases h <;> rfl

theorem active_of_readsFields {q : Progress} {entries : List Entry} {fields : List Field}
    (h : ReadsFields img room p entries fields q) : q.active = p.active := by
  induction entries generalizing p fields with
  | nil =>
      cases h
      rfl
  | cons entry entries ih =>
      cases h with
      | known _ held others => exact (ih others).trans (active_of_reads held)
      | strange _ others => exact ih others

theorem active_of_readsItems {q : Progress} {count : Nat} {items : List Node}
    (h : ReadsItems img room p type slot count items q) : q.active = p.active := by
  induction items generalizing p slot count with
  | nil =>
      cases h
      rfl
  | cons item items ih =>
      cases h with
      | cons held others => exact (ih others).trans (active_of_reads held)

theorem active_of_readsArray {q : Progress} {node : Node}
    (h : ReadsArray img room p pos node q) : q.active = p.active := by
  cases h with
  | cut | strange | empty => rfl
  | single _ _ held => exact active_of_reads held
  | several _ _ _ _ held => exact active_of_readsItems held

/-! ## Images -/

/-- An image is read as a struct, for which nothing is spent, and rendered from it. -/
theorem reads_tree (img : Image) :
    ∃ fields q,
      img.tree.run .initial =
        (.struct img.start true fields (img.entries img.start).2, back .initial q) ∧
      ReadsFields img maxNesting (following img.start .initial) (img.entries img.start).1
        fields q := by
  obtain ⟨_, q, hrun, hactive, fields, rfl, hreads⟩ :=
    reads_struct (reads_value img maxNesting) img.start true (following img.start .initial)
  exact ⟨fields, q, run_guarded_of_run List.not_mem_nil hrun hactive, hreads⟩

end ScriptRecord.Proofs.Struct.Course
