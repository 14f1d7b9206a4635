import ScriptRecord.Proofs.Struct.Reading
/-!
# The text of an image

An image that holds a struct has the text of that struct.  The induction is on the
structs and arrays that may still be followed into each other; at each level the
values of a struct and the elements of an array are read one after another, each
paying for itself (`reads_value`).
-/

namespace ScriptRecord.Proofs.Struct.Rendering

open ScriptRecord.Struct
open ScriptRecord.Proofs.Struct.Layout
open ScriptRecord.Proofs.Struct.Scalars
open ScriptRecord.Proofs.Struct.Uniqueness
open ScriptRecord.Proofs.Struct.Entries
open ScriptRecord.Proofs.Struct.Reading
open ScriptRecord.Proofs.BytesAt

variable {img : Image} {p : Progress}

/-- A reading that starts with `p` pays `cost` and gives a node with the text of `v`. -/
def Reads (img : Image) (reading : Reading Node) (p : Progress) (cost : Nat) (v : Value) : Prop :=
  ∃ node, reading.run p = (node, spent p cost) ∧
    ∀ indent, node.render img.names indent = v.text img.names indent

/-- Values of a depth up to `room` are read in full wherever the output allows it. -/
def ReadsValues (img : Image) (room : Nat) : Prop :=
  ∀ {slot : Nat} {v : Value} {p : Progress}, ValueAt img slot v → v.depth ≤ room →
    v.cost img.names ≤ p.budget → Within img p.active v.depth →
      Reads img (img.value room v.type slot) p (v.cost img.names) v

/-! ## Structs -/

theorem render_struct (names : Names) (indent : String) (pos : Nat) (fields : List Field) :
    (Node.struct pos true fields .complete).render names indent =
      renderFields names (indent ++ indentUnit) "(QbStruct) \x7b\n" fields ++ indent ++ "\x7d" := by
  have hwarning : headerWarning true = "" := rfl
  have hstop : Stop.complete.render (indent ++ indentUnit) = "" := rfl
  rw [Node.render_struct, hwarning, hstop, String.empty_append, String.append_empty]

theorem fields_of_entries {room : Nat} (hvalues : ReadsValues img room) {entries : List Entry}
    {members : List Member} (hall : List.Forall₂ (EntryFor img) entries members)
    (hdepth : membersDepth members ≤ room) (hcost : membersCost img.names members ≤ p.budget)
    (hwithin : Within img p.active (membersDepth members)) :
    ∃ fields, (entries.mapM (img.field (img.value room))).run p =
        (fields, spent p (membersCost img.names members)) ∧
      ∀ indent out, renderFields img.names indent out fields =
        out ++ membersText img.names indent members := by
  induction hall generalizing p with
  | nil =>
      refine ⟨[], rfl, ?_⟩
      intro indent out
      rw [renderFields, membersText, String.append_empty]
  | @cons entry member entries members hentry _ ih =>
      obtain ⟨key, value⟩ := member
      obtain ⟨htag, rfl, hvalue⟩ := hentry
      rw [membersDepth] at hdepth hwithin
      rw [membersCost] at hcost
      obtain ⟨node, hread, htext⟩ := hvalues hvalue (by omega) (by omega)
        (hwithin.mono (Nat.le_max_left _ _))
      have htype : ValueType.ofEntryTag? entry.tag = some value.type := by
        rw [htag, ofEntryTag_entryTag]
      obtain ⟨fields, hrest, htexts⟩ := ih (by omega) (le_budget_spent hcost)
        (hwithin.mono (Nat.le_max_right _ _))
      refine ⟨.known entry.offset value.type entry.key node :: fields, ?_, ?_⟩
      · rw [spent_spent] at hrest
        exact run_mapM_cons (run_field htype hread) hrest
      · intro indent out
        rw [renderFields, htexts, Field.render, htext, membersText]
        simp only [String.append_assoc]

theorem reads_struct {room pos : Nat} {members : List Member} (hvalues : ReadsValues img room)
    (h : StructAt img pos members) (hdepth : membersDepth members ≤ room)
    (hcost : membersCost img.names members ≤ p.budget)
    (hwithin : Within img p.active (membersDepth members)) :
    Reads img (img.structAt (img.value room) pos true) p (membersCost img.names members)
      (.struct members) := by
  obtain ⟨entries, hentries, hall⟩ := entries_of_structAt h
  obtain ⟨fields, hread, htext⟩ := fields_of_entries hvalues hall hdepth hcost hwithin
  refine ⟨.struct pos true fields .complete, run_structAt hentries hread, ?_⟩
  intro indent
  rw [render_struct, htext, Value.text]

/-! ## Arrays -/

theorem render_array (names : Names) (indent : String) (pos : Nat) (nodes : List Node) :
    (Node.array pos nodes 0).render names indent =
      "[" ++ String.intercalate ", " (renderItems names indent nodes) ++ "]" := by
  have hbeyond : beyondTexts 0 = [] := rfl
  rw [Node.render_array, hbeyond, List.append_nil]

theorem scalarAt_le_size {slot : Nat} {s : Scalar} (h : ScalarAt img slot s) :
    slot + 4 ≤ img.data.size := by
  cases s with
  | integer | float => exact HasWord.le_size h
  | string | wString =>
      obtain ⟨-, pos, hpoints, -⟩ := h
      exact hpoints.le_size
  | vector2 | vector3 =>
      obtain ⟨pos, hpoints, -⟩ := h
      exact hpoints.le_size
  | key | keyRef | strPtr | strQs => exact HasWord.le_size h

/-- Every value has a word in its slot. -/
theorem valueAt_le_size {slot : Nat} {v : Value} (h : ValueAt img slot v) :
    slot + 4 ≤ img.data.size := by
  cases h with
  | scalar held => exact scalarAt_le_size held
  | struct points => exact points.le_size
  | array points => exact points.le_size

theorem itemsAt_le_size {slot : Nat} {items : List Value} (h : ItemsAt img slot items) :
    4 * items.length ≤ img.data.size - slot := by
  induction items generalizing slot with
  | nil => exact Nat.zero_le _
  | cons item rest ih =>
      cases h with
      | cons held others =>
          have hslot := valueAt_le_size held
          have hrest := ih others
          rw [List.length_cons]
          omega

theorem nodes_of_items {room slot : Nat} (hvalues : ReadsValues img room) {type : ValueType}
    {items : List Value} (h : ItemsAt img slot items) (htyped : ∀ item ∈ items, item.type = type)
    (hdepth : itemsDepth items ≤ room) (hcost : itemsCost img.names items ≤ p.budget)
    (hwithin : Within img p.active (itemsDepth items)) :
    ∃ nodes, ((List.range items.length).mapM fun i => img.value room type (slot + 4 * i)).run p =
        (nodes, spent p (itemsCost img.names items)) ∧
      ∀ indent, renderItems img.names indent nodes = itemsText img.names indent items := by
  induction items generalizing slot p with
  | nil => exact ⟨[], rfl, fun _ => rfl⟩
  | cons item rest ih =>
      cases h with
      | cons held others =>
          rw [itemsDepth] at hdepth hwithin
          rw [itemsCost] at hcost
          have htype := htyped item List.mem_cons_self
          obtain ⟨node, hread, htext⟩ := hvalues held (by omega) (by omega)
            (hwithin.mono (Nat.le_max_left _ _))
          obtain ⟨nodes, hrest, htexts⟩ :=
            ih others (fun x hx => htyped x (List.mem_cons_of_mem _ hx)) (by omega)
              (le_budget_spent hcost) (hwithin.mono (Nat.le_max_right _ _))
          refine ⟨node :: nodes, ?_, ?_⟩
          · rw [htype] at hread
            rw [spent_spent] at hrest
            exact run_slots_succ hread hrest
          · intro indent
            rw [renderItems, itemsText, htext, htexts]

theorem bind_elementTag {pos : Nat} {type : ValueType} (h : HasWord img pos type.elementTag) :
    (img.word? pos).bind ValueType.ofElementTag? = some type := by
  rw [h.word, Option.bind_some, ofElementTag_elementTag]

theorem reads_array {room pos : Nat} {type : ValueType} {items : List Value}
    (hvalues : ReadsValues img room) (h : ArrayAt img pos type items)
    (hdepth : itemsDepth items ≤ room) (hcost : itemsCost img.names items ≤ p.budget)
    (hwithin : Within img p.active (itemsDepth items)) :
    Reads img (img.arrayAt (img.value room) pos) p (itemsCost img.names items)
      (.array type items) := by
  cases h with
  | empty tag count =>
      refine ⟨.array pos [] 0, run_arrayAt_empty (bind_elementTag tag) count.word, ?_⟩
      intro indent
      rw [render_array]
      rfl
  | @single _ _ item tag count typed held =>
      rw [itemsDepth, itemsDepth] at hdepth hwithin
      rw [itemsCost, itemsCost] at hcost
      have hdepth' : item.depth ≤ room := by omega
      obtain ⟨node, hread, htext⟩ := hvalues held hdepth' hcost (hwithin.mono (Nat.le_max_left _ _))
      rw [typed] at hread
      refine ⟨.array pos [node] 0, run_arrayAt_single (bind_elementTag tag) count.word hread, ?_⟩
      intro indent
      rw [render_array, renderItems, renderItems, htext]
      rfl
  | @several _ list _ _ tag count length_lt two_le typed points held =>
      obtain ⟨nodes, hread, htext⟩ := nodes_of_items hvalues held typed hdepth hcost hwithin
      have hlength := UInt32.toNat_ofNat_of_lt' length_lt
      have hzero : UInt32.ofNat items.length ≠ 0 := by
        intro h
        rw [h, UInt32.toNat_zero] at hlength
        omega
      have hone : UInt32.ofNat items.length ≠ 1 := by
        intro h
        rw [h, UInt32.toNat_one] at hlength
        omega
      have hfits := itemsAt_le_size held
      have havailable : items.length ≤ (img.data.size - list) / 4 := by omega
      have hrun := @run_arrayAt_several img p (img.value room)
        (spent p (itemsCost img.names items)) pos type (bind_elementTag tag) _ hzero hone count.word
        list nodes points.resolve
      rw [hlength, Nat.min_eq_left havailable, Nat.sub_eq_zero_of_le havailable] at hrun
      refine ⟨.array pos nodes 0, hrun hread, ?_⟩
      intro indent
      rw [render_array, htext, Value.text]

/-! ## Values -/

theorem depth_pos (v : Value) : 0 < v.depth := by
  cases v with
  | scalar => exact Nat.zero_lt_one
  | struct members => exact Nat.zero_lt_succ _
  | array type items => exact Nat.zero_lt_succ _

theorem valueCost_le_cost (names : Names) (v : Value) : valueCost ≤ v.cost names := by
  cases v with
  | scalar => exact Nat.le_add_right _ _
  | struct members => exact Nat.le_add_right _ _
  | array type items => exact Nat.le_add_right _ _

/-- What is followed behind a header pays for its values besides the struct or array
itself. -/
theorem reads_of_followed {room slot pos cost : Nat} {follow : Reading Node} {v : Value}
    (hrun : (img.value room v.type slot).run p =
      (img.guarded pos follow).run (spent p valueCost))
    (hcost : v.cost img.names = valueCost + cost) (hnew : pos ∉ p.active)
    (h : Reads img follow (following pos (spent p valueCost)) cost v) :
    Reads img (img.value room v.type slot) p (v.cost img.names) v := by
  obtain ⟨node, hread, htext⟩ := h
  have hguarded : (img.guarded pos follow).run (spent p valueCost) =
      (node, spent (spent p valueCost) cost) := run_guarded hnew hread
  refine ⟨node, ?_, htext⟩
  rw [hrun, hguarded, spent_spent, hcost]

theorem reads_value (room : Nat) : ReadsValues img room := by
  induction room with
  | zero =>
      intro slot v p _ hdepth
      exact absurd hdepth (Nat.not_le_of_gt (depth_pos v))
  | succ room ih =>
      intro slot v p h hdepth hcost hwithin
      have hbudget : 0 < p.budget := by
        have hpaid := valueCost_le_cost img.names v
        have hpos : 0 < valueCost := by decide
        omega
      cases h with
      | scalar held =>
          refine ⟨.scalar (Scalar.text img.names _), ?_, fun _ => rfl⟩
          exact run_value_scalar hbudget (scalarType_ne_struct _) (scalarType_ne_array _)
            (scalarText_of_scalarAt held)
      | @struct _ pos members points held =>
          have hrun := @run_value_struct img p room slot pos hbudget points.resolve
          have hheaded : img.word? pos = some header := by
            obtain ⟨headed, -, -⟩ := held
            exact headed.word
          rw [hheaded, beq_self_eq_true] at hrun
          rw [Value.depth] at hdepth
          rw [Value.cost] at hcost
          have hinner : Within img (pos :: p.active) (membersDepth members) :=
            hwithin.cons held (Nat.lt_succ_self _)
          apply reads_of_followed hrun rfl (hwithin.not_mem held)
          exact reads_struct ih held (Nat.le_of_succ_le_succ hdepth) (le_budget_spent hcost) hinner
      | @array _ pos type items points held =>
          rw [Value.depth] at hdepth
          rw [Value.cost] at hcost
          have hinner : Within img (pos :: p.active) (itemsDepth items) :=
            hwithin.cons held (Nat.lt_succ_self _)
          apply reads_of_followed (run_value_array hbudget points.resolve) rfl
            (hwithin.not_mem held)
          exact reads_array ih held (Nat.le_of_succ_le_succ hdepth) (le_budget_spent hcost) hinner

/-! ## Images -/

/-- An image that holds a struct of at most `maxNesting` levels, which costs at most
`maxOutput`, has the text of that struct.  Values may lie anywhere in the data, and
may share bytes; that no header leads back to itself need not be asked for, since a
struct is a finite tree and a header stands for one value. -/
theorem render_of_structAt (img : Image) (members : List Member) (indent : String)
    (h : StructAt img img.start members) (hdepth : membersDepth members ≤ maxNesting)
    (hcost : membersCost img.names members ≤ maxOutput) :
    img.render indent = (Value.struct members).text img.names indent := by
  have hheader : HeaderAt img img.start (.struct members) := h
  have hinner : Within img [img.start] (membersDepth members) :=
    (within_nil _).cons hheader (Nat.lt_succ_self _)
  obtain ⟨node, hread, htext⟩ :=
    reads_struct (p := following img.start .initial) (reads_value maxNesting) h hdepth hcost hinner
  have htree : img.tree.run .initial = (node, spent .initial (membersCost img.names members)) :=
    run_guarded List.not_mem_nil hread
  rw [Image.render, htree]
  exact htext indent

/-- An image that starts behind four other bytes: a struct with a struct, and with an
array that points to the same struct twice. -/
def sharingImage : Image where
  data := ([0xABABABAB, 0x00000100, 0x08,
    0x008A0000, 1, 0x28, 0x18,
    0x008C0000, 2, 0x40, 0,
    0x00000100, 0x30,
    0x00810000, 3, 0xFFFFFFFB, 0,
    0x00010A00, 2, 0x4C,
    0x28, 0x28].flatMap ByteOrder.big.bytes32).toArray
  start := 4
  names := default

def sharedStruct : Value := .struct [.mk ⟨3⟩ (.scalar (.integer (-5)))]

def sharingMembers : List Member :=
  [.mk ⟨1⟩ sharedStruct, .mk ⟨2⟩ (.array .struct [sharedStruct, sharedStruct])]

theorem sharedStruct_held : StructAt sharingImage 0x2C [.mk ⟨3⟩ (.scalar (.integer (-5)))] := by
  have headed : HasWord sharingImage 0x2C header := by decide
  have link : HasWord sharingImage 0x30 0x30 := by decide
  have value : HasWord sharingImage 0x3C (-5 : Int32).toUInt32 := by decide
  have last : HasWord sharingImage 0x40 0 := by decide
  exact .mk headed link
    (.cons (by decide) (by decide) (by decide) (.scalar value) last (.nil rfl))

theorem sharingMembers_held : StructAt sharingImage 4 sharingMembers := by
  have headed : HasWord sharingImage 4 header := by decide
  have link : HasWord sharingImage 8 0x08 := by decide
  have next : HasWord sharingImage 0x18 0x18 := by decide
  have last : HasWord sharingImage 0x28 0 := by decide
  have points : ∀ slot, HasWord sharingImage slot 0x28 → ValueAt sharingImage slot sharedStruct :=
    fun slot hslot => .struct ⟨0x28, hslot, rfl⟩ sharedStruct_held
  have array : ArrayAt sharingImage 0x44 .struct [sharedStruct, sharedStruct] :=
    .several (by decide) (by decide) (by decide) (by decide) (by simp [sharedStruct, Value.type])
      ⟨0x4C, by decide, rfl⟩ (.cons (points _ (by decide)) (.cons (points _ (by decide)) .nil))
  exact .mk headed link (.cons (by decide) (by decide) (by decide) (points _ (by decide)) next
    (.cons (by decide) (by decide) (by decide) (.array ⟨0x40, by decide, rfl⟩ array) last
      (.nil rfl)))

/-- Every slot that points to a struct shows it in full. -/
theorem render_sharingImage :
    StructAt sharingImage sharingImage.start sharingMembers ∧
      membersDepth sharingMembers ≤ maxNesting ∧
      membersCost sharingImage.names sharingMembers ≤ maxOutput ∧
      sharingImage.render "  " = (Value.struct sharingMembers).text sharingImage.names "  " := by
  have hdepth : membersDepth sharingMembers ≤ maxNesting := by decide
  have hcost : membersCost sharingImage.names sharingMembers ≤ maxOutput := by decide
  exact ⟨sharingMembers_held, hdepth, hcost,
    render_of_structAt sharingImage sharingMembers "  " sharingMembers_held hdepth hcost⟩

end ScriptRecord.Proofs.Struct.Rendering
