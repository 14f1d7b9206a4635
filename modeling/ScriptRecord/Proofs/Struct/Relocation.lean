import ScriptRecord.Proofs.Struct.Course
/-!
# Images behind other data

Every offset in an image counts from its start, so an image is read in the same way
wherever it stands.  Only what does not lie within the data is written with its place, and
that text is charged for.  So as long as no such place is named (`Placeless`), the tree that is
read behind other data is the same up to its positions (`moved`), and has the same text.
-/

namespace ScriptRecord.Proofs.Struct.Relocation

open ScriptRecord.Struct
open ScriptRecord.Proofs.BytesAt
open ScriptRecord.Proofs.Struct.Course
open ScriptRecord.Proofs.Struct.Reading
open ScriptRecord.Proofs.Struct.Walking

/-- An image with other data in front of it. -/
def behind (front : Bytes) (img : Image) : Image :=
  ⟨front ++ img.data, front.size + img.start, img.names⟩

/-! ## Positions of a tree -/

def movedStop (distance : Nat) : Stop → Stop
  | .complete => .complete
  | .revisited offset => .revisited offset
  | .cutShort pos => .cutShort (distance + pos)

mutual

/-- A tree whose positions lie further on. -/
def moved (distance : Nat) : Node → Node
  | .missing type slot => .missing type (distance + slot)
  | .struct pos headed fields stop =>
    .struct (distance + pos) headed (movedFields distance fields) (movedStop distance stop)
  | .array pos items beyond => .array (distance + pos) (movedItems distance items) beyond
  | .cutArray pos => .cutArray (distance + pos)
  | .scalar text => .scalar text
  | .tooDeep => .tooDeep
  | .overBudget => .overBudget
  | .enclosing offset => .enclosing offset
  | .strangeArray => .strangeArray

def movedFields (distance : Nat) : List Field → List Field
  | [] => []
  | .known offset type key value :: rest =>
    .known offset type key (moved distance value) :: movedFields distance rest
  | .strange offset tag key word :: rest =>
    .strange offset tag key word :: movedFields distance rest

def movedItems (distance : Nat) : List Node → List Node
  | [] => []
  | item :: rest => moved distance item :: movedItems distance rest

end

mutual

/-- No slot, entry or header of an array is named for not lying within the data. -/
def Placeless : Node → Prop
  | .missing _ _ => False
  | .struct _ _ fields stop => FieldsPlaceless fields ∧ ∀ pos, stop ≠ .cutShort pos
  | .array _ items _ => ItemsPlaceless items
  | .cutArray _ => False
  | _ => True

def FieldsPlaceless : List Field → Prop
  | [] => True
  | .known _ _ _ value :: rest => Placeless value ∧ FieldsPlaceless rest
  | .strange _ _ _ _ :: rest => FieldsPlaceless rest

def ItemsPlaceless : List Node → Prop
  | [] => True
  | item :: rest => Placeless item ∧ ItemsPlaceless rest

end

theorem movedStop_of_ne {stop : Stop} (h : ∀ pos, stop ≠ .cutShort pos) (distance : Nat) :
    movedStop distance stop = stop := by
  cases stop with
  | complete | revisited => rfl
  | cutShort pos => exact absurd rfl (h pos)

mutual

theorem render_moved {node : Node} (h : Placeless node) (distance : Nat) (names : Names)
    (indent : String) : (moved distance node).render names indent = node.render names indent :=
  match node with
  | .scalar _ => rfl
  | .missing _ _ => h.elim
  | .tooDeep => rfl
  | .overBudget => rfl
  | .enclosing _ => rfl
  | .struct pos headed fields stop => by
      rw [moved, Node.render_struct, Node.render_struct, movedStop_of_ne h.2,
        renderFields_moved h.1]
  | .array pos items beyond => by
      rw [moved, Node.render_array, Node.render_array, renderItems_moved h]
  | .cutArray _ => h.elim
  | .strangeArray => rfl

theorem renderFields_moved {fields : List Field} (h : FieldsPlaceless fields) (distance : Nat)
    (names : Names) (indent out : String) :
    renderFields names indent out (movedFields distance fields) =
      renderFields names indent out fields :=
  match fields with
  | [] => rfl
  | .known offset type key value :: rest => by
      rw [movedFields, renderFields, renderFields, Field.render, Field.render, render_moved h.1,
        renderFields_moved h.2]
  | .strange offset tag key word :: rest => by
      rw [FieldsPlaceless] at h
      rw [movedFields, renderFields]
      exact renderFields_moved h distance names indent _

theorem renderItems_moved {items : List Node} (h : ItemsPlaceless items) (distance : Nat)
    (names : Names) (indent : String) :
    renderItems names indent (movedItems distance items) = renderItems names indent items :=
  match items with
  | [] => rfl
  | item :: rest => by
      rw [movedItems, renderItems, renderItems, render_moved h.1, renderItems_moved h.2]

end

variable {front : Bytes} {img : Image}

/-! ## Words and texts -/

theorem word_behind (pos : Nat) : (behind front img).word? (front.size + pos) = img.word? pos :=
  word32_behind

theorem resolve_behind (slot : Nat) :
    (behind front img).resolve? (front.size + slot) =
      (img.resolve? slot).map (front.size + ·) := by
  rw [Image.resolve?, Image.resolve?, word_behind, Option.map_map]
  congr 1
  funext offset
  exact Nat.add_assoc ..

theorem wideEnd_behind (data : Bytes) (pos : Nat) :
    wideEnd (front ++ data) (front.size + pos) = front.size + wideEnd data pos := by
  have hsize : (front ++ data).size = front.size + data.size := Array.size_append
  fun_induction wideEnd data pos with
  | case1 pos hle hzero =>
      rw [wideEnd, if_pos (by omega), if_pos]
      rwa [getD_behind, Nat.add_assoc, getD_behind]
  | case2 pos hle hnonzero ih =>
      rw [wideEnd, if_pos (by omega), if_neg, Nat.add_assoc, ih]
      rwa [getD_behind, Nat.add_assoc, getD_behind]
  | case3 pos hgt => rw [wideEnd, if_neg (by omega)]

theorem narrowText_behind (pos : Nat) :
    (behind front img).narrowText (front.size + pos) = img.narrowText pos := by
  rw [Image.narrowText, Image.narrowText, behind, seek_behind, extract_behind]

theorem wideText_behind (pos : Nat) :
    (behind front img).wideText (front.size + pos) = img.wideText pos := by
  rw [Image.wideText, Image.wideText, behind, wideEnd_behind, extract_behind]

theorem vectorText_behind (pos count : Nat) :
    (behind front img).vectorText? (front.size + pos) count = img.vectorText? pos count := by
  rw [Image.vectorText?, Image.vectorText?]
  simp only [Nat.add_assoc, word_behind]

theorem scalarText_behind (type : ValueType) (slot : Nat) :
    (behind front img).scalarText? type (front.size + slot) = img.scalarText? type slot := by
  have hnarrow : (behind front img).narrowText ∘ (front.size + ·) = img.narrowText :=
    funext narrowText_behind
  have hwide : (behind front img).wideText ∘ (front.size + ·) = img.wideText :=
    funext wideText_behind
  cases type
  case string =>
    rw [Image.scalarText?, resolve_behind, Option.map_map, hnarrow]
    rfl
  case wString =>
    rw [Image.scalarText?, resolve_behind, Option.map_map, hwide]
    rfl
  case vector2 | vector3 =>
    rw [Image.scalarText?, Image.scalarText?, resolve_behind, Option.bind_map]
    congr 1
    funext pos
    rw [Function.comp_apply, Nat.add_assoc, vectorText_behind]
  case struct | array => rfl
  case integer | float => rw [Image.scalarText?, Image.scalarText?, word_behind]
  case key | keyRef | strPtr | strQs =>
    rw [Image.scalarText?, Image.scalarText?, word_behind]
    rfl

theorem points_behind {slot pos : Nat} (h : img.resolve? slot = some pos) :
    (behind front img).resolve? (front.size + slot) = some (front.size + pos) := by
  rw [resolve_behind, h, Option.map_some]

theorem start_behind : (behind front img).start = front.size + img.start := rfl

theorem size_behind : (behind front img).data.size = front.size + img.data.size :=
  Array.size_append

theorem available_behind (list : Nat) :
    (behind front img).data.size - (front.size + list) = img.data.size - list := by
  rw [size_behind, Nat.add_sub_add_left]

/-! ## Entries -/

theorem walk_behind {seen : List Nat} {offset : Nat} {entries : List Entry} {stop : Stop}
    (h : Walk img seen offset entries stop) :
    Walk (behind front img) seen offset entries (movedStop front.size stop) := by
  induction h with
  | complete => exact .complete
  | revisited further again => exact .revisited further again
  | cutShort further fresh short =>
      rw [movedStop, ← Nat.add_assoc, ← start_behind]
      apply Walk.cutShort further fresh
      rw [size_behind, start_behind]
      omega
  | entry further fresh tagged named _ ih =>
      refine .entry further fresh ?_ ?_ ?_
      · rwa [start_behind, Nat.add_assoc, word_behind]
      · rwa [start_behind, Nat.add_assoc, Nat.add_assoc, word_behind, ← Nat.add_assoc]
      · rwa [start_behind, Nat.add_assoc, Nat.add_assoc, word_behind, ← Nat.add_assoc]

theorem entries_behind (pos : Nat) :
    (behind front img).entries (front.size + pos) =
      ((img.entries pos).1, movedStop front.size (img.entries pos).2) := by
  have hwalk := entries_walk (behind front img) (front.size + pos)
  rw [Nat.add_assoc, word_behind] at hwalk
  obtain ⟨hentries, hstop⟩ := hwalk.unique (walk_behind (entries_walk img pos))
  exact Prod.ext hentries hstop

/-! ## Readings -/

/-- Progress whose positions lie further on. -/
def movedProgress (distance : Nat) (p : Progress) : Progress :=
  { p with active := p.active.map (distance + ·) }

theorem mem_movedProgress {distance pos : Nat} {p : Progress} :
    distance + pos ∈ (movedProgress distance p).active ↔ pos ∈ p.active :=
  List.mem_map_of_injective fun _ _ => Nat.add_left_cancel

theorem run_guarded_again {follow : Reading Node} {pos : Nat} {p : Progress}
    (hagain : pos ∈ p.active) :
    ((behind front img).guarded (front.size + pos) follow).run (movedProgress front.size p) =
      (.enclosing (pos - img.start), movedProgress front.size p) := by
  rw [run_guarded_of_mem (mem_movedProgress.mpr hagain), start_behind, Nat.add_sub_add_left]

theorem run_guarded_behind {follow : Reading Node} {pos : Nat} {node : Node} {p q : Progress}
    (hfresh : pos ∉ p.active) (hactive : q.active = pos :: p.active)
    (h : follow.run (movedProgress front.size (following pos p)) =
      (node, movedProgress front.size q)) :
    ((behind front img).guarded (front.size + pos) follow).run (movedProgress front.size p) =
      (node, movedProgress front.size (back p q)) := by
  apply run_guarded_of_run (mt mem_movedProgress.mp hfresh) h
  exact congrArg (List.map (front.size + ·)) hactive

-- By induction on how the tree was read: the other reading takes the same turns, with
-- every position further on.
mutual

theorem run_value_behind {room slot : Nat} {p q : Progress} {type : ValueType} {node : Node}
    (h : Reads img room p type slot node q) (hplaceless : Placeless node) :
    ((behind front img).value room type (front.size + slot)).run (movedProgress front.size p) =
      (moved front.size node, movedProgress front.size q) :=
  match h with
  | .tooDeep => rfl
  | .overBudget empty => run_value_of_spent (Nat.not_lt.mpr (Nat.le_zero.mpr empty))
  | .scalar affords held => by
      refine run_value_scalar affords ?_ ?_ ((scalarText_behind ..).trans held)
      · rintro rfl
        contradiction
      · rintro rfl
        contradiction
  -- A slot further on has a longer text, which would leave less output for other values.
  | .missing _ _ _ => hplaceless.elim
  | .nowhere _ _ _ => hplaceless.elim
  | .enclosing affords followed points again => by
      rcases followed with rfl | rfl
      · rw [run_value_struct (p := movedProgress front.size p) affords (points_behind points)]
        exact run_guarded_again (p := spent p valueCost) again
      · rw [run_value_array (p := movedProgress front.size p) affords (points_behind points)]
        exact run_guarded_again (p := spent p valueCost) again
  | .struct affords points fresh held => by
      have hfields := run_fields_behind held hplaceless.1
      rw [run_value_struct (p := movedProgress front.size p) affords (points_behind points),
        word_behind]
      exact run_guarded_behind (p := spent p valueCost) fresh (active_of_readsFields held)
        (run_structAt (entries_behind _) hfields)
  | .array affords points fresh held => by
      have harray := run_array_behind held hplaceless
      rw [run_value_array (p := movedProgress front.size p) affords (points_behind points)]
      exact run_guarded_behind (p := spent p valueCost) fresh (active_of_readsArray held) harray

theorem run_fields_behind {room : Nat} {p q : Progress} {entries : List Entry}
    {fields : List Field} (h : ReadsFields img room p entries fields q)
    (hplaceless : FieldsPlaceless fields) :
    (entries.mapM ((behind front img).field ((behind front img).value room))).run
        (movedProgress front.size p) =
      (movedFields front.size fields, movedProgress front.size q) :=
  match h with
  | .nil => rfl
  | .known typed held others => by
      apply run_mapM_cons _ (run_fields_behind others hplaceless.2)
      apply run_field typed
      have hvalue := run_value_behind held hplaceless.1
      rwa [← Nat.add_assoc, ← Nat.add_assoc] at hvalue
  | .strange untyped others => by
      refine run_mapM_cons ?_ (run_fields_behind others hplaceless)
      rw [run_field_strange untyped, start_behind, Nat.add_assoc, Nat.add_assoc, word_behind,
        ← Nat.add_assoc]

theorem run_array_behind {room pos : Nat} {p q : Progress} {node : Node}
    (h : ReadsArray img room p pos node q) (hplaceless : Placeless node) :
    ((behind front img).arrayAt ((behind front img).value room) (front.size + pos)).run
        (movedProgress front.size p) =
      (moved front.size node, movedProgress front.size q) :=
  match h with
  | .cut _ => hplaceless.elim
  | .strange tagged untyped => by
      simp only [Image.arrayAt, word_behind, tagged, untyped]
      rfl
  | .empty typed counted => by
      rw [← word_behind] at typed counted
      exact run_arrayAt_empty typed counted
  | .single typed counted held => by
      rw [← word_behind] at typed counted
      exact run_arrayAt_single typed counted (run_value_behind held hplaceless.1)
  | .several typed counted many points held => by
      have hitems := run_items_behind held hplaceless
      rw [← word_behind] at typed counted
      rw [← available_behind] at hitems
      rw [moved, ← available_behind]
      apply run_arrayAt_several typed _ _ counted (points_behind points) hitems
      · rintro rfl
        contradiction
      · rintro rfl
        contradiction

theorem run_items_behind {room slot count : Nat} {p q : Progress} {type : ValueType}
    {items : List Node} (h : ReadsItems img room p type slot count items q)
    (hplaceless : ItemsPlaceless items) :
    ((List.range count).mapM fun i =>
        (behind front img).value room type (front.size + slot + 4 * i)).run
        (movedProgress front.size p) =
      (movedItems front.size items, movedProgress front.size q) :=
  match h with
  | .nil => rfl
  | .cons held others =>
      run_slots_succ (run_value_behind held hplaceless.1)
        (run_items_behind others hplaceless.2)

end

theorem tree_behind (h : Placeless (img.tree.run .initial).1) :
    ((behind front img).tree.run .initial).1 = moved front.size (img.tree.run .initial).1 := by
  obtain ⟨fields, q, htree, hreads⟩ := reads_tree img
  rw [htree] at h ⊢
  have hbehind : (behind front img).tree.run (movedProgress front.size .initial) =
      (moved front.size (.struct img.start true fields (img.entries img.start).2),
        movedProgress front.size (back .initial q)) :=
    run_guarded_behind List.not_mem_nil (active_of_readsFields hreads)
      (run_structAt (entries_behind img.start) (run_fields_behind hreads h.1))
  exact congrArg Prod.fst hbehind

/-! ## Texts that name a place -/

/-- A text says somewhere that something does not lie within the data. -/
def Marked (text : String) : Prop :=
  "\x7btruncated ".toList <:+: text.toList

theorem Marked.append_left {text : String} (h : Marked text) (front : String) :
    Marked (front ++ text) := by
  rw [Marked, String.toList_append]
  exact h.trans (List.suffix_append _ _).isInfix

theorem Marked.append_right {text : String} (h : Marked text) (back : String) :
    Marked (text ++ back) := by
  rw [Marked, String.toList_append]
  exact h.trans (List.prefix_append _ _).isInfix

theorem marked_mark : Marked "\x7btruncated " :=
  List.infix_rfl

theorem marked_missingText (type : ValueType) (slot : Nat) : Marked (missingText type slot) :=
  (((marked_mark.append_right _).append_right _).append_right _).append_right _

theorem Marked.intercalate {text separator : String} {texts : List String} (h : Marked text)
    (hmem : text ∈ texts) : Marked (String.intercalate separator texts) := by
  induction texts with
  | nil => exact absurd hmem List.not_mem_nil
  | cons first texts ih =>
      cases texts with
      | nil =>
          rw [String.intercalate_singleton, ← List.mem_singleton.mp hmem]
          exact h
      | cons second texts =>
          rw [String.intercalate_cons_cons]
          rcases List.mem_cons.mp hmem with rfl | hrest
          · exact (h.append_right _).append_right _
          · exact (ih hrest).append_left _

theorem Marked.renderFields {names : Names} {indent out : String} {fields : List Field}
    (h : Marked out) : Marked (renderFields names indent out fields) := by
  induction fields generalizing out with
  | nil => exact h
  | cons field fields ih => exact ih (h.append_right _)

theorem ne_cutShort_of_unmarked {stop : Stop} {indent : String}
    (h : ¬ Marked (stop.render indent)) (pos : Nat) : stop ≠ .cutShort pos := by
  rintro rfl
  have hmark := (marked_mark.append_right "entry at ").append_left indent
  exact h ((hmark.append_right _).append_right _)

mutual

theorem placeless_of_unmarked {names : Names} {indent : String} {node : Node}
    (h : ¬ Marked (node.render names indent)) : Placeless node :=
  match node with
  | .missing _ _ => h (marked_missingText ..)
  | .struct pos headed fields stop => by
      rw [Node.render_struct] at h
      have hlist := mt (Marked.append_right · _) (mt (Marked.append_right · _) h)
      exact ⟨fieldsPlaceless_of_unmarked (mt (Marked.append_right · _) hlist),
        ne_cutShort_of_unmarked (mt (Marked.append_left · _) hlist)⟩
  | .array _ items _ => by
      rw [Node.render_array] at h
      apply itemsPlaceless_of_unmarked
      intro text (htext : text ∈ renderItems names indent items) hmarked
      apply h
      exact ((hmarked.intercalate (List.mem_append_left _ htext)).append_left _).append_right _
  | .cutArray pos =>
      h ((((marked_mark.append_right "array at ").append_left "[").append_right _).append_right _)
  | .scalar _ => trivial
  | .tooDeep => trivial
  | .overBudget => trivial
  | .enclosing _ => trivial
  | .strangeArray => trivial

theorem fieldsPlaceless_of_unmarked {names : Names} {indent out : String} {fields : List Field}
    (h : ¬ Marked (renderFields names indent out fields)) : FieldsPlaceless fields :=
  match fields with
  | [] => trivial
  | .known offset type key value :: rest => by
      rw [renderFields, Field.render] at h
      have hline := mt (Marked.append_left · out) (mt Marked.renderFields h)
      have hvalue := mt (Marked.append_left · _) (mt (Marked.append_right · _) hline)
      exact ⟨placeless_of_unmarked hvalue, fieldsPlaceless_of_unmarked h⟩
  | .strange offset tag key word :: rest => by
      rw [renderFields] at h
      rw [FieldsPlaceless]
      exact fieldsPlaceless_of_unmarked h

theorem itemsPlaceless_of_unmarked {names : Names} {indent : String} {items : List Node}
    (h : ∀ text ∈ renderItems names indent items, ¬ Marked text) : ItemsPlaceless items :=
  match items with
  | [] => trivial
  | _ :: _ =>
      ⟨placeless_of_unmarked (h _ List.mem_cons_self),
        itemsPlaceless_of_unmarked fun text htext => h text (List.mem_cons_of_mem _ htext)⟩

end

/-! ## Images -/

/-- An image can stand behind any other data: as long as nothing that does not lie within the
data is named with its place, the text stays the same.  So it does if the text says of
nothing that it is truncated. -/
theorem render_behind (front : Bytes) (img : Image) (indent : String) :
    (Placeless (img.tree.run .initial).1 →
      (behind front img).render indent = img.render indent) ∧
    (¬ Marked (img.render indent) → Placeless (img.tree.run .initial).1) := by
  refine ⟨fun h => ?_, placeless_of_unmarked⟩
  calc
    (behind front img).render indent
      = (moved front.size (img.tree.run .initial).1).render img.names indent :=
        congrArg (Node.render img.names indent) (tree_behind h)
    _ = img.render indent := render_moved h front.size img.names indent

/-- A struct that holds itself, in an entry that links to itself. -/
def loopImage : Image where
  data := ([0x00000100, 0x08, 0x008A0000, 1, 0, 0x08].flatMap ByteOrder.big.bytes32).toArray
  start := 0
  names := {}

theorem entries_loopImage :
    loopImage.entries 0 = ([⟨8, 0x008A0000, ⟨1⟩⟩], .revisited 8) := by
  have hfirst : loopImage.word? 4 = some 8 := by decide
  have htag : loopImage.word? 8 = some 0x008A0000 := by decide
  have hkey : loopImage.word? 12 = some 1 := by decide
  have hnext : loopImage.word? 20 = some 8 := by decide
  have hstart : loopImage.start = 0 := rfl
  simp [Image.entries, Image.entriesFrom, hfirst, htag, hkey, hnext, hstart]

theorem tree_loopImage : (loopImage.tree.run .initial).1 =
    .struct 0 true [.known 8 .struct ⟨1⟩ (.enclosing 0)] (.revisited 8) := by
  have hpoints : loopImage.resolve? 16 = some 0 := by decide
  have hvalue : (loopImage.value (31 + 1) .struct 16).run (following 0 .initial) =
      (.enclosing 0, spent (following 0 .initial) valueCost) := by
    rw [run_value_struct (by decide) hpoints]
    exact run_guarded_of_mem List.mem_cons_self
  have hfields : ([⟨8, 0x008A0000, ⟨1⟩⟩].mapM (loopImage.field (loopImage.value maxNesting))).run
      (following 0 .initial) =
        ([.known 8 .struct ⟨1⟩ (.enclosing 0)], spent (following 0 .initial) valueCost) :=
    run_mapM_cons (run_field (by decide) hvalue) rfl
  have htree : loopImage.tree.run .initial = _ :=
    run_guarded_of_run List.not_mem_nil (run_structAt entries_loopImage hfields) rfl
  exact congrArg Prod.fst htree

theorem loopText_of_lt {offset : Nat} (h : offset < 16) :
    loopText offset = "\x7bloop at offset " ++
      String.ofList ([Hex.upperDigit offset].leftpad 4 '0') ++ "\x7d" := by
  rw [← Hex.upper_of_lt h]
  rfl

theorem render_loopImage : loopImage.render "" =
    "(QbStruct) \x7b\n" ++
    "    struct $00000001 = \x7bloop at offset 0000\x7d;\n" ++
    "    \x7bloop at offset 0008\x7d\n" ++
    "\x7d" := by
  have hunknown : loopImage.names.lookup? ⟨1⟩ = none := by
    simp [Names.lookup?, loopImage, NameTable.get?, NameTable.empty]
  have hname : loopImage.names.resolve ⟨1⟩ = "$00000001" := by
    rw [Names.resolve, hunknown, Option.getD_none, Key.toHex, Hex.upper_of_lt (by decide)]
    rfl
  have hcloses : loopText 0 = _ := loopText_of_lt (by decide)
  have hreturns : loopText 8 = _ := loopText_of_lt (by decide)
  rw [Image.render, tree_loopImage, Node.render_struct]
  change headerWarning true ++ "(QbStruct) \x7b\n" ++ ("" ++ indentUnit ++ "struct" ++ " " ++
    loopImage.names.resolve ⟨1⟩ ++ " = " ++ loopText 0 ++ ";\n") ++
    ("" ++ indentUnit ++ loopText 8 ++ "\n") ++ "" ++ "\x7d" = _
  simp only [hname, hcloses, hreturns]
  rfl

/-- Both ways back are written as before. -/
theorem render_behind_loopImage :
    ¬ Marked (loopImage.render "") ∧ Placeless (loopImage.tree.run .initial).1 ∧
      (behind #[0xAB, 0xAB, 0xAB] loopImage).render "" = loopImage.render "" := by
  have hunmarked : ¬ Marked (loopImage.render "") := by
    rw [render_loopImage]
    -- The mark has a letter that the text does not have.
    intro h
    have hletter : 'n' ∈ "\x7btruncated ".toList := by decide
    exact absurd (h.subset hletter) (by decide)
  have hplaceless := (render_behind #[0xAB, 0xAB, 0xAB] loopImage "").2 hunmarked
  exact ⟨hunmarked, hplaceless, (render_behind #[0xAB, 0xAB, 0xAB] loopImage "").1 hplaceless⟩

end ScriptRecord.Proofs.Struct.Relocation
