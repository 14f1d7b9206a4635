import ScriptRecord.Proofs.Bytecode.Margins
/-!
# Payloads with more behind them

An operand that is complete is read from its own bytes alone, so what stands behind a
payload does not change how it is listed: up to the end of the payload the listing comes to
the same state (`listTo`), and the lines that are complete there stay.  A struct is left
out, since its offsets lead to anywhere in the data.
-/

namespace ScriptRecord.Proofs.Bytecode.Continuation

open ScriptRecord.Bytecode
open ScriptRecord.Proofs.Bytecode.Extent
open ScriptRecord.Proofs.Bytecode.Margins
open ScriptRecord.Proofs.Bytecode.Outcome

/-! ## Values that can still be read -/

/-- A value that can be read in one way is also read in another. -/
def Keeps {α : Type} (x y : Option α) : Prop :=
  ∀ value, x = some value → y = some value

namespace Keeps

variable {α β : Type}

theorem map {x y : Option α} (h : Keeps x y) (f : α → β) : Keeps (x.map f) (y.map f) := by
  intro value hvalue
  obtain ⟨a, ha, rfl⟩ := Option.map_eq_some_iff.mp hvalue
  rw [h a ha, Option.map_some]

theorem bind {x y : Option α} {f g : α → Option β} (h : Keeps x y) (hf : ∀ a, Keeps (f a) (g a)) :
    Keeps (x.bind f) (y.bind g) := by
  intro value hvalue
  obtain ⟨a, ha, hb⟩ := Option.bind_eq_some_iff.mp hvalue
  rw [h a ha, Option.bind_some, hf a value hb]

theorem mapM {f g : α → Option β} (h : ∀ a, Keeps (f a) (g a)) (xs : List α) :
    Keeps (xs.mapM f) (xs.mapM g) := by
  induction xs with
  | nil => exact fun _ hvalue => hvalue
  | cons x xs ih =>
      rw [List.mapM_cons, List.mapM_cons]
      exact (h x).bind fun y => ih.bind fun ys _ hvalue => hvalue

theorem sized {x y : Option Operand} {size : Nat} {result : Operand × Nat} (h : Keeps x y)
    (hread : Operand.sized size x = .ok result) : Operand.sized size y = .ok result := by
  cases x with
  | none => cases hread
  | some operand => rw [h operand rfl, hread]

end Keeps

variable {data more : Bytes} {pos : Nat} {names : Names}

/-! ## Operands -/

theorem size_le_append : data.size ≤ (data ++ more).size := by
  rw [Array.size_append]
  exact Nat.le_add_right ..

theorem keeps_word32 {order : ByteOrder} :
    Keeps (data.word32? order pos) ((data ++ more).word32? order pos) := by
  intro word hword
  obtain ⟨hle, hvalue⟩ := Option.dite_none_right_eq_some.mp hword
  rw [Bytes.word32?, dif_pos (hle.trans size_le_append), ← hvalue]
  simp only [Array.getElem_append_left (show pos < data.size by omega),
    Array.getElem_append_left (show pos + 1 < data.size by omega),
    Array.getElem_append_left (show pos + 2 < data.size by omega),
    Array.getElem_append_left (show pos + 3 < data.size by omega)]

theorem keeps_word16 {order : ByteOrder} :
    Keeps (data.word16? order pos) ((data ++ more).word16? order pos) := by
  intro word hword
  obtain ⟨hle, hvalue⟩ := Option.dite_none_right_eq_some.mp hword
  rw [Bytes.word16?, dif_pos (hle.trans size_le_append), ← hvalue]
  simp only [Array.getElem_append_left (show pos < data.size by omega),
    Array.getElem_append_left (show pos + 1 < data.size by omega)]

theorem keeps_slice {length : Nat} :
    Keeps (data.slice? pos length) ((data ++ more).slice? pos length) := by
  intro bytes hbytes
  obtain ⟨hle, hvalue⟩ := Option.ite_none_right_eq_some.mp hbytes
  have hextract : (data ++ more).extract pos (pos + length) = data.extract pos (pos + length) := by
    rw [Array.extract_append, Nat.sub_eq_zero_of_le hle]
    simp
  rw [Bytes.slice?, if_pos (hle.trans size_le_append), hextract, hvalue]

theorem readText_append {make : List UInt8 → Operand} {result : Operand × Nat}
    (h : Operand.readText data pos make = .ok result) :
    Operand.readText (data ++ more) pos make = .ok result := by
  rw [Operand.readText] at h ⊢
  cases hword : data.word32? .little pos with
  | none =>
      rw [hword] at h
      cases h
  | some word =>
      rw [hword] at h
      rw [keeps_word32 word hword]
      exact (keeps_slice.map _).sized h

theorem readVector_append {count : Nat} {result : Operand × Nat}
    (h : Operand.readVector data pos count = .ok result) :
    Operand.readVector (data ++ more) pos count = .ok result :=
  ((Keeps.mapM (fun _ => keeps_word32) _).map _).sized h

/-- The count is compared with what is left of the data, which is more then. -/
theorem readChoices_append {result : Operand × Nat}
    (h : Operand.readChoices data pos = .ok result) :
    Operand.readChoices (data ++ more) pos = .ok result := by
  rw [Operand.readChoices] at h ⊢
  cases hword : data.word32? .little pos with
  | none =>
      rw [hword] at h
      cases h
  | some count =>
      rw [hword] at h
      dsimp only at h
      rw [keeps_word32 count hword]
      split at h
      · cases h
      · next hlong =>
          have hlong' : ¬ (data ++ more).size - (pos + 4) < count.toNat * 6 := by
            rw [Array.size_append]
            omega
          have htargets : Keeps (Operand.choiceTargets data (pos + 4) count.toNat)
              (Operand.choiceTargets (data ++ more) (pos + 4) count.toNat) :=
            Keeps.mapM (fun _ => keeps_word16.bind fun _ => keeps_word32.bind fun _ _ h => h) _
          dsimp only
          rw [if_neg hlong']
          exact (htargets.map _).sized h

theorem read_append {layout : Layout} (hplain : layout ≠ .struct) {result : Operand × Nat}
    (h : Operand.read data pos layout = .ok result) :
    Operand.read (data ++ more) pos layout = .ok result := by
  cases layout with
  | none => exact h
  | skip count => exact (keeps_slice.map _).sized h
  | key | integer | hex | float | jump => exact (keeps_word32.map _).sized h
  | vector2 | vector3 => exact readVector_append h
  | string | wideString => exact readText_append h
  | choices => exact readChoices_append h
  | struct => exact absurd rfl hplain

/-! ## Texts -/

/-- The only text that is taken from elsewhere in the data is that of a struct. -/
def Settled (operand : Operand) : Prop :=
  ∀ start, operand ≠ .struct start

theorem render_settled {operand : Operand} (h : Settled operand) (data other : Bytes)
    (column : Nat) : operand.render data names column = operand.render other names column := by
  cases operand with
  | struct start => exact absurd rfl (h start)
  | _ => rfl

theorem settled_sized {α : Type} {value : Option α} {make : α → Operand} {size taken : Nat}
    {operand : Operand} (hmake : ∀ a, Settled (make a))
    (h : Operand.sized size (value.map make) = .ok (operand, taken)) : Settled operand := by
  cases value with
  | none => cases h
  | some a =>
      cases h
      exact hmake a

theorem settled_readText {make : List UInt8 → Operand} {operand : Operand} {size : Nat}
    (hmake : ∀ bytes, Settled (make bytes))
    (h : Operand.readText data pos make = .ok (operand, size)) : Settled operand := by
  rw [Operand.readText] at h
  split at h
  · cases h
  · exact settled_sized (fun _ => hmake _) h

theorem settled_of_read {layout : Layout} (hplain : layout ≠ .struct) {operand : Operand}
    {size : Nat} (h : Operand.read data pos layout = .ok (operand, size)) : Settled operand := by
  cases layout with
  | none =>
      cases h
      exact fun start => Operand.noConfusion
  | skip | key | integer | hex | float | jump | vector2 | vector3 =>
      exact settled_sized (fun _ _ => Operand.noConfusion) h
  | string | wideString => exact settled_readText (fun _ _ => Operand.noConfusion) h
  | choices =>
      rw [Operand.read, Operand.readChoices] at h
      split at h
      · cases h
      · split at h
        · cases h
        · exact settled_sized (fun _ _ => Operand.noConfusion) h
  | struct => exact absurd rfl hplain

/-! ## Instructions -/

/-- An instruction that is no struct is a byte, or an opcode and its operand. -/
theorem plain_cases {byte : UInt8} {action : Action} {size : Nat}
    (hplain : word action ≠ some .struct)
    (h : Instruction.read data pos byte = .ok (action, size)) :
    (Opcode.ofByte? byte = none ∧ action = .unknown byte ∧ size = 0) ∨
      ∃ op operand, Opcode.ofByte? byte = some op ∧ op.layout ≠ .struct ∧
        Operand.read data (pos + 1) op.layout = .ok (operand, size) ∧
        action = .known op operand := by
  rw [Instruction.read] at h
  cases hop : Opcode.ofByte? byte with
  | none =>
      rw [hop] at h
      cases h
      exact .inl ⟨rfl, rfl, rfl⟩
  | some op =>
      rw [hop] at h
      dsimp only at h
      split at h
      · next operand taken hread =>
          cases h
          refine .inr ⟨op, operand, rfl, ?_, hread, rfl⟩
          intro hstruct
          rw [word, eq_struct_of_layout hstruct] at hplain
          exact hplain rfl
      · cases h
      · cases h

section Plain

variable {byte : UInt8} {action : Action} {size : Nat} (hplain : word action ≠ some .struct)
include hplain

theorem instruction_append (h : Instruction.read data pos byte = .ok (action, size)) :
    Instruction.read (data ++ more) pos byte = .ok (action, size) := by
  rcases plain_cases hplain h with
    ⟨hop, rfl, rfl⟩ | ⟨op, operand, hop, hlayout, hread, rfl⟩
  · rw [Instruction.read, hop]
  · rw [Instruction.read, hop]
    dsimp only
    rw [read_append hlayout hread]

theorem step_append (h : Instruction.read data pos byte = .ok (action, size)) (listing : Listing) :
    listing.step (data ++ more) names ⟨pos, action⟩ = listing.step data names ⟨pos, action⟩ := by
  rcases plain_cases hplain h with
    ⟨hop, rfl, rfl⟩ | ⟨op, operand, hop, hlayout, hread, rfl⟩
  · rfl
  · by_cases hbreak : op = .endOfLine
    · subst hbreak
      rfl
    · rw [Listing.step_of_ne hbreak, Listing.step_of_ne hbreak,
        render_settled (settled_of_read hlayout hread) (data ++ more) data]

/-- Only a struct can lead beyond the end of the data. -/
theorem next_le_size (hpos : pos < data.size)
    (h : Instruction.read data pos byte = .ok (action, size)) : pos + 1 + size ≤ data.size := by
  rcases plain_cases hplain h with
    ⟨hop, rfl, rfl⟩ | ⟨op, operand, hop, hlayout, hread, rfl⟩
  · exact hpos
  · by_cases hfits : pos + 1 + extent data (pos + 1) op.layout ≤ data.size
    · obtain ⟨operand', hread'⟩ := read_of_fits hlayout hfits
      rw [hread] at hread'
      cases hread'
      exact hfits
    · rw [@read_of_short data (pos + 1) _ hlayout (by omega) hpos] at hread
      cases hread

end Plain

/-! ## Runs -/

/-- The cursor and the listing once the cursor has come to `stop`, or to an instruction that
cannot be read. -/
def listTo (data : Bytes) (names : Names) (stop pos : Nat) (listing : Listing) : Nat × Listing :=
  if pos < stop then
    if h : pos < data.size then
      match Instruction.read data pos data[pos] with
      | .ok (action, size) =>
        listTo data names stop (pos + 1 + size) (listing.step data names ⟨pos, action⟩)
      | .error _ => (pos, listing)
    else (pos, listing)
  else (pos, listing)
termination_by data.size - pos

/-- What is listed from a place on, behind a listing of the instructions in front of it. -/
def listOn (data : Bytes) (names : Names) (pos : Nat) (listing : Listing) : Except Error Listing :=
  let program := Program.scanFrom data pos #[]
  (program.instructions.foldl (Listing.step data names) listing).finish program.ending

theorem scanFrom_eq (data : Bytes) (pos : Nat) (done : Array Instruction) :
    Program.scanFrom data pos done =
      ⟨done ++ (Program.scanFrom data pos #[]).instructions,
        (Program.scanFrom data pos #[]).ending⟩ := by
  induction hleft : data.size - pos using Nat.strongRecOn generalizing pos done with
  | ind left ih =>
      rw [Program.scanFrom.eq_def data pos done, Program.scanFrom.eq_def data pos #[]]
      split
      · next hpos =>
          split
          · next action size hread =>
              rw [ih _ (by omega) (pos + 1 + size) (done.push _) rfl,
                ih _ (by omega) (pos + 1 + size) (#[].push _) rfl]
              simp
          · simp
      · simp

section Step

variable {action : Action} {size : Nat} {listing : Listing} (hpos : pos < data.size)
  (hread : Instruction.read data pos data[pos] = .ok (action, size))
include hread

theorem scanFrom_step :
    Program.scanFrom data pos #[] =
      ⟨#[⟨pos, action⟩] ++ (Program.scanFrom data (pos + 1 + size) #[]).instructions,
        (Program.scanFrom data (pos + 1 + size) #[]).ending⟩ := by
  rw [Program.scanFrom, dif_pos hpos, hread]
  exact scanFrom_eq data (pos + 1 + size) #[⟨pos, action⟩]

theorem listOn_step :
    listOn data names pos listing =
      listOn data names (pos + 1 + size) (listing.step data names ⟨pos, action⟩) := by
  rw [listOn, scanFrom_step hpos hread]
  simp [listOn]

end Step

/-- A run that stops somewhere goes on from there. -/
theorem listOn_listTo (stop : Nat) (listing : Listing) :
    listOn data names pos listing =
      listOn data names (listTo data names stop pos listing).1
        (listTo data names stop pos listing).2 := by
  fun_induction listTo data names stop pos listing with
  | case1 pos listing hstop hpos action size hread ih => rw [listOn_step hpos hread, ih]
  | case2 | case3 | case4 => rfl

/-- A program without structs is listed to its end, whatever stands behind it. -/
theorem listTo_append (more : Bytes) (names : Names) (listing : Listing)
    (hplain : ∀ i ∈ (Program.scanFrom data pos #[]).instructions, word i.action ≠ some .struct)
    (hending : (Program.scanFrom data pos #[]).ending = .complete) (hle : pos ≤ data.size) :
    listTo (data ++ more) names data.size pos listing =
        listTo data names data.size pos listing ∧
      (listTo data names data.size pos listing).1 = data.size := by
  fun_induction listTo data names data.size pos listing with
  | case1 pos listing hstop hpos action size hread ih =>
      rw [scanFrom_step hpos hread] at hplain hending
      have hfirst : word action ≠ some .struct := hplain ⟨pos, action⟩ (by simp)
      obtain ⟨hrest, hcursor⟩ := ih (fun i hi => hplain i (by simp [hi])) hending
        (next_le_size hfirst hpos hread)
      rw [listTo, if_pos hstop, dif_pos (hpos.trans_le size_le_append),
        Array.getElem_append_left hpos, instruction_append hfirst hread]
      dsimp only
      rw [step_append hfirst hread]
      exact ⟨hrest, hcursor⟩
  | case2 pos listing hstop hpos ending hread =>
      -- A program is not complete where an instruction cannot be read.
      rw [Program.scanFrom, dif_pos hpos, hread] at hending
      obtain rfl : ending = .complete := hending
      rcases read_cases hpos with ⟨action, size, hok, -⟩ | ⟨ending, herror, hends⟩
      · rw [hread] at hok
        cases hok
      · rw [hread] at herror
        cases herror
        cases hends with
        | complete past => exact absurd hpos (Nat.not_lt_of_le past)
  | case3 pos listing hstop hpos => exact absurd hstop hpos
  | case4 pos listing hstop =>
      have hend : pos = data.size := by omega
      subst hend
      rw [listTo, if_neg (Nat.lt_irrefl _)]
      exact ⟨rfl, rfl⟩

/-! ## Lines -/

theorem lines_step (listing : Listing) (instruction : Instruction) :
    listing.lines.toList <+: (listing.step data names instruction).lines.toList := by
  obtain ⟨offset, action⟩ := instruction
  cases action with
  | unknown byte => exact List.prefix_refl _
  | known op operand =>
      by_cases hop : op = .endOfLine
      · subst hop
        exact ⟨[listing.line], by simp [Listing.step, Listing.breakLine, Listing.append]⟩
      · rw [Listing.step_of_ne hop]
        exact List.prefix_refl _

theorem lines_foldl (instructions : List Instruction) (listing : Listing) :
    listing.lines.toList <+:
      (instructions.foldl (Listing.step data names) listing).lines.toList := by
  induction instructions generalizing listing with
  | nil => exact List.prefix_refl _
  | cons instruction rest ih => exact (lines_step listing instruction).trans (ih _)

theorem lines_listOn {listing final : Listing} (h : listOn data names pos listing = .ok final) :
    listing.lines.toList <+: final.allLines := by
  rw [listOn, ← Array.foldl_toList] at h
  have hlines : listing.lines.toList <+: final.lines.toList := by
    cases hending : (Program.scanFrom data pos #[]).ending with
    | complete | truncated =>
        rw [hending] at h
        cases h
        exact lines_foldl _ listing
    | noStruct =>
        rw [hending] at h
        cases h
  exact hlines.trans (List.prefix_append _ _)

/-- What is listed up to the end of a payload is the same whatever stands behind it: the
complete lines, the open line and the depth.  So the complete lines stand at the front of
the whole listing. -/
theorem listTo_continued {data : Bytes}
    (hplain : ∀ i ∈ (Program.scan data).instructions, word i.action ≠ some .struct)
    (hending : (Program.scan data).ending = .complete) (names : Names) :
    ∃ listing, Listing.ofPayload data names = .ok listing ∧ ∀ more : Bytes,
      listTo (data ++ more) names data.size 0 .empty = (data.size, listing) ∧
        ∀ text, decompile (data ++ more) names = .ok text →
          ∃ whole, Listing.ofPayload (data ++ more) names = .ok whole ∧ text = whole.render ∧
            listing.lines.toList <+: whole.allLines := by
  let listing := (listTo data names data.size 0 .empty).2
  have hrun (more : Bytes) :
      listTo (data ++ more) names data.size 0 .empty = (data.size, listing) := by
    obtain ⟨hsame, hcursor⟩ := listTo_append more names .empty hplain hending (Nat.zero_le _)
    exact hsame.trans (Prod.ext hcursor rfl)
  have hon (more : Bytes) : Listing.ofPayload (data ++ more) names =
      listOn (data ++ more) names data.size listing := by
    have hstart : Listing.ofPayload (data ++ more) names =
        listOn (data ++ more) names 0 .empty := rfl
    rw [hstart, listOn_listTo data.size, hrun]
  refine ⟨listing, ?_, fun more => ⟨hrun more, ?_⟩⟩
  · have halone := hon #[]
    rw [Array.append_empty] at halone
    rw [halone, listOn, Program.scanFrom, dif_neg (Nat.lt_irrefl _)]
    rfl
  · intro text htext
    obtain ⟨whole, hwhole, hrender⟩ := decompile_eq_ok htext
    exact ⟨whole, hwhole, hrender, lines_listOn ((hon more).symm.trans hwhole)⟩

/-- The text holds bytes of opcodes, and the choice is compared with the rest of the data. -/
theorem listTo_continued_choice :
    let payload : Bytes := #[0x01, 0x23, 0x1B, 0x02, 0x00, 0x00, 0x00, 0x4A, 0x01, 0x01,
      0x2F, 0x01, 0x00, 0x00, 0x00, 0x07, 0x00, 0x04, 0x00, 0x00, 0x00]
    (Program.scan payload).instructions.toList.map (fun i => word i.action) =
        [some .endOfLine, some .script, some .string, some .endOfLine, some .random] ∧
      ∃ listing, Listing.ofPayload payload {} = .ok listing ∧
        ∀ more, listTo (payload ++ more) {} 21 0 .empty = (21, listing) := by
  intro payload
  have hwords : (Program.scan payload).instructions.toList.map (fun i => word i.action) =
      [some .endOfLine, some .script, some .string, some .endOfLine, some .random] := by cbv
  have hplain : ∀ i ∈ (Program.scan payload).instructions, word i.action ≠ some .struct := by
    intro i hi hstruct
    have hmem := List.mem_map_of_mem (f := fun i => word i.action) (Array.mem_toList_iff.mpr hi)
    rw [hwords, hstruct] at hmem
    exact absurd hmem (by decide)
  obtain ⟨listing, hlisting, hrun⟩ := listTo_continued hplain (by cbv) {}
  exact ⟨hwords, listing, hlisting, fun more => (hrun more).1⟩

end ScriptRecord.Proofs.Bytecode.Continuation
