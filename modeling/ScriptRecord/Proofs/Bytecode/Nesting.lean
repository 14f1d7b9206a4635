import ScriptRecord.Proofs.Bytecode.Margins
/-!
# Nested blocks

Programs whose blocks lie inside each other, each keyword of a block being the first word of
its line (`Code`).  In the listing of such a program the indentation of every line follows
from the blocks around it (`Code.indents`): the lines that close or split a block stand
where the block was opened, those of a switch one level further right.  Every block has four
words of its own and a line that is indented by all blocks around it, so blocks that are
nested too deep for the word of the depth take a payload of four gibibytes and margins that
no machine has room for (`Outgrows`).
-/

namespace ScriptRecord.Proofs.Bytecode.Nesting

open ScriptRecord.Bytecode
open ScriptRecord.Proofs.Bytecode.Margins
open ScriptRecord.Proofs.Bytecode.Outcome

inductive Kind where
  | script
  | loop
  | conditional
  | switch
  deriving DecidableEq, Repr

namespace Kind

def opener : Kind → Opcode
  | .script => .script
  | .loop => .beginLoop
  | .conditional => .shortIf
  | .switch => .switch

def closer : Kind → Opcode
  | .script => .endScript
  | .loop => .repeatLoop
  | .conditional => .endIf
  | .switch => .endSwitch

def splitters : Kind → List Opcode
  | .script | .loop => []
  | .conditional => [.elseIf, .shortElse]
  | .switch => [.caseLabel, .defaultLabel]

/-- The levels that the lines inside a block are indented further than its first line. -/
def width : Kind → Nat
  | .script | .loop | .conditional => 1
  | .switch => 2

/-- The levels that the lines which close or split a block are indented further than its
first line. -/
def column : Kind → Nat
  | .script | .loop | .conditional => 0
  | .switch => 1

end Kind

/-- A word that neither ends a line nor changes the depth or the indentation. -/
def IsPlain (word : Option Opcode) : Prop :=
  isBreak word = false ∧ shift word = 0 ∧ outdents word = false

instance (word : Option Opcode) : Decidable (IsPlain word) :=
  inferInstanceAs (Decidable (_ ∧ _ ∧ _))

abbrev Plain := { word : Option Opcode // IsPlain word }

/-- Lines inside some blocks, innermost first.  What follows the keyword of a line, or the
line opcode if the line has none, is plain. -/
inductive Code : List Kind → Type
  | nil {outer : List Kind} : Code outer
  | line {outer : List Kind} (tail : List Plain) (rest : Code outer) : Code outer
  | split {kind : Kind} {outer : List Kind} (op : Opcode) (splits : op ∈ kind.splitters)
      (tail : List Plain) (rest : Code (kind :: outer)) : Code (kind :: outer)
  | block {outer : List Kind} (kind : Kind) (head : List Plain) (body : Code (kind :: outer))
      (tail : List Plain) (rest : Code outer) : Code outer

/-- A block from its first keyword to its last. -/
def enclose (kind : Kind) (inside : List (Option Opcode)) : List (Option Opcode) :=
  some kind.opener :: inside ++ [some .endOfLine, some kind.closer]

/-- The levels that the blocks around a line indent it by. -/
def level (outer : List Kind) : Nat :=
  (outer.map Kind.width).sum

namespace Code

/-- The words of some lines, each behind a line opcode. -/
def words : {outer : List Kind} → Code outer → List (Option Opcode)
  | _, .nil => []
  | _, .line tail rest => some .endOfLine :: (tail.unattach ++ rest.words)
  | _, .split op _ tail rest => some .endOfLine :: some op :: (tail.unattach ++ rest.words)
  | _, .block kind head body tail rest =>
    some .endOfLine ::
      (enclose kind (head.unattach ++ body.words) ++ (tail.unattach ++ rest.words))

/-- The indentations of the lines. -/
def indents : {outer : List Kind} → Code outer → List Nat
  | _, .nil => []
  | outer, .line _ rest => level outer :: rest.indents
  | kind :: outer, .split _ _ _ rest => (level outer + kind.column) :: rest.indents
  | outer, .block kind _ body _ rest =>
    level outer :: (body.indents ++ (level outer + kind.column) :: rest.indents)

end Code

/-- The number of levels from which on they do not fit the word. -/
def limit : Nat := 2147483648

/-- The number of levels whose spaces take an exbibyte. -/
def room : Nat := 2 ^ 58

/-- The instructions of a payload are the words of some lines, and all of them are complete.
The start of the payload stands for the line opcode of the first line. -/
def Spells (data : Bytes) (code : Code []) : Prop :=
  some .endOfLine :: (Program.scan data).instructions.toList.map (fun i => word i.action) =
      code.words ∧
    (Program.scan data).ending = .complete

/-! ## Keywords -/

theorem opener_facts (kind : Kind) :
    kind.opener ≠ .endOfLine ∧ kind.opener.depthChange = kind.width ∧
      kind.opener.outdents = false := by
  cases kind <;> decide

theorem closer_facts (kind : Kind) :
    kind.closer ≠ .endOfLine ∧ kind.closer.depthChange = -kind.width ∧
      kind.closer.outdents = true := by
  cases kind <;> decide

theorem splitter_facts (kind : Kind) :
    ∀ op ∈ kind.splitters, op ≠ .endOfLine ∧ op.depthChange = 0 ∧ op.outdents = true := by
  cases kind <;> decide

/-- A keyword that closes or splits a block stands one level left of the lines inside. -/
theorem column_add_one (kind : Kind) : kind.column + 1 = kind.width := by
  cases kind <;> rfl

theorem level_cons (kind : Kind) (outer : List Kind) :
    level (kind :: outer) = kind.width + level outer := by
  rw [level, List.map_cons, List.sum_cons]
  rfl

/-! ## Lines -/

theorem run_plain (indents : Indents) (tail : List Plain) :
    indents.run tail.unattach = indents := by
  induction tail with
  | nil => rfl
  | cons plain tail ih =>
      obtain ⟨word, hbreak, hshift, hout⟩ := plain
      have hstep : indents.step word = indents := by
        simp [Indents.step, hbreak, hshift, hout]
      rw [List.unattach_cons, Indents.run_cons, hstep, ih]

theorem step_keyword {op : Opcode} (h : op ≠ .endOfLine) (indents : Indents) :
    (indents.step (some .endOfLine)).step (some op) =
      ⟨indents.all, if op.outdents then levels indents.depth - 1 else levels indents.depth,
        indents.depth + .ofInt op.depthChange⟩ := by
  have hbreak : isBreak (some op) = false := by simpa [isBreak] using h
  rw [Indents.step, hbreak]
  rfl

/-- The depth of lines inside some blocks. -/
def depthIn (outer : List Kind) : Int32 :=
  .ofInt (level outer)

theorem depthIn_cons (kind : Kind) (outer : List Kind) :
    depthIn (kind :: outer) = depthIn outer + .ofInt kind.width := by
  rw [depthIn, level_cons, Nat.add_comm, Nat.cast_add, Int32.ofInt_add]
  rfl

theorem levels_depthIn {outer : List Kind} (h : level outer < limit) :
    levels (depthIn outer) = level outer :=
  levels_of_fits (by omega) (by rw [limit] at h; omega)

section Lines

variable {indents : Indents} {kind : Kind} {outer : List Kind}

theorem step_break (hlevel : level outer < limit) (h : indents.depth = depthIn outer) :
    indents.step (some .endOfLine) = ⟨indents.all, level outer, depthIn outer⟩ := by
  rw [← levels_depthIn hlevel, ← h]
  rfl

theorem step_opener (hlevel : level outer < limit) (h : indents.depth = depthIn outer) :
    (indents.step (some .endOfLine)).step (some kind.opener) =
      ⟨indents.all, level outer, depthIn (kind :: outer)⟩ := by
  obtain ⟨hword, hchange, hout⟩ := opener_facts kind
  rw [step_keyword hword, hchange, hout, h, levels_depthIn hlevel, ← depthIn_cons]
  rfl

/-- The line of a keyword that closes or splits a block. -/
theorem column_eq (hlevel : level (kind :: outer) < limit) :
    levels (depthIn (kind :: outer)) - 1 = level outer + kind.column := by
  have hcolumn := column_add_one kind
  rw [levels_depthIn hlevel, level_cons]
  omega

theorem step_splitter {op : Opcode} (hop : op ∈ kind.splitters)
    (hlevel : level (kind :: outer) < limit) (h : indents.depth = depthIn (kind :: outer)) :
    (indents.step (some .endOfLine)).step (some op) =
      ⟨indents.all, level outer + kind.column, depthIn (kind :: outer)⟩ := by
  obtain ⟨hword, hchange, hout⟩ := splitter_facts kind op hop
  rw [step_keyword hword, hchange, hout, h, if_pos rfl, column_eq hlevel, ofInt_zero,
    Int32.add_zero]

theorem step_closer (h : indents.depth = depthIn (kind :: outer)) :
    (indents.step (some .endOfLine)).step (some kind.closer) =
      ⟨indents.all, levels (depthIn (kind :: outer)) - 1, depthIn outer⟩ := by
  obtain ⟨hword, hchange, hout⟩ := closer_facts kind
  have hends : Int32.ofInt kind.width + .ofInt (-kind.width) = 0 := by
    rw [← Int32.ofInt_add, Int.add_right_neg, ofInt_zero]
  have hdepth : depthIn (kind :: outer) + .ofInt (-kind.width) = depthIn outer := by
    rw [depthIn_cons, Int32.add_assoc, hends, Int32.add_zero]
  rw [step_keyword hword, hchange, hout, h, hdepth]
  rfl

end Lines

/-! ## Depth -/

theorem depth_step (indents : Indents) (word : Option Opcode) :
    (indents.step word).depth = indents.depth + .ofInt (shift word) := by
  rw [Indents.step]
  split
  · next hbreak =>
      have hword : word = some .endOfLine := by simpa [isBreak] using hbreak
      subst hword
      exact (Int32.add_zero _).symm
  · rfl

/-- Whatever the depth is before a block, it is the same behind it. -/
theorem depth_enclose {inside : List (Option Opcode)} (kind : Kind)
    (hinside : ∀ indents : Indents, (indents.run inside).depth = indents.depth)
    (indents : Indents) : (indents.run (enclose kind inside)).depth = indents.depth := by
  have hends : shift (some kind.opener) + shift (some kind.closer) = 0 := by
    cases kind <;> rfl
  have hbreak : shift (some .endOfLine) = 0 := rfl
  rw [enclose, List.cons_append, Indents.run_cons, Indents.run_append, Indents.run_cons,
    Indents.run_cons]
  change (Indents.step (Indents.step _ _) _).depth = _
  rw [depth_step, depth_step, hinside, depth_step, hbreak, ofInt_zero, Int32.add_zero,
    Int32.add_assoc, ← Int32.ofInt_add, hends, ofInt_zero, Int32.add_zero]

theorem depth_words {outer : List Kind} (code : Code outer) (indents : Indents) :
    (indents.run code.words).depth = indents.depth := by
  have hbreak : shift (some .endOfLine) = 0 := rfl
  induction code generalizing indents with
  | nil => rfl
  | line tail rest ih =>
      rw [Code.words, Indents.run_cons, Indents.run_append, run_plain, ih, depth_step, hbreak,
        ofInt_zero, Int32.add_zero]
  | @split kind outer op splits tail rest ih =>
      have hchange : shift (some op) = 0 := (splitter_facts kind op splits).2.1
      rw [Code.words, Indents.run_cons, Indents.run_cons, Indents.run_append, run_plain, ih,
        depth_step, depth_step, hbreak, hchange, ofInt_zero, Int32.add_zero, Int32.add_zero]
  | @block outer kind head body tail rest ihbody ihrest =>
      have hinside (indents : Indents) :
          (indents.run (head.unattach ++ body.words)).depth = indents.depth := by
        rw [Indents.run_append, run_plain, ihbody]
      rw [Code.words, Indents.run_cons, Indents.run_append, Indents.run_append, run_plain, ihrest,
        depth_enclose kind hinside, depth_step, hbreak, ofInt_zero, Int32.add_zero]

/-! ## Room for the margins -/

/-- The levels that the first lines of some blocks, innermost first, are indented by. -/
def climb : List Kind → Nat
  | [] => 0
  | _ :: outer => level outer + climb outer

/-- Levels come two at a time at most, so the first lines of blocks make a slope. -/
theorem level_mul_self_le (outer : List Kind) :
    level outer * level outer ≤ 4 * climb outer + 2 * level outer := by
  induction outer with
  | nil => exact Nat.le_refl _
  | cons kind outer ih =>
      rw [level_cons, climb]
      cases kind <;> simp only [Kind.width, Nat.add_mul, Nat.mul_add] <;> omega

/-- Blocks that do not fit the word have first lines that nothing has room for. -/
theorem room_le_climb {outer : List Kind} (h : limit ≤ level outer) : room ≤ climb outer := by
  have hslope := level_mul_self_le outer
  have hlevel : limit * level outer ≤ level outer * level outer := Nat.mul_le_mul_right _ h
  rw [limit] at h hlevel
  rw [room]
  omega

/-! ## Indentation -/

/-- Each line opcode completes a line, and the lines that are complete stay as they are. -/
theorem run_above (above : List Nat) (indents : Indents) (words : List (Option Opcode)) :
    (Indents.run ⟨above ++ indents.above, indents.current, indents.depth⟩ words).all =
      above ++ (indents.run words).all := by
  induction words generalizing indents with
  | nil => exact List.append_assoc ..
  | cons word rest ih =>
      rw [Indents.run_cons, Indents.run_cons, ← ih]
      cases hbreak : isBreak word <;> simp [Indents.step, hbreak, Indents.all]

/-- Code leaves the lines in front of it as they are. -/
theorem exists_all_words {outer : List Kind} (code : Code outer) (indents : Indents) :
    ∃ made, (indents.run code.words).all = indents.all ++ made := by
  have hbreak (rest : List (Option Opcode)) :
      ∃ made, (indents.run (some .endOfLine :: rest)).all = indents.all ++ made := by
    have hrun := run_above indents.all ⟨[], levels indents.depth, indents.depth⟩ rest
    rw [List.append_nil] at hrun
    exact ⟨_, hrun⟩
  cases code with
  | nil => exact ⟨[], (List.append_nil _).symm⟩
  | line | split | block => exact hbreak _

/-- Lines inside some blocks that outgrow the word.  The code of the blocks is long, and nothing
has room for its lines and for the first lines of the blocks around it. -/
structure Outgrows {outer : List Kind} (code : Code outer) (made : List Nat) : Prop where
  long : 2 * limit ≤ 2 * level outer + code.words.length
  wide : room ≤ climb outer + made.sum

namespace Outgrows

variable {outer : List Kind} {kind : Kind} {tail : List Plain} {made : List Nat}

/-- Blocks that do not fit the word are enough. -/
theorem of_deep (code : Code outer) (made : List Nat) (h : limit ≤ level outer) :
    Outgrows code made where
  long := by omega
  wide := Nat.le_add_right_of_le (room_le_climb h)

theorem line {rest : Code outer} (h : Outgrows rest made) (indent : Nat) :
    Outgrows (.line tail rest) (indent :: made) where
  long := by
    have hlong := h.long
    rw [Code.words, List.length_cons, List.length_append]
    omega
  wide := by
    have hwide := h.wide
    rw [List.sum_cons]
    omega

theorem split {rest : Code (kind :: outer)} {op : Opcode} {splits : op ∈ kind.splitters}
    (h : Outgrows rest made) (indent : Nat) :
    Outgrows (.split op splits tail rest) (indent :: made) where
  long := by
    have hlong := h.long
    rw [Code.words, List.length_cons, List.length_cons, List.length_append]
    omega
  wide := by
    have hwide := h.wide
    rw [List.sum_cons]
    omega

variable {head : List Plain} {body : Code (kind :: outer)} {rest : Code outer}

/-- A block has four words of its own and two levels at most. -/
theorem inside (h : Outgrows body made) (column : Nat) (behind : List Nat) :
    Outgrows (.block kind head body tail rest) (level outer :: (made ++ column :: behind)) where
  long := by
    have hlong := h.long
    have hwidth : kind.width ≤ 2 := by cases kind <;> decide
    rw [level_cons] at hlong
    simp only [Code.words, enclose, List.length_cons, List.length_append, List.length_nil]
    omega
  wide := by
    have hwide := h.wide
    rw [climb] at hwide
    rw [List.sum_cons, List.sum_append]
    omega

theorem behind (h : Outgrows rest made) (column : Nat) (inside : List Nat) :
    Outgrows (.block kind head body tail rest) (level outer :: (inside ++ column :: made)) where
  long := by
    have hlong := h.long
    simp only [Code.words, List.length_cons, List.length_append]
    omega
  wide := by
    have hwide := h.wide
    rw [List.sum_cons, List.sum_append, List.sum_cons]
    omega

end Outgrows

/-- Lines inside some blocks are indented as the blocks say, or they outgrow the word. -/
theorem all_words {outer : List Kind} (code : Code outer) (indents : Indents)
    (h : indents.depth = depthIn outer) :
    ∃ made, (indents.run code.words).all = indents.all ++ made ∧
      (made = code.indents ∨ Outgrows code made) := by
  by_cases hlevel : level outer < limit
  case neg =>
    obtain ⟨made, hmade⟩ := exists_all_words code indents
    exact ⟨made, hmade, .inr (.of_deep code made (Nat.le_of_not_lt hlevel))⟩
  induction code generalizing indents with
  | nil => exact ⟨[], (List.append_nil _).symm, .inl rfl⟩
  | @line outer tail rest ih =>
      obtain ⟨made, hmade, hlines⟩ := ih ⟨indents.all, level outer, depthIn outer⟩ rfl hlevel
      refine ⟨level outer :: made, ?_, ?_⟩
      · rw [Code.words, Indents.run_cons, step_break hlevel h, Indents.run_append, run_plain,
          hmade, Indents.all, List.append_assoc, List.singleton_append]
      · rcases hlines with rfl | hdeep
        · exact .inl rfl
        · exact .inr (hdeep.line _)
  | @split kind outer op splits tail rest ih =>
      obtain ⟨made, hmade, hlines⟩ :=
        ih ⟨indents.all, level outer + kind.column, depthIn (kind :: outer)⟩ rfl hlevel
      refine ⟨(level outer + kind.column) :: made, ?_, ?_⟩
      · rw [Code.words, Indents.run_cons, Indents.run_cons, step_splitter splits hlevel h,
          Indents.run_append, run_plain, hmade, Indents.all, List.append_assoc,
          List.singleton_append]
      · rcases hlines with rfl | hdeep
        · exact .inl rfl
        · exact .inr (hdeep.split _)
  | @block outer kind head body tail rest ihbody ihrest =>
      let opened : Indents := ⟨indents.all, level outer, depthIn (kind :: outer)⟩
      let inner : Indents := opened.run body.words
      let column : Nat := levels (depthIn (kind :: outer)) - 1
      -- The keyword that closes the block finds the depth as the first line left it.
      have hclosed : indents.run (some .endOfLine :: enclose kind (head.unattach ++ body.words)) =
          ⟨inner.all, column, depthIn outer⟩ := by
        rw [Indents.run_cons, enclose, List.cons_append, Indents.run_cons, step_opener hlevel h,
          Indents.run_append, Indents.run_append, run_plain]
        exact step_closer (depth_words body opened)
      obtain ⟨behind, hbehind, hrest⟩ := ihrest ⟨inner.all, column, depthIn outer⟩ rfl hlevel
      have hall {inside : List Nat} (hinside : inner.all = opened.all ++ inside) :
          (indents.run (Code.block kind head body tail rest).words).all =
            indents.all ++ level outer :: (inside ++ column :: behind) := by
        rw [Code.words, ← List.cons_append, Indents.run_append, hclosed, Indents.run_append,
          run_plain, hbehind, Indents.all, hinside, Indents.all]
        simp [opened]
      by_cases hinner : level (kind :: outer) < limit
      · obtain ⟨inside, hinside, hbody⟩ := ihbody opened rfl hinner
        refine ⟨_, hall hinside, ?_⟩
        rcases hbody with rfl | hdeep
        · rcases hrest with rfl | hdeep
          · exact .inl (by rw [Code.indents, ← column_eq hinner])
          · exact .inr (hdeep.behind _ _)
        · exact .inr (hdeep.inside _ _)
      · obtain ⟨inside, hinside⟩ := exists_all_words body opened
        have hdeep := Outgrows.of_deep body inside (Nat.le_of_not_lt hinner)
        exact ⟨_, hall hinside, .inr (hdeep.inside _ _)⟩

/-! ## Listings -/

theorem all_of_spells {words : List (Option Opcode)} {code : Code []}
    (h : some .endOfLine :: words = code.words)
    (hroom : words.length < 4294967295 ∨
      ((Indents.ofListing Listing.empty).run words).all.sum < room) :
    ((Indents.ofListing Listing.empty).run words).all = code.indents := by
  obtain ⟨made, hmade, hlines⟩ := all_words code (Indents.ofListing Listing.empty) rfl
  have hfirst : (Indents.ofListing Listing.empty).step (some .endOfLine) =
      ⟨[0] ++ (Indents.ofListing Listing.empty).above, (Indents.ofListing Listing.empty).current,
        (Indents.ofListing Listing.empty).depth⟩ := rfl
  rw [← h, Indents.run_cons, hfirst, run_above] at hmade
  rw [List.append_cancel_left hmade] at hroom ⊢
  refine hlines.resolve_right ?_
  rintro ⟨hlong, hwide⟩
  have hnone : climb [] = 0 := rfl
  have houtside : level [] = 0 := rfl
  rw [← h, List.length_cons, limit] at hlong
  omega

theorem length_instructions_le (data : Bytes) :
    (Program.scan data).instructions.toList.length ≤ data.size := by
  have hplaces := length_places_le data
  rw [places, List.length_append, List.length_map] at hplaces
  omega

theorem ofPayload_of_complete {data : Bytes} (h : (Program.scan data).ending = .complete)
    (names : Names) : Listing.ofPayload data names = .ok (listed data names) := by
  change (listed data names).finish (Program.scan data).ending = _
  rw [h]
  rfl

/-- In a listing of nested blocks the blocks around a line say how far it is indented, unless
the payload comes to four gibibytes and the margins take an exbibyte.  Behind each block the depth
is what it was in front of it. -/
theorem ofPayload_nested {data : Bytes} {code : Code []} (h : Spells data code) (names : Names) :
    ∃ listing, Listing.ofPayload data names = .ok listing ∧
      (data.size < 4294967295 ∨ (listing.allLines.map Line.indent).sum < room →
        listing.allLines.map Line.indent = code.indents ∧
        listing.allLines.map Line.lead =
          "" :: List.zipWith margin (breaks data (places data)) code.indents.tail) ∧
      ∀ {outer : List Kind} (kind : Kind) (head : List Plain) (body : Code (kind :: outer))
        (block : List Instruction) (before : Listing),
        block.map (fun i => word i.action) = enclose kind (head.unattach ++ body.words) →
          (block.foldl (Listing.step data names) before).depth = before.depth := by
  obtain ⟨hwords, hending⟩ := h
  have hlisting := ofPayload_of_complete hending names
  refine ⟨listed data names, hlisting, ?_, ?_⟩
  · intro hroom
    have hlength := length_instructions_le data
    have hindents : (listed data names).allLines.map Line.indent = code.indents := by
      rw [← Indents.all_ofListing, listed_eq, ofListing_foldl] at hroom ⊢
      refine all_of_spells hwords (hroom.imp_left fun hsize => ?_)
      rw [List.length_map]
      omega
    refine ⟨hindents, ?_⟩
    rw [leads_of_offsets (margins_ofPayload hlisting).2, hindents]
  · intro outer kind head body block before hblock
    have hinside (indents : Indents) :
        (indents.run (head.unattach ++ body.words)).depth = indents.depth := by
      rw [Indents.run_append, run_plain, depth_words]
    have hrun : Indents.ofListing (block.foldl (Listing.step data names) before) =
        (Indents.ofListing before).run (enclose kind (head.unattach ++ body.words)) := by
      rw [ofListing_foldl, hblock]
    exact (congrArg Indents.depth hrun).trans (depth_enclose kind hinside _)

/-- A loop inside a case of a switch inside a condition inside a script. -/
theorem ofPayload_nested_fourKinds :
    let payload : Bytes :=
      #[0x23, 0x01, 0x47, 0x00, 0x00, 0x01, 0x3C, 0x01, 0x3E, 0x01, 0x20, 0x01, 0x22, 0x01, 0x21,
        0x01, 0x3F, 0x01, 0x3D, 0x01, 0x48, 0x00, 0x00, 0x01, 0x22, 0x01, 0x28, 0x01, 0x24]
    ∃ code, Spells payload code ∧ ∃ listing, Listing.ofPayload payload {} = .ok listing ∧
      listing.allLines.map Line.indent = [0, 1, 2, 3, 4, 5, 4, 3, 3, 1, 2, 1, 0] := by
  intro payload
  let leave {outer : List Kind} : Code outer :=
    .line [⟨some .breakLoop, by decide⟩] .nil
  let choices : Code [.switch, .conditional, .script] :=
    .split .caseLabel (by decide) [] (.block .loop [] leave []
      (.split .defaultLabel (by decide) [] .nil))
  let branches : Code [.conditional, .script] :=
    .block .switch [] choices [] (.split .shortElse (by decide) [] leave)
  let code : Code [] := .block .script [] (.block .conditional [] branches [] .nil) [] .nil
  have hspells : Spells payload code := ⟨by cbv, by cbv⟩
  obtain ⟨listing, hlisting, hlines, -⟩ := ofPayload_nested hspells {}
  exact ⟨code, hspells, listing, hlisting, (hlines (.inl (by decide))).1⟩

end ScriptRecord.Proofs.Bytecode.Nesting
