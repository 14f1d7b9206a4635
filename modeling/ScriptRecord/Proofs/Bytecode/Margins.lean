import ScriptRecord.Proofs.Bytecode.Outcome
import ScriptRecord.Proofs.Results
import Mathlib.Algebra.Order.BigOperators.Group.List
import Mathlib.Algebra.Order.Ring.Int
/-!
# The margins of a listing

What the lines of a listing start with: the offset of the line opcode that opened them,
and an indentation.  The indentation is fixed when a line opens and reduced by keywords
on the line, so it follows from opcodes in front of the line and from opcodes on it
(`indentAt`), in whatever way the scan ends.  Levels are counted in words of 32 bits,
which payloads of less than a gibibyte cannot exceed.
-/

namespace ScriptRecord.Proofs.Bytecode.Margins

open ScriptRecord.Bytecode
open ScriptRecord.Proofs.Bytecode.Outcome
open ScriptRecord.Proofs.Results

/-! ## Opcodes and their places -/

/-- The opcode with the byte at a position. -/
def opcodeAt (data : Bytes) (pos : Nat) : Option Opcode :=
  data[pos]?.bind Opcode.ofByte?

/-- The instruction that a scan ends with if its operand is cut short. -/
def cutAt : Ending → List Nat
  | .truncated offset _ => [offset]
  | _ => []

/-- Where the instructions of a payload stand, in order, with the one that is cut short. -/
def places (data : Bytes) : List Nat :=
  (Program.scan data).instructions.toList.map Instruction.offset ++ cutAt (Program.scan data).ending

def isBreak (word : Option Opcode) : Bool :=
  word == some .endOfLine

def shift (word : Option Opcode) : Int :=
  word.elim 0 Opcode.depthChange

def outdents (word : Option Opcode) : Bool :=
  word.elim false Opcode.outdents

/-- Where the line opcodes among some instructions stand. -/
def breaks (data : Bytes) (places : List Nat) : List Nat :=
  places.filter fun pos => isBreak (opcodeAt data pos)

/-- The sum of the depth changes of the instructions in front of a place. -/
def depthBefore (data : Bytes) (places : List Nat) (pos : Nat) : Int :=
  ((places.filter (· < pos)).map fun place => shift (opcodeAt data place)).sum

/-- The instructions in front of the first line opcode. -/
def front (data : Bytes) (places : List Nat) : List Nat :=
  places.takeWhile fun pos => !isBreak (opcodeAt data pos)

/-- The number of keywords that close or split a block on the line that a place opens. -/
def outdentsBehind (data : Bytes) (places : List Nat) (pos : Nat) : Nat :=
  (front data (places.dropWhile (· ≤ pos))).countP fun place => outdents (opcodeAt data place)

/-- The levels that a line is indented by at a depth. -/
def levels (depth : Int32) : Nat :=
  depth.toNatClampNeg

/-- The indentation of the line that a place opens, in levels. -/
def indentAt (data : Bytes) (places : List Nat) (pos : Nat) : Nat :=
  levels (.ofInt (depthBefore data places pos)) - outdentsBehind data places pos

/-- What a line that opens at a place starts with, if it is indented by so many levels. -/
def margin (pos indent : Nat) : String :=
  Hex.upper 4 pos ++ String.ofList (List.replicate (4 * indent) ' ')

/-! ## Indentations as opcodes go by -/

/-- The indentations of the complete lines and of the open line, and the depth. -/
structure Indents where
  above : List Nat
  current : Nat
  depth : Int32
  deriving DecidableEq, Repr

namespace Indents

def all (indents : Indents) : List Nat :=
  indents.above ++ [indents.current]

def step (indents : Indents) (word : Option Opcode) : Indents :=
  if isBreak word then ⟨indents.all, levels indents.depth, indents.depth⟩
  else
    ⟨indents.above, if outdents word then indents.current - 1 else indents.current,
      indents.depth + .ofInt (shift word)⟩

def run (indents : Indents) (words : List (Option Opcode)) : Indents :=
  words.foldl step indents

theorem run_cons (indents : Indents) (word : Option Opcode) (words : List (Option Opcode)) :
    indents.run (word :: words) = (indents.step word).run words := rfl

theorem run_append (indents : Indents) (words others : List (Option Opcode)) :
    indents.run (words ++ others) = (indents.run words).run others :=
  List.foldl_append

def ofListing (listing : Listing) : Indents :=
  ⟨listing.lines.toList.map Line.indent, listing.line.indent, listing.depth⟩

theorem all_ofListing (listing : Listing) :
    (ofListing listing).all = listing.allLines.map Line.indent := by
  simp [ofListing, all, Listing.allLines]

end Indents

open Indents

/-- The opcode that an action starts with. -/
def word : Action → Option Opcode
  | .known op _ => some op
  | .unknown _ => none

variable {data : Bytes} {names : Names}

theorem ofListing_append (listing : Listing) (text : String) :
    ofListing (listing.append text) = ofListing listing := rfl

theorem ofListing_begin {op : Opcode} (h : op ≠ .endOfLine) (listing : Listing) :
    ofListing (listing.begin op) = (ofListing listing).step (some op) := by
  have hword : isBreak (some op) = false := by simpa [isBreak] using h
  rw [Indents.step, if_neg (by simp [hword])]
  cases hout : op.outdents <;> simp [ofListing, Listing.begin, outdents, shift, hout, Line.append,
    Line.outdent]

theorem ofListing_breakLine (listing : Listing) (offset : Nat) :
    ofListing (listing.breakLine offset) = (ofListing listing).step (some .endOfLine) := by
  simp [ofListing, Listing.breakLine, Indents.step, isBreak, all, levels]

theorem ofListing_step (listing : Listing) (instruction : Instruction) :
    ofListing (listing.step data names instruction) =
      (ofListing listing).step (word instruction.action) := by
  obtain ⟨offset, action⟩ := instruction
  cases action with
  | unknown byte =>
      have hword : (ofListing listing).step none = ofListing listing := by
        simp [Indents.step, isBreak, outdents, shift]
      exact hword.symm
  | known op operand =>
      by_cases hop : op = .endOfLine
      · subst hop
        exact ofListing_breakLine listing offset
      · rw [Listing.step_of_ne hop, ofListing_append, ofListing_begin hop]
        rfl

theorem ofListing_foldl (instructions : List Instruction) (listing : Listing) :
    ofListing (instructions.foldl (Listing.step data names) listing) =
      (ofListing listing).run (instructions.map fun instruction => word instruction.action) := by
  induction instructions generalizing listing with
  | nil => rfl
  | cons instruction rest ih =>
      rw [List.foldl_cons, ih, ofListing_step, List.map_cons, run_cons]

/-! ## Opcodes of a scan -/

theorem word_of_read {pos size : Nat} {byte : UInt8} {action : Action}
    (h : Instruction.read data pos byte = .ok (action, size)) :
    word action = Opcode.ofByte? byte := by
  rw [Instruction.read] at h
  cases hop : Opcode.ofByte? byte with
  | none =>
      rw [hop] at h
      cases h
      rfl
  | some op =>
      rw [hop] at h
      dsimp only at h
      split at h <;> cases h
      rfl

theorem opcodeAt_of_lt {pos : Nat} (h : pos < data.size) :
    opcodeAt data pos = Opcode.ofByte? data[pos] := by
  rw [opcodeAt, Array.getElem?_eq_getElem h, Option.bind_some]

/-- The scan takes each instruction from the byte where it stands. -/
theorem word_eq_opcodeAt (pos : Nat) (done : Array Instruction)
    (hdone : ∀ i ∈ done, word i.action = opcodeAt data i.offset) :
    ∀ i ∈ (Program.scanFrom data pos done).instructions,
      word i.action = opcodeAt data i.offset := by
  fun_induction Program.scanFrom data pos done with
  | case1 pos done hpos action size hread ih =>
      apply ih
      intro i hi
      rcases Array.mem_push.mp hi with hold | rfl
      · exact hdone i hold
      · rw [word_of_read hread, opcodeAt_of_lt hpos]
  | case2 | case3 => exact hdone

theorem words_eq (data : Bytes) :
    (Program.scan data).instructions.toList.map (fun i => word i.action) =
      ((Program.scan data).instructions.toList.map Instruction.offset).map (opcodeAt data) := by
  rw [List.map_map]
  apply List.map_congr_left
  intro i hi
  exact word_eq_opcodeAt 0 #[] (by simp) i (Array.mem_toList_iff.mp hi)

/-! ## Places one by one -/

section Places

variable {place pos : Nat} {rest : List Nat}

theorem depthBefore_cons (h : place < pos) :
    depthBefore data (place :: rest) pos =
      shift (opcodeAt data place) + depthBefore data rest pos := by
  rw [depthBefore, List.filter_cons_of_pos (by simpa using h), List.map_cons, List.sum_cons]
  rfl

theorem depthBefore_self (h : ∀ other ∈ rest, place < other) :
    depthBefore data (place :: rest) place = 0 := by
  have hnone : (place :: rest).filter (· < place) = [] := by
    rw [List.filter_eq_nil_iff]
    intro other hmem
    rcases List.mem_cons.mp hmem with rfl | hrest
    · simp
    · simpa using Nat.le_of_lt (h other hrest)
  rw [depthBefore, hnone, List.map_nil, List.sum_nil]

theorem outdentsBehind_cons (h : place ≤ pos) :
    outdentsBehind data (place :: rest) pos = outdentsBehind data rest pos := by
  rw [outdentsBehind, List.dropWhile_cons_of_pos (by simpa using h)]
  rfl

theorem outdentsBehind_self (h : ∀ other ∈ rest, place < other) :
    outdentsBehind data (place :: rest) place =
      (front data rest).countP fun other => outdents (opcodeAt data other) := by
  have hall : rest.dropWhile (· ≤ place) = rest := by
    cases rest with
    | nil => rfl
    | cons first rest =>
        exact List.dropWhile_cons_of_neg (by simpa using h first List.mem_cons_self)
  rw [outdentsBehind_cons (Nat.le_refl place), outdentsBehind, hall]

end Places

/-! ## Levels in words -/

theorem ofInt_zero : Int32.ofInt 0 = 0 := rfl

/-- A depth that fits the word is what it is. -/
theorem levels_of_fits {depth : Int} (hlow : -2147483648 ≤ depth) (hhigh : depth < 2147483648) :
    levels (.ofInt depth) = depth.toNat := by
  rw [levels, ← Int32.toNat_toInt, Int32.toInt_ofInt_of_le hlow hhigh]

theorem shift_bounds (word : Option Opcode) : -2 ≤ shift word ∧ shift word ≤ 2 := by
  cases word with
  | none => decide
  | some op => cases op <;> decide

/-- No instruction changes the depth by more than two levels. -/
theorem depthBefore_bounds (data : Bytes) (places : List Nat) (pos : Nat) :
    -(2 * places.length : Int) ≤ depthBefore data places pos ∧
      depthBefore data places pos ≤ 2 * places.length := by
  induction places with
  | nil => exact ⟨Int.le_refl _, Int.le_refl _⟩
  | cons place rest ih =>
      obtain ⟨hlow, hhigh⟩ := shift_bounds (opcodeAt data place)
      rw [List.length_cons]
      by_cases hplace : place < pos
      · rw [depthBefore_cons hplace]
        omega
      · rw [depthBefore, List.filter_cons_of_neg (by simpa using hplace), ← depthBefore]
        omega

/-! ## The rest of a program -/

/-- Each instruction acts on the line that it stands on or on all lines behind it, so the
lines of the instructions that are left can be told from the state before them. -/
theorem all_run (data : Bytes) {places : List Nat} (hsorted : places.Pairwise (· < ·))
    (indents : Indents) :
    (indents.run (places.map (opcodeAt data))).all =
      indents.above ++
        (indents.current -
          (front data places).countP fun place => outdents (opcodeAt data place)) ::
        (breaks data places).map fun pos =>
          levels (indents.depth + .ofInt (depthBefore data places pos)) -
            outdentsBehind data places pos := by
  induction places generalizing indents with
  | nil => rfl
  | cons place rest ih =>
      obtain ⟨hbehind, hrest⟩ := List.pairwise_cons.mp hsorted
      have hlater : ∀ pos ∈ breaks data rest, place < pos := fun pos hpos =>
        hbehind pos (List.mem_filter.mp hpos).1
      have hchange (pos : Nat) (hpos : pos ∈ breaks data rest) (depth : Int32) :
          levels (depth + .ofInt (shift (opcodeAt data place)) +
              .ofInt (depthBefore data rest pos)) - outdentsBehind data rest pos =
            levels (depth + .ofInt (depthBefore data (place :: rest) pos)) -
              outdentsBehind data (place :: rest) pos := by
        have hplace := hlater pos hpos
        rw [depthBefore_cons hplace, outdentsBehind_cons (Nat.le_of_lt hplace), Int32.ofInt_add,
          Int32.add_assoc]
      rw [List.map_cons, run_cons, ih hrest, Indents.step]
      cases hbreak : isBreak (opcodeAt data place) with
      | true =>
          -- The open line is complete, and keywords further on are those of the new one.
          have hshift : shift (opcodeAt data place) = 0 := by
            rw [isBreak, beq_iff_eq] at hbreak
            rw [hbreak]
            rfl
          have hfront : front data (place :: rest) = [] := by
            rw [front, List.takeWhile_cons_of_neg (by simp [hbreak])]
          have hbreaks : breaks data (place :: rest) = place :: breaks data rest := by
            rw [breaks, List.filter_cons_of_pos (by simpa using hbreak)]
            rfl
          rw [hfront, hbreaks, List.map_cons, depthBefore_self hbehind, outdentsBehind_self hbehind]
          simp only [if_pos, all, List.append_assoc, List.singleton_append, ofInt_zero,
            Int32.add_zero, List.countP_nil, Nat.sub_zero]
          congr 3
          apply List.map_congr_left
          intro pos hpos
          rw [← hchange pos hpos, hshift, ofInt_zero, Int32.add_zero]
      | false =>
          -- Its keyword counts for the open line, its depth change for all lines behind.
          have hfront : front data (place :: rest) = place :: front data rest := by
            rw [front, List.takeWhile_cons_of_pos (by simp [hbreak])]
            rfl
          have hbreaks : breaks data (place :: rest) = breaks data rest := by
            rw [breaks, List.filter_cons_of_neg (by simp [hbreak])]
            rfl
          rw [hfront, hbreaks, List.countP_cons]
          simp only [Bool.false_eq_true, if_false]
          congr 2
          · split <;> omega
          · apply List.map_congr_left
            intro pos hpos
            exact hchange pos hpos indents.depth

/-! ## Listings -/

theorem offsets_append (listing : Listing) (text : String) :
    (listing.append text).allLines.map Line.offset = listing.allLines.map Line.offset := by
  simp [Listing.allLines, Listing.append, Line.append]

theorem offsets_begin (op : Opcode) (listing : Listing) :
    (listing.begin op).allLines.map Line.offset = listing.allLines.map Line.offset := by
  cases hout : op.outdents <;>
    simp [Listing.allLines, Listing.begin, Line.append, Line.outdent, hout]

theorem offsets_step (listing : Listing) (instruction : Instruction) :
    (listing.step data names instruction).allLines.map Line.offset =
      listing.allLines.map Line.offset ++
        if isBreak (word instruction.action) then [some instruction.offset] else [] := by
  obtain ⟨offset, action⟩ := instruction
  cases action with
  | unknown byte =>
      simp [Listing.step, Listing.allLines, Listing.append, Line.append, word, isBreak]
  | known op operand =>
      by_cases hop : op = .endOfLine
      · subst hop
        simp [Listing.step, Listing.allLines, Listing.append, Listing.breakLine, Line.append, word,
          isBreak]
      · rw [Listing.step_of_ne hop, offsets_append, offsets_begin]
        simp [word, isBreak, hop]

theorem offsets_foldl (instructions : List Instruction) (listing : Listing) :
    (instructions.foldl (Listing.step data names) listing).allLines.map Line.offset =
      listing.allLines.map Line.offset ++
        (instructions.filter fun i => isBreak (word i.action)).map fun i => some i.offset := by
  induction instructions generalizing listing with
  | nil => simp
  | cons instruction rest ih =>
      rw [List.foldl_cons, ih, offsets_step, List.append_assoc, List.filter_cons]
      cases isBreak (word instruction.action) <;> rfl

theorem cut_of_scan {pos : Nat} {op : Opcode}
    (h : (Program.scan data).ending = .truncated pos op) :
    opcodeAt data pos = some op ∧ op ≠ .endOfLine := by
  obtain ⟨-, last, -, -, hends⟩ := scanFrom_path data 0 #[]
  change EndsAt data last (Program.scan data).ending at hends
  rw [h] at hends
  cases hends with
  | truncated here plain short =>
      refine ⟨by rw [opcodeAt, here, Option.bind_some, Opcode.ofByte?_byte], ?_⟩
      -- A line opcode has no operand that could be cut short.
      rintro rfl
      have hinside : pos < data.size := (Array.getElem?_eq_some_iff.mp here).1
      exact absurd short (Nat.not_lt_of_le hinside)

/-- The places are those on the way through the payload, and the one where it is cut short. -/
theorem exists_path (data : Bytes) :
    ∃ offsets last, places data = offsets ++ cutAt (Program.scan data).ending ∧
      Path data 0 offsets last ∧ EndsAt data last (Program.scan data).ending := by
  obtain ⟨offsets, last, hoffsets, hpath, hends⟩ := scanFrom_path data 0 #[]
  refine ⟨offsets, last, ?_, hpath, hends⟩
  rw [places, Program.scan, hoffsets]
  rfl

theorem places_increasing (data : Bytes) : (places data).Pairwise (· < ·) := by
  obtain ⟨offsets, last, hplaces, hpath, hends⟩ := exists_path data
  have hsublist : (places data).Sublist (offsets ++ [last]) := by
    rw [hplaces]
    apply List.Sublist.append_left
    generalize (Program.scan data).ending = ending at hends
    cases hends with
    | truncated => exact List.Sublist.refl _
    | complete | noLength | noHeader => exact List.nil_sublist _
  exact hpath.increasing.1.sublist hsublist

theorem listed_eq (data : Bytes) (names : Names) :
    listed data names =
      (Program.scan data).instructions.toList.foldl (Listing.step data names) Listing.empty :=
  (Array.foldl_toList ..).symm

theorem breaks_append (places others : List Nat) :
    breaks data (places ++ others) = breaks data places ++ breaks data others :=
  List.filter_append places others

theorem breaks_offsets (data : Bytes) :
    ((Program.scan data).instructions.toList.filter fun i => isBreak (word i.action)).map
        (fun i => some i.offset) =
      (breaks data ((Program.scan data).instructions.toList.map Instruction.offset)).map some := by
  rw [breaks, List.filter_map, List.map_map]
  congr 1
  apply List.filter_congr
  intro i hi
  rw [word_eq_opcodeAt 0 #[] (by simp) i (Array.mem_toList_iff.mp hi)]
  rfl

/-- The last instruction acts on the margins like any other, also if its operand is cut short. -/
theorem margins_ofPayload {listing : Listing} (h : Listing.ofPayload data names = .ok listing) :
    ofListing listing = (ofListing Listing.empty).run ((places data).map (opcodeAt data)) ∧
      listing.allLines.map Line.offset = none :: (breaks data (places data)).map some := by
  have hindents : ofListing (listed data names) = (ofListing Listing.empty).run
      (((Program.scan data).instructions.toList.map Instruction.offset).map (opcodeAt data)) := by
    rw [listed_eq, ofListing_foldl, words_eq]
  have hoffsets : (listed data names).allLines.map Line.offset = none ::
      (breaks data ((Program.scan data).instructions.toList.map Instruction.offset)).map some := by
    rw [listed_eq, offsets_foldl, breaks_offsets]
    rfl
  have hfinish : (listed data names).finish (Program.scan data).ending = .ok listing := h
  rw [places]
  cases hending : (Program.scan data).ending with
  | complete =>
      rw [hending] at hfinish
      cases hfinish
      have hcut : cutAt .complete = [] := rfl
      rw [hcut, List.append_nil]
      exact ⟨hindents, hoffsets⟩
  | truncated pos op =>
      rw [hending] at hfinish
      cases hfinish
      obtain ⟨hop, hplain⟩ := cut_of_scan hending
      have hbreaks : breaks data (cutAt (.truncated pos op)) = [] := by
        simp [breaks, cutAt, hop, isBreak, hplain]
      constructor
      · rw [ofListing_append, ofListing_begin hplain, hindents, List.map_append, run_append, cutAt,
          List.map_singleton, hop]
        rfl
      · rw [offsets_append, offsets_begin, hoffsets, breaks_append, hbreaks, List.append_nil]
  | noStruct pos found =>
      rw [hending] at hfinish
      cases hfinish

theorem leads_opened {lines : List Line} {starts : List Nat}
    (hoffsets : lines.map Line.offset = starts.map some) :
    lines.map Line.lead = List.zipWith margin starts (lines.map Line.indent) := by
  induction lines generalizing starts with
  | nil => simp
  | cons line rest ih =>
      cases starts with
      | nil => cases hoffsets
      | cons pos starts =>
          obtain ⟨hoffset, hoffsets⟩ := List.cons.inj hoffsets
          have hlead : line.lead = margin pos line.indent := by
            rw [Line.lead, hoffset, margin, Nat.mul_comm, Line.indentWidth]
          rw [List.map_cons, hlead, ih hoffsets]
          rfl

theorem leads_of_offsets {lines : List Line} {starts : List Nat}
    (hoffsets : lines.map Line.offset = none :: starts.map some) :
    lines.map Line.lead = "" :: List.zipWith margin starts (lines.map Line.indent).tail := by
  cases lines with
  | nil => cases hoffsets
  | cons line rest =>
      obtain ⟨hnone, hrest⟩ := List.cons.inj hoffsets
      have hlead : line.lead = "" := by rw [Line.lead, hnone]
      rw [List.map_cons, hlead, leads_opened hrest]
      rfl

/-- What the lines of a listing start with. -/
theorem leads_ofPayload {listing : Listing} (h : Listing.ofPayload data names = .ok listing) :
    listing.allLines.map Line.lead =
      "" :: (breaks data (places data)).map fun pos =>
        margin pos (indentAt data (places data) pos) := by
  obtain ⟨hrun, hoffsets⟩ := margins_ofPayload h
  have hindents := all_run data (places_increasing data) (ofListing Listing.empty)
  rw [← hrun, all_ofListing] at hindents
  rw [leads_of_offsets hoffsets, hindents]
  simp [List.zipWith_map_right, List.zipWith_self, indentAt, ofListing, Listing.empty]

theorem decompile_eq_ok {text : String} (h : decompile data names = .ok text) :
    ∃ listing, Listing.ofPayload data names = .ok listing ∧ text = listing.render := by
  obtain ⟨listing, hlisting, htext⟩ := bind_eq_ok h
  exact ⟨listing, hlisting, (Except.ok.inj htext).symm⟩

/-! ## Payloads that are too short to leave the word -/

theorem places_lt (data : Bytes) : ∀ place ∈ places data, place < data.size := by
  obtain ⟨offsets, last, hplaces, hpath, hends⟩ := exists_path data
  rw [hplaces]
  intro place hmem
  rcases List.mem_append.mp hmem with hoffset | hcut
  · exact hpath.lt_size place hoffset
  · generalize (Program.scan data).ending = ending at hends hcut
    cases hends with
    | truncated here =>
        rw [List.mem_singleton.mp hcut]
        exact (Array.getElem?_eq_some_iff.mp here).1
    | complete | noLength | noHeader => cases hcut

theorem length_places_le (data : Bytes) : (places data).length ≤ data.size := by
  have hnodup : (places data).Nodup := (places_increasing data).imp Nat.ne_of_lt
  have hrange : places data ⊆ List.range data.size :=
    fun place hmem => List.mem_range.mpr (places_lt data place hmem)
  have hlength := (List.subperm_of_subset hnodup hrange).length_le
  rwa [List.length_range] at hlength

/-- In less than a gibibyte the depth does not leave the word. -/
theorem indentAt_of_short (h : data.size < 1073741824) (pos : Nat) :
    indentAt data (places data) pos =
      (depthBefore data (places data) pos).toNat - outdentsBehind data (places data) pos := by
  have hlength := length_places_le data
  obtain ⟨hlow, hhigh⟩ := depthBefore_bounds data (places data) pos
  rw [indentAt, levels_of_fits (by omega) (by omega)]

/-! ## A payload that is long enough -/

/-- A payload of opcodes without operands. -/
def Bare (data : Bytes) : Prop :=
  ∀ (pos : Nat) (byte : UInt8), data[pos]? = some byte →
    ∃ op, Opcode.ofByte? byte = some op ∧ op.layout = .none

theorem Bare.layout (h : Bare data) {pos : Nat} {op : Opcode} (here : data[pos]? = some op.byte) :
    op.layout = .none := by
  obtain ⟨other, hother, hlayout⟩ := h pos _ here
  rw [Opcode.ofByte?_byte, Option.some_inj] at hother
  rwa [hother]

theorem Bare.next (h : Bare data) {pos next : Nat} (hnext : Next data pos next) :
    next = pos + 1 := by
  cases hnext with
  | unassigned here unassigned => rfl
  | operand here =>
      rw [h.layout here]
      rfl
  | struct here =>
      have hlayout := h.layout here
      cases hlayout

theorem Bare.path (h : Bare data) {pos last : Nat} {offsets : List Nat}
    (hpath : Path data pos offsets last) :
    offsets = List.range' pos offsets.length ∧ last = pos + offsets.length := by
  induction hpath with
  | nil => exact ⟨rfl, rfl⟩
  | @cons pos next last rest step _ ih =>
      obtain ⟨hrest, hlast⟩ := ih
      rw [h.next step] at hrest hlast
      rw [List.length_cons, List.range'_succ, ← hrest]
      exact ⟨rfl, by omega⟩

/-- Every byte of such a payload is an instruction. -/
theorem Bare.places_eq (h : Bare data) :
    places data = List.range data.size ∧ (Program.scan data).ending = .complete := by
  obtain ⟨offsets, last, hplaces, hpath, hends⟩ := exists_path data
  obtain ⟨hoffsets, hlast⟩ := h.path hpath
  have hlength := length_places_le data
  rw [hplaces, List.length_append] at hlength
  generalize (Program.scan data).ending = ending at hplaces hends hlength
  cases hends with
  | complete past =>
      have hsize : offsets.length = data.size := by omega
      rw [hplaces, hoffsets, hsize, List.range_eq_range']
      exact ⟨List.append_nil _, rfl⟩
  | truncated here plain short =>
      have hinside : last < data.size := (Array.getElem?_eq_some_iff.mp here).1
      rw [h.layout here] at short
      exact absurd short (Nat.not_lt_of_le hinside)
  | noLength here | noHeader here =>
      have hlayout := h.layout here
      cases hlayout

/-- Nothing but the first words of switches, then a line with a word of its own. -/
def switches (count : Nat) : Bytes :=
  Array.replicate count Opcode.switch.byte ++ #[Opcode.endOfLine.byte, Opcode.breakLoop.byte]

theorem size_switches (count : Nat) : (switches count).size = count + 2 := by
  simp [switches]

theorem opcodeAt_switches {count pos : Nat} (h : pos < count) :
    opcodeAt (switches count) pos = some .switch := by
  rw [opcodeAt, switches, Array.getElem?_append_left (by simpa using h),
    Array.getElem?_replicate, if_pos h, Option.bind_some, Opcode.ofByte?_byte]

theorem opcodeAt_line (count : Nat) : opcodeAt (switches count) count = some .endOfLine := by
  simp [opcodeAt, switches, Opcode.ofByte?_byte]

theorem opcodeAt_last (count : Nat) : opcodeAt (switches count) (count + 1) = some .breakLoop := by
  simp [opcodeAt, switches, Opcode.ofByte?_byte]

theorem bare_switches (count : Nat) : Bare (switches count) := by
  intro pos byte hbyte
  have hmem := Array.mem_of_getElem? hbyte
  rw [switches, Array.mem_append, Array.mem_replicate] at hmem
  rcases hmem with ⟨-, rfl⟩ | hmem
  · exact ⟨.switch, Opcode.ofByte?_byte _, rfl⟩
  · rcases List.mem_cons.mp (Array.mem_def.mp hmem) with rfl | hmem
    · exact ⟨.endOfLine, Opcode.ofByte?_byte _, rfl⟩
    · rw [List.mem_singleton.mp hmem]
      exact ⟨.breakLoop, Opcode.ofByte?_byte _, rfl⟩

theorem places_switches (count : Nat) :
    places (switches count) = List.range count ++ [count, count + 1] := by
  rw [(bare_switches count).places_eq.1, size_switches, List.range_succ, List.range_succ,
    List.append_assoc]
  rfl

theorem breaks_switches (count : Nat) :
    breaks (switches count) (places (switches count)) = [count] := by
  have hfront : breaks (switches count) (List.range count) = [] := by
    rw [breaks, List.filter_eq_nil_iff]
    intro pos hpos
    rw [opcodeAt_switches (List.mem_range.mp hpos)]
    decide
  rw [places_switches, breaks_append, hfront, breaks, List.nil_append,
    List.filter_cons_of_pos (by rw [opcodeAt_line]; rfl),
    List.filter_cons_of_neg (by rw [opcodeAt_last]; decide), List.filter_nil]

theorem depthBefore_switches (count : Nat) :
    depthBefore (switches count) (places (switches count)) count = 2 * count := by
  have hfilter : (places (switches count)).filter (· < count) = List.range count := by
    rw [places_switches, List.filter_append, List.filter_eq_self.mpr (by simp)]
    simp
  have hshifts : (List.range count).map (fun place => shift (opcodeAt (switches count) place)) =
      (List.range count).map fun _ => 2 := by
    apply List.map_congr_left
    intro place hplace
    rw [opcodeAt_switches (List.mem_range.mp hplace)]
    rfl
  rw [depthBefore, hfilter, hshifts, List.map_const', List.length_range, List.sum_replicate,
    nsmul_eq_mul, Int.mul_comm]

theorem outdentsBehind_switches (count : Nat) :
    outdentsBehind (switches count) (places (switches count)) count = 0 := by
  have hbehind : (places (switches count)).dropWhile (· ≤ count) = [count + 1] := by
    rw [places_switches, List.dropWhile_append_of_pos (by simp; omega)]
    simp
  rw [outdentsBehind, hbehind, front,
    List.takeWhile_cons_of_pos (by rw [opcodeAt_last]; rfl), List.takeWhile_nil,
    List.countP_singleton, opcodeAt_last]
  rfl

/-! ## All listings -/

theorem margin_ne (pos : Nat) {indent other : Nat} (h : indent ≠ other) :
    margin pos indent ≠ margin pos other := by
  intro hmargins
  have hlengths := congrArg String.length hmargins
  simp only [margin, String.length_append, String.length_ofList, List.length_replicate] at hlengths
  omega

/-- The line behind any number of switches. -/
theorem decompile_switches (count : Nat) :
    ∃ text listing, decompile (switches count) {} = .ok text ∧
      Listing.ofPayload (switches count) {} = .ok listing ∧ text = listing.render ∧
      listing.allLines.map Line.lead = ["", margin count (levels (.ofInt (2 * count)))] := by
  have htext := decompile_eq (switches count) {}
  rw [(bare_switches count).places_eq.2, outcome] at htext
  obtain ⟨listing, hlisting, hrender⟩ := decompile_eq_ok htext
  have hindent : indentAt (switches count) (places (switches count)) count =
      levels (.ofInt (2 * count)) := by
    rw [indentAt, depthBefore_switches, outdentsBehind_switches, Nat.sub_zero]
  have hleads := leads_ofPayload hlisting
  rw [breaks_switches, List.map_singleton, hindent] at hleads
  exact ⟨_, listing, htext, hlisting, hrender, hleads⟩

/-- A listing has a first line without an offset, and one line for each line opcode, in order.
That line starts with the offset of the opcode, and its indentation is the depth that the
instructions before it leave, less the keywords on the line that close or split a block.
The depth is counted in a word of 32 bits, and it fits the word if the payload has less
than a gibibyte. -/
theorem decompile_margins {text : String} (h : decompile data names = .ok text) :
    ∃ listing, Listing.ofPayload data names = .ok listing ∧ text = listing.render ∧
      listing.allLines.map Line.offset = none :: (breaks data (places data)).map some ∧
      listing.allLines.map Line.lead =
        "" :: (breaks data (places data)).map (fun pos =>
          margin pos (indentAt data (places data) pos)) ∧
      (data.size < 1073741824 → ∀ pos, indentAt data (places data) pos =
        (depthBefore data (places data) pos).toNat -
          outdentsBehind data (places data) pos) := by
  obtain ⟨listing, hlisting, hrender⟩ := decompile_eq_ok h
  exact ⟨listing, hlisting, hrender, (margins_ofPayload hlisting).2, leads_ofPayload hlisting,
    indentAt_of_short⟩

/-- Too many ends of blocks, a keyword in the middle of a line, and one that is cut short. -/
theorem decompile_margins_unbalanced :
    let payload : Bytes := #[0x24, 0x01, 0x3C, 0x01, 0x22, 0x3E, 0x23, 0x01, 0x22, 0x27]
    ∃ text, decompile payload {} = .ok text ∧
      ∃ listing, Listing.ofPayload payload {} = .ok listing ∧ text = listing.render ∧
        listing.allLines.map Line.lead = ["", "0001", "0003", "0007    "] := by
  intro payload
  have hending : (Program.scan payload).ending = .truncated 9 .elseIf := by cbv
  have htext := decompile_eq payload {}
  rw [hending, outcome] at htext
  have hbreaks : breaks payload (places payload) = [1, 3, 7] := by cbv
  have hfirst : indentAt payload (places payload) 1 = 0 := by cbv
  have hsecond : indentAt payload (places payload) 3 = 0 := by cbv
  have hthird : indentAt payload (places payload) 7 = 1 := by cbv
  obtain ⟨listing, hlisting, hrender, -, hleads, -⟩ := decompile_margins htext
  refine ⟨_, htext, listing, hlisting, hrender, hleads.trans ?_⟩
  rw [hbreaks, List.map_cons, List.map_cons, List.map_singleton, hfirst, hsecond, hthird]
  simp only [margin, Hex.upper_of_lt (show 1 < 16 by decide),
    Hex.upper_of_lt (show 3 < 16 by decide), Hex.upper_of_lt (show 7 < 16 by decide)]
  rfl

/-- Behind a gibibyte of switches a line is indented by no level at all. -/
theorem decompile_margins_gibibyte :
    let count := 1073741824
    let payload := switches count
    depthBefore payload (places payload) count = 2147483648 ∧
      outdentsBehind payload (places payload) count = 0 ∧
      ∃ text listing, decompile payload {} = .ok text ∧
        Listing.ofPayload payload {} = .ok listing ∧ text = listing.render ∧
        listing.allLines.map Line.lead = ["", margin count 0] ∧
        margin count 0 ≠ margin count 2147483648 := by
  have hlevels : levels (.ofInt (2 * (1073741824 : Nat))) = 0 := by decide
  obtain ⟨text, listing, htext, hlisting, hrender, hleads⟩ := decompile_switches 1073741824
  rw [hlevels] at hleads
  refine ⟨depthBefore_switches 1073741824, outdentsBehind_switches 1073741824, text, listing, htext,
    hlisting, hrender, hleads, ?_⟩
  exact margin_ne _ (by decide)

end ScriptRecord.Proofs.Bytecode.Margins
