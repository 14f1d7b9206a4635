import ScriptRecord.Proofs.Bytecode.Extent
import ScriptRecord.Bytecode.Listing
/-!
# How a scan ends

Any bytes are scanned from one instruction to the next, each further on than the last
(`Path`), until there are no more bytes, an operand is cut short, or a struct is missing
(`EndsAt`).  `decompile_outcome` says that it is always exactly one of these, and what the
listing is in each case: only a struct that is missing is an error.
-/

namespace ScriptRecord.Proofs.Bytecode.Outcome

open ScriptRecord.Bytecode
open ScriptRecord.Proofs.BytesAt
open ScriptRecord.Proofs.Bytecode.Extent

/-- Where the instruction after the one at a position stands.  That one is a byte that is
no opcode, an opcode with all of its operand, or a struct whose length leads from the
header in front of it, but never back before the end of the header. -/
inductive Next (data : Bytes) (pos : Nat) : Nat → Prop
  | unassigned {byte : UInt8} (here : data[pos]? = some byte)
      (unassigned : Opcode.ofByte? byte = none) : Next data pos (pos + 1)
  | operand {op : Opcode} (here : data[pos]? = some op.byte) (plain : op.layout ≠ .struct)
      (fits : pos + 1 + extent data (pos + 1) op.layout ≤ data.size) :
      Next data pos (pos + 1 + extent data (pos + 1) op.layout)
  | struct {length : UInt16} {fill next : Nat} (here : data[pos]? = some Opcode.struct.byte)
      (sized : data.word16? .little (pos + 1) = some length)
      (zeros : ZerosAt data (pos + 3) fill) (headed : HasAt data (pos + 3 + fill) [0x01, 0x00])
      (onward : (next : Int) =
        max ((pos + 1 + fill : Nat) + length.toInt16.toInt) (pos + 5 + fill : Nat)) :
      Next data pos next

inductive Path (data : Bytes) : Nat → List Nat → Nat → Prop
  | nil {pos : Nat} : Path data pos [] pos
  | cons {pos next last : Nat} {rest : List Nat} (step : Next data pos next)
      (more : Path data next rest last) : Path data pos (pos :: rest) last

/-- Why no instruction can be read at a position. -/
inductive EndsAt (data : Bytes) (last : Nat) : Ending → Prop
  | complete (past : data.size ≤ last) : EndsAt data last .complete
  | truncated {op : Opcode} (here : data[last]? = some op.byte) (plain : op.layout ≠ .struct)
      (short : data.size < last + 1 + extent data (last + 1) op.layout) :
      EndsAt data last (.truncated last op)
  | noLength (here : data[last]? = some Opcode.struct.byte) (short : data.size < last + 3) :
      EndsAt data last (.noStruct data.size [])
  | noHeader {fill : Nat} (here : data[last]? = some Opcode.struct.byte)
      (long : last + 3 ≤ data.size) (zeros : ZerosAt data (last + 3) fill)
      (other : ¬ HasAt data (last + 3 + fill) [0x01, 0x00]) :
      EndsAt data last (.noStruct (last + 3 + fill)
        (data.extract (last + 3 + fill) (last + 3 + fill + 2)).toList)

/-- The instructions of a payload, listed one after another. -/
def listed (data : Bytes) (names : Names) : Listing :=
  (Program.scan data).instructions.foldl (Listing.step data names) Listing.empty

/-- All that a listing shows as long as its last line is open. -/
def shown (listing : Listing) : String :=
  String.join (listing.lines.toList.map Line.render) ++ listing.line.lead ++ listing.line.text

/-- What stands in a listing for an operand that is cut short. -/
def truncation (op : Opcode) : String :=
  "\x7b[TRUNCATED OPCODE " ++ Hex.upper 2 op.byte.toNat ++ "]\x7d"

/-- The listing of a payload whose scan ends in some way.  Behind an operand that is cut
short nothing is listed. -/
def outcome (data : Bytes) (names : Names) : Ending → Except Error String
  | .complete => .ok (listed data names).render
  | .truncated _ op =>
    let front := (shown ((listed data names).begin op)).toList.dropWhile Listing.isMargin
    .ok (String.ofList front ++ truncation op)
  | .noStruct pos found => .error (.structSentinel pos found)

variable {data : Bytes} {pos : Nat}

/-! ## One instruction -/

theorem byte_injective {op other : Opcode} (h : op.byte = other.byte) : op = other := by
  have hop := Opcode.ofByte?_byte op
  rw [h, Opcode.ofByte?_byte other] at hop
  exact (Option.some.inj hop).symm

theorem eq_struct_of_layout {op : Opcode} (h : op.layout = .struct) : op = .struct := by
  cases op <;> first | rfl | cases h

theorem eq_byte_of_ofByte {byte : UInt8} {op : Opcode} (h : Opcode.ofByte? byte = some op) :
    op.byte = byte := by
  simpa using List.find?_some h

theorem Next.lt {next : Nat} (h : Next data pos next) : pos < next := by
  cases h with
  | unassigned => exact Nat.lt_succ_self pos
  | operand => exact Nat.lt_of_lt_of_le (Nat.lt_succ_self pos) (Nat.le_add_right _ _)
  | struct here sized zeros headed onward => omega

theorem Next.lt_size {next : Nat} (h : Next data pos next) : pos < data.size := by
  cases h with
  | unassigned here | operand here | struct here => exact (Array.getElem?_eq_some_iff.mp here).1

theorem endsAt_unique {ending other : Ending} (h : EndsAt data pos ending)
    (hother : EndsAt data pos other) : ending = other := by
  -- The byte at the position tells the opcode, so no two reasons are about different ones.
  have hinside {byte : UInt8} (here : data[pos]? = some byte) : pos < data.size :=
    (Array.getElem?_eq_some_iff.mp here).1
  have hsame {op₁ op₂ : Opcode} (h₁ : data[pos]? = some op₁.byte)
      (h₂ : data[pos]? = some op₂.byte) : op₁ = op₂ := by
    rw [h₁, Option.some_inj] at h₂
    exact byte_injective h₂
  cases h with
  | complete past =>
      cases hother with
      | complete => rfl
      | truncated here | noLength here | noHeader here =>
          exact absurd (hinside here) (Nat.not_lt_of_le past)
  | truncated here plain short =>
      cases hother with
      | complete past => exact absurd (hinside here) (Nat.not_lt_of_le past)
      | truncated here' => rw [hsame here here']
      | noLength here' | noHeader here' =>
          rw [hsame here here'] at plain
          exact absurd rfl plain
  | noLength here short =>
      cases hother with
      | complete past => exact absurd (hinside here) (Nat.not_lt_of_le past)
      | truncated here' plain =>
          rw [← hsame here here'] at plain
          exact absurd rfl plain
      | noLength => rfl
      | noHeader _ long => omega
  | noHeader here long zeros other =>
      cases hother with
      | complete past => exact absurd (hinside here) (Nat.not_lt_of_le past)
      | truncated here' plain =>
          rw [← hsame here here'] at plain
          exact absurd rfl plain
      | noLength _ short => omega
      | noHeader _ _ zeros' => rw [zeros.unique zeros']

theorem readStruct_cases (hpos : pos < data.size)
    (here : data[pos]? = some Opcode.struct.byte) :
    (∃ operand size, Operand.readStruct data (pos + 1) = .ok (operand, size) ∧
        Next data pos (pos + 1 + size)) ∨
      ∃ place found, Operand.readStruct data (pos + 1) = .error (.noStruct place found) ∧
        EndsAt data pos (.noStruct place found) := by
  by_cases hlong : pos + 3 ≤ data.size
  · obtain ⟨length, hlength⟩ := @exists_word16 data (pos + 1) .little hlong
    obtain ⟨fill, hfill, -⟩ := exists_zerosAt data (pos + 3)
    have hheader : HasAt data (pos + 3 + fill) [0x01, 0x00] ↔
        (data.extract (pos + 3 + fill) (pos + 3 + fill + 2)).toList = [0x01, 0x00] :=
      hasAt_iff_extract (by simp)
    have hread := readStruct_of_zerosAt hlength hfill
    rw [show pos + 1 + 2 = pos + 3 from rfl] at hread
    by_cases hheaded : HasAt data (pos + 3 + fill) [0x01, 0x00]
    · rw [if_pos (hheader.mp hheaded)] at hread
      refine .inl ⟨_, _, hread, .struct here hlength hfill hheaded ?_⟩
      omega
    · rw [if_neg fun hfound => hheaded (hheader.mpr hfound)] at hread
      exact .inr ⟨_, _, hread, .noHeader here hlong hfill hheaded⟩
  · refine .inr ⟨data.size, [], ?_, .noLength here (by omega)⟩
    rw [Operand.readStruct, word16_eq_none (by omega)]

/-- An instruction is read, and says where the next one stands, or the scan ends there. -/
theorem read_cases (hpos : pos < data.size) :
    (∃ action size, Instruction.read data pos data[pos] = .ok (action, size) ∧
        Next data pos (pos + 1 + size)) ∨
      ∃ ending, Instruction.read data pos data[pos] = .error ending ∧ EndsAt data pos ending := by
  have hbyte : data[pos]? = some data[pos] := Array.getElem?_eq_getElem hpos
  cases hop : Opcode.ofByte? data[pos] with
  | none =>
      refine .inl ⟨.unknown data[pos], 0, ?_, .unassigned hbyte hop⟩
      rw [Instruction.read, hop]
  | some op =>
      rw [← eq_byte_of_ofByte hop] at hbyte
      rw [Instruction.read, hop]
      dsimp only
      by_cases hstruct : op.layout = .struct
      · have heq := eq_struct_of_layout hstruct
        subst heq
        have hlayout : Operand.read data (pos + 1) Opcode.struct.layout =
            Operand.readStruct data (pos + 1) := rfl
        rw [hlayout]
        rcases readStruct_cases hpos hbyte with
          ⟨operand, size, hread, hnext⟩ | ⟨place, found, hread, hends⟩
        · refine .inl ⟨.known .struct operand, size, ?_, hnext⟩
          rw [hread]
        · refine .inr ⟨.noStruct place found, ?_, hends⟩
          rw [hread]
      · by_cases hfits : pos + 1 + extent data (pos + 1) op.layout ≤ data.size
        · obtain ⟨operand, hread⟩ := read_of_fits hstruct hfits
          refine .inl ⟨.known op operand, _, ?_, .operand hbyte hstruct hfits⟩
          rw [hread]
        · refine .inr ⟨.truncated pos op, ?_, .truncated hbyte hstruct (by omega)⟩
          rw [@read_of_short data (pos + 1) _ hstruct (by omega) hpos]

/-! ## All instructions -/

theorem scanFrom_path (data : Bytes) (pos : Nat) (done : Array Instruction) :
    ∃ offsets last,
      (Program.scanFrom data pos done).instructions.toList.map Instruction.offset =
        done.toList.map Instruction.offset ++ offsets ∧
      Path data pos offsets last ∧ EndsAt data last (Program.scanFrom data pos done).ending := by
  fun_induction Program.scanFrom data pos done with
  | case1 pos done hpos action size hread ih =>
      -- The path from behind this instruction, and this instruction in front of it.
      obtain ⟨offsets, last, hoffsets, hpath, hends⟩ := ih
      rcases read_cases hpos with ⟨action', size', hread', hnext⟩ | ⟨ending, herror, -⟩
      · rw [hread] at hread'
        cases hread'
        refine ⟨pos :: offsets, last, ?_, .cons hnext hpath, hends⟩
        rw [hoffsets]
        simp
      · rw [hread] at herror
        cases herror
  | case2 pos done hpos ending hread =>
      rcases read_cases hpos with ⟨action, size, hread', -⟩ | ⟨ending', herror, hends⟩
      · rw [hread] at hread'
        cases hread'
      · rw [hread] at herror
        cases herror
        exact ⟨[], pos, by simp, .nil, hends⟩
  | case3 pos done hpos => exact ⟨[], pos, by simp, .nil, .complete (Nat.le_of_not_lt hpos)⟩

theorem Path.increasing {offsets : List Nat} {last : Nat} (h : Path data pos offsets last) :
    (offsets ++ [last]).Pairwise (· < ·) ∧ ∀ offset ∈ offsets ++ [last], pos ≤ offset := by
  induction h with
  | nil => simp
  | @cons pos next last rest step _ ih =>
      obtain ⟨hpairwise, hle⟩ := ih
      have hlt := step.lt
      refine ⟨?_, ?_⟩
      · rw [List.cons_append, List.pairwise_cons]
        exact ⟨fun offset hmem => Nat.lt_of_lt_of_le hlt (hle offset hmem), hpairwise⟩
      · intro offset hmem
        rw [List.cons_append] at hmem
        rcases List.mem_cons.mp hmem with rfl | hrest
        · exact Nat.le_refl _
        · exact Nat.le_of_lt (Nat.lt_of_lt_of_le hlt (hle offset hrest))

theorem Path.lt_size {offsets : List Nat} {last : Nat} (h : Path data pos offsets last) :
    ∀ offset ∈ offsets, offset < data.size := by
  induction h with
  | nil => intro offset hmem; cases hmem
  | cons step _ ih =>
      intro offset hmem
      rcases List.mem_cons.mp hmem with rfl | hrest
      · exact step.lt_size
      · exact ih offset hrest

/-! ## The listing -/

theorem dropWhile_append_cons {p : Char → Bool} {c : Char} (hc : p c = false)
    (front rest : List Char) :
    (front ++ c :: rest).dropWhile p = front.dropWhile p ++ c :: rest := by
  induction front with
  | nil => rw [List.nil_append, List.dropWhile_cons_of_neg (by simp [hc])]; rfl
  | cons d front ih =>
      rw [List.cons_append, List.dropWhile_cons, List.dropWhile_cons, ih]
      split <;> rfl

/-- Trimming stops at a stretch of text that neither starts nor ends with a margin. -/
theorem trimBy_append {p : Char → Bool} {front middle back : List Char} {first final : Char}
    (hfirst : p first = false) (hfinal : p final = false) (hback : ∀ c ∈ back, p c = true) :
    Text.trimBy p (front ++ first :: (middle ++ final :: back)) =
      front.dropWhile p ++ first :: (middle ++ [final]) := by
  have hreverse : (front.dropWhile p ++ first :: (middle ++ final :: back)).reverse =
      back.reverse ++ final :: (front.dropWhile p ++ first :: middle).reverse := by
    simp
  rw [Text.trimBy, dropWhile_append_cons hfirst, Text.trimEndBy, hreverse,
    List.dropWhile_append_of_pos (by simpa using hback),
    List.dropWhile_cons_of_neg (by simp [hfinal]), List.reverse_cons, List.reverse_reverse]
  simp

theorem truncation_toList (op : Opcode) :
    ∃ middle, (truncation op).toList = '{' :: (middle ++ ['}']) := by
  have hopen : "\x7b[TRUNCATED OPCODE " = "\x7b" ++ "[TRUNCATED OPCODE " := by decide
  have hclose : "]\x7d" = "]" ++ "\x7d" := by decide
  have hsplit : truncation op =
      "\x7b" ++ ("[TRUNCATED OPCODE " ++ Hex.upper 2 op.byte.toNat ++ "]") ++ "\x7d" := by
    unfold truncation
    simp only [hopen, hclose, String.append_assoc]
  rw [hsplit, String.toList_append, String.toList_append]
  exact ⟨_, rfl⟩

/-- What a listing shows after its open line got more text. -/
theorem join_append (listing : Listing) (text : String) :
    String.join ((listing.append text).allLines.map Line.render) =
      shown listing ++ text ++ "\n" := by
  have hrender : (listing.line.append text).render =
      listing.line.lead ++ (listing.line.text ++ text) ++ "\n" := rfl
  simp only [Listing.allLines, Listing.append, List.map_append, List.map_cons, List.map_nil,
    String.join_append, String.join_cons, String.join_nil, hrender, shown, String.append_assoc,
    String.append_empty]

theorem render_truncated (listing : Listing) (op : Opcode) :
    (listing.append (truncation op)).render =
      String.ofList ((shown listing).toList.dropWhile Listing.isMargin) ++ truncation op := by
  obtain ⟨middle, hmiddle⟩ := truncation_toList op
  have htext : (String.join ((listing.append (truncation op)).allLines.map Line.render)).toList =
      (shown listing).toList ++ '{' :: (middle ++ '}' :: ['\n']) := by
    rw [join_append, String.toList_append, String.toList_append, hmiddle]
    simp
  have htrim : Text.trimBy Listing.isMargin
      ((shown listing).toList ++ '{' :: (middle ++ '}' :: ['\n'])) =
      (shown listing).toList.dropWhile Listing.isMargin ++ '{' :: (middle ++ ['}']) :=
    trimBy_append rfl rfl (List.forall_mem_singleton.mpr rfl)
  have hrender : (listing.append (truncation op)).render = String.ofList
      (Text.trimBy Listing.isMargin
        (String.join ((listing.append (truncation op)).allLines.map Line.render)).toList) := rfl
  rw [hrender, htext, htrim, ← hmiddle, String.ofList_append, String.ofList_toList]

theorem decompile_eq (data : Bytes) (names : Names) :
    decompile data names = outcome data names (Program.scan data).ending := by
  rw [decompile, Listing.ofPayload]
  cases hending : (Program.scan data).ending with
  | complete => rfl
  | truncated pos op => exact congrArg Except.ok (render_truncated _ op)
  | noStruct pos found => rfl

/-- Whatever the bytes and the names, the instructions stand one behind the other up to a place
where the scan ends in exactly one way, and that decides the result: the whole listing, the
listing up to an operand that is cut short, or an error about a missing struct.  Bytes without
a struct opcode are always listed. -/
theorem decompile_outcome (data : Bytes) (names : Names) :
    ∃ last ending,
      let offsets := (Program.scan data).instructions.toList.map Instruction.offset
      Path data 0 offsets last ∧ (offsets ++ [last]).Pairwise (· < ·) ∧
      EndsAt data last ending ∧ (∀ other, EndsAt data last other → other = ending) ∧
      decompile data names = outcome data names ending ∧
      (∀ error, decompile data names = .error error →
        ∃ pos found, error = .structSentinel pos found) ∧
      ((0x4A : UInt8) ∉ data → ∃ text, decompile data names = .ok text) := by
  obtain ⟨offsets, last, hoffsets, hpath, hends⟩ := scanFrom_path data 0 #[]
  rw [List.map_nil, List.nil_append] at hoffsets
  have hresult := decompile_eq data names
  change EndsAt data last (Program.scan data).ending at hends
  generalize (Program.scan data).ending = ending at hends hresult
  refine ⟨last, ending, ?_⟩
  rw [show (Program.scan data).instructions.toList.map Instruction.offset = offsets from hoffsets]
  refine ⟨hpath, hpath.increasing.1, hends, fun other hother => endsAt_unique hother hends,
    hresult, ?_, ?_⟩
  · intro error herror
    rw [hresult] at herror
    cases ending with
    | complete | truncated => cases herror
    | noStruct pos found =>
        cases herror
        exact ⟨pos, found, rfl⟩
  · intro habsent
    rw [hresult]
    cases hends with
    | complete | truncated => exact ⟨_, rfl⟩
    | noLength here | noHeader here => exact absurd (Array.mem_of_getElem? here) habsent

end ScriptRecord.Proofs.Bytecode.Outcome
