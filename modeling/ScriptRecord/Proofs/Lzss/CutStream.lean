import ScriptRecord.Proofs.Lzss.TokenStream
/-!
# Streams that end anywhere

Any bytes are a stream of tokens: whole groups, and then a group that ends with the
stream or in the middle of a token.  `Holds` says which tokens are complete and which
bytes are left over, without reference to how a stream is read.  Every stream holds
exactly one sequence of tokens (`exists_holds`), the one that is read from it
(`unpack_of_holds`).
-/

namespace ScriptRecord.Proofs.Lzss.CutStream

open ScriptRecord.Lzss
open ScriptRecord.Proofs.Lzss.TokenStream

/-- Number of bytes that a flag asks for: a literal has one byte, a copy has two. -/
def bytesNeeded (literal : Bool) : Nat :=
  if literal then 1 else 2

/-- The flags of a group say which of its tokens are literals, lowest bit first. -/
def Kinds (flags : Nat) (group : List Token) : Prop :=
  ∀ i (h : i < group.length), flags.testBit i = group[i].isLiteral

/-- A stream, its complete tokens, and what is left of a token that is cut short. -/
inductive Holds : List UInt8 → List Token → List UInt8 → Prop
  | nil : Holds [] [] []
  | full (flags : UInt8) (group : List Token) {stream : List UInt8} {tokens : List Token}
      {left : List UInt8}
      (length_eq : group.length = Token.groupSize)
      (kinds : Kinds flags.toNat group)
      (rest : Holds stream tokens left) :
      Holds (flags :: (group.flatMap Token.bytes ++ stream)) (group ++ tokens) left
  | last (flags : UInt8) (group : List Token) (left : List UInt8)
      (length_lt : group.length < Token.groupSize)
      (kinds : Kinds flags.toNat group)
      (cut : left.length < bytesNeeded (flags.toNat.testBit group.length)) :
      Holds (flags :: (group.flatMap Token.bytes ++ left)) group left

variable {stream left : List UInt8} {tokens : List Token}

/-! ## Reading -/

/-- Nothing is read from a token of which bytes are missing. -/
theorem unpackFrom_cut {count flags : Nat} (done : Array Token) (hcount : count ≠ 0)
    (hcut : left.length < bytesNeeded (flags.testBit 0)) :
    Token.unpackFrom count flags done left = done := by
  rw [Nat.testBit_zero] at hcut
  match left with
  | [] => rw [Token.unpackFrom]
  | [byte] =>
      have heven : ¬ flags % 2 = 1 := by
        intro hodd
        simp [bytesNeeded, hodd] at hcut
      rw [Token.unpackFrom.eq_def]
      simp only [if_neg hcount, if_neg heven]
  | low :: high :: rest =>
      -- Two bytes are enough for either kind.
      exfalso
      unfold bytesNeeded at hcut
      simp only [List.length_cons] at hcut
      split at hcut <;> omega

theorem unpackFrom_of_holds (h : Holds stream tokens left) (flags : Nat) (done : Array Token) :
    Token.unpackFrom 0 flags done stream = done ++ tokens.toArray := by
  induction h generalizing flags done with
  | nil => simp [Token.unpackFrom]
  | @full kinds group stream tokens left hlength hkinds _ ih =>
      rw [Token.unpackFrom.eq_def]
      simp only [↓reduceIte]
      rw [unpackFrom_group group _ _ _ _ hlength.le hkinds, hlength, Nat.sub_self, ih]
      simp
  | last kinds group left hlength hkinds hcut =>
      rw [Token.unpackFrom.eq_def]
      simp only [↓reduceIte]
      rw [unpackFrom_group group _ _ _ _ hlength.le hkinds]
      apply unpackFrom_cut
      · omega
      · rw [Nat.testBit_shiftRight]
        exact hcut

/-- The tokens of a stream are those that are read from it, so they are the only ones. -/
theorem unpack_of_holds (h : Holds stream tokens left) :
    Token.unpack stream = tokens.toArray := by
  rw [Token.unpack, unpackFrom_of_holds h]
  simp

theorem Holds.unique {others : List Token} {left' : List UInt8} (h : Holds stream tokens left)
    (hothers : Holds stream others left') : others = tokens := by
  have heq := (unpack_of_holds hothers).symm.trans (unpack_of_holds h)
  simpa using heq

/-! ## Every stream holds tokens -/

/-- Any two bytes are those of a copy. -/
theorem bytes_ofBytes (low high : UInt8) : (Token.ofBytes low high).bytes = [low, high] := by
  have hlow := low.toNat_lt
  have hhigh := high.toNat_lt
  have hposition : (high.toNat / 16 * 256 + low.toNat) % 4096 =
      high.toNat / 16 * 256 + low.toNat := Nat.mod_eq_of_lt (by omega)
  simp only [Token.ofBytes, Token.bytes, place, nibble, hposition, List.cons.injEq, and_true]
  constructor
  · apply UInt8.toNat_inj.mp
    rw [UInt8.toNat_ofNat']
    omega
  · apply UInt8.toNat_inj.mp
    rw [UInt8.toNat_ofNat']
    omega

theorem Kinds.cons {flags : Nat} {token : Token} {group : List Token}
    (hfirst : flags.testBit 0 = token.isLiteral) (hrest : Kinds (flags / 2) group) :
    Kinds flags (token :: group) := by
  intro i hi
  cases i with
  | zero => exact hfirst
  | succ i =>
      rw [Nat.testBit_succ]
      exact hrest i (by simpa using hi)

/-- As many of `count` tokens at the front of a stream as are complete, and the bytes behind
them. -/
structure Front (count flags : Nat) (stream : List UInt8) (group : List Token)
    (rest : List UInt8) : Prop where
  stream_eq : stream = group.flatMap Token.bytes ++ rest
  length_le : group.length ≤ count
  kinds : Kinds flags group
  cut : group.length < count → rest.length < bytesNeeded (flags.testBit group.length)

theorem Front.cons {count flags : Nat} {token : Token} {group : List Token} {rest : List UInt8}
    (hkind : flags.testBit 0 = token.isLiteral) (h : Front count (flags / 2) stream group rest) :
    Front (count + 1) flags (token.bytes ++ stream) (token :: group) rest where
  stream_eq := by rw [h.stream_eq, List.flatMap_cons, List.append_assoc]
  length_le := Nat.succ_le_succ h.length_le
  kinds := h.kinds.cons hkind
  cut := by
    intro hshort
    rw [List.length_cons, Nat.testBit_succ]
    exact h.cut (Nat.lt_of_succ_lt_succ hshort)

theorem exists_group (count flags : Nat) (stream : List UInt8) :
    ∃ group rest, Front count flags stream group rest := by
  induction count generalizing flags stream with
  | zero => exact ⟨[], stream, rfl, Nat.le_refl 0, nofun, nofun⟩
  | succ count ih =>
      by_cases hcut : stream.length < bytesNeeded (flags.testBit 0)
      · exact ⟨[], stream, rfl, Nat.zero_le _, nofun, fun _ => hcut⟩
      · have hnext (token : Token) (rest : List UInt8) (hkind : flags.testBit 0 = token.isLiteral)
            (hstream : stream = token.bytes ++ rest) :
            ∃ group left, Front (count + 1) flags stream group left := by
          obtain ⟨group, left, hfront⟩ := ih (flags / 2) rest
          rw [hstream]
          exact ⟨token :: group, left, hfront.cons hkind⟩
        cases hkind : flags.testBit 0 with
        | true =>
            match hstream : stream with
            | [] => simp [bytesNeeded, hkind] at hcut
            | byte :: rest => exact hnext (.literal byte) rest hkind rfl
        | false =>
            match hstream : stream with
            | [] | [_] => simp [bytesNeeded, hkind] at hcut
            | low :: high :: rest =>
                apply hnext (.ofBytes low high) rest hkind
                rw [bytes_ofBytes]
                rfl

theorem exists_holds (stream : List UInt8) : ∃ tokens left, Holds stream tokens left := by
  induction hlength : stream.length using Nat.strongRecOn generalizing stream with
  | ind length ih =>
      cases stream with
      | nil => exact ⟨[], [], .nil⟩
      | cons flags stream =>
          obtain ⟨group, rest, rfl, hle, hkinds, hcut⟩ :=
            exists_group Token.groupSize flags.toNat stream
          -- Only a full group has others behind it, and its flags make what is left shorter.
          by_cases hfull : group.length = Token.groupSize
          · have hshorter : rest.length < length := by
              rw [← hlength, List.length_cons, List.length_append]
              omega
            obtain ⟨tokens, left, hrest⟩ := ih rest.length hshorter rest rfl
            exact ⟨group ++ tokens, left, .full flags group hfull hkinds hrest⟩
          · have hshort : group.length < Token.groupSize := Nat.lt_of_le_of_ne hle hfull
            exact ⟨group, rest, .last flags group rest hshort hkinds (hcut hshort)⟩

/-! ## Sizes -/

/-- The tokens of a stream have no more bytes than the stream. -/
theorem length_bytes_le (h : Holds stream tokens left) :
    (tokens.flatMap Token.bytes).length ≤ stream.length := by
  induction h with
  | nil => exact Nat.le_refl 0
  | full flags group _ _ _ ih =>
      simp only [List.flatMap_append, List.length_cons, List.length_append]
      omega
  | last flags group left _ _ _ =>
      simp only [List.length_cons, List.length_append]
      omega

end ScriptRecord.Proofs.Lzss.CutStream
