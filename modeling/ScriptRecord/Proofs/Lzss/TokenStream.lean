import ScriptRecord.Lzss.Token
import Mathlib.Data.Nat.Bitwise
/-!
# Streams of whole tokens

`IsStream` is the format of compressed streams without reference to how they are
written or read: groups of a byte of flags and up to eight tokens, with nothing
after the last token.  Writing tokens gives such a stream (`isStream_pack`), and
reading one gives back its tokens (`unpack_of_isStream`).
-/

namespace ScriptRecord.Proofs.Lzss.TokenStream

open ScriptRecord.Lzss

/-- A stream that consists of whole groups, and the tokens in it.  The flags of a
group say which of its tokens are literals, lowest bit first.  Only the last group
may hold fewer than eight tokens. -/
inductive IsStream : List UInt8 → List Token → Prop
  | nil : IsStream [] []
  | group (flags : UInt8) (group : List Token) {stream : List UInt8} {tokens : List Token}
      (nonempty : group ≠ [])
      (length_le : group.length ≤ Token.groupSize)
      (kinds : ∀ i (h : i < group.length), flags.toNat.testBit i = group[i].isLiteral)
      (full : group.length < Token.groupSize → stream = [])
      (rest : IsStream stream tokens) :
      IsStream (flags :: (group.flatMap Token.bytes ++ stream)) (group ++ tokens)

/-! ## Flags -/

theorem testBit_flags (tokens : List Token) (i : Nat) (h : i < tokens.length) :
    (Token.flags tokens).testBit i = tokens[i].isLiteral := by
  induction tokens generalizing i with
  | nil => simp at h
  | cons token rest ih =>
      cases i with
      | zero =>
          rw [Nat.testBit_zero, Token.flags, List.getElem_cons_zero]
          cases token.isLiteral <;> simp
      | succ i =>
          have hrest : i < rest.length := by simpa using h
          have hhalf : Token.flags (token :: rest) / 2 = Token.flags rest := by
            rw [Token.flags]
            split <;> omega
          rw [Nat.testBit_succ, hhalf, ih i hrest]
          rfl

theorem flags_lt (tokens : List Token) : Token.flags tokens < 2 ^ tokens.length := by
  induction tokens with
  | nil => simp [Token.flags]
  | cons token rest ih =>
      rw [Token.flags, List.length_cons, Nat.pow_succ]
      split <;> omega

theorem toNat_flags {group : List Token} (h : group.length ≤ Token.groupSize) :
    (UInt8.ofNat (Token.flags group)).toNat = Token.flags group := by
  have hpow : 2 ^ group.length ≤ 2 ^ 8 := Nat.pow_le_pow_right (by omega) h
  have hlt := flags_lt group
  simp only [UInt8.toNat_ofNat']
  omega

/-! ## Writing -/

theorem isStream_pack (tokens : List Token) : IsStream (Token.pack tokens) tokens := by
  fun_induction Token.pack tokens with
  | case1 => exact .nil
  | case2 token rest group ih =>
      have hlength : group.length ≤ Token.groupSize := by
        simp only [group, List.length_cons, List.length_take, Token.groupSize]
        omega
      have hsplit : token :: rest = group ++ rest.drop 7 := by
        simp [group]
      rw [hsplit]
      refine .group _ group (by simp [group]) hlength ?_ ?_ ih
      · intro i hi
        rw [toNat_flags hlength, testBit_flags group i hi]
      · intro hshort
        have hdrop : rest.drop 7 = [] := by
          simp only [group, List.length_cons, List.length_take, Token.groupSize] at hshort
          exact List.drop_eq_nil_of_le (by omega)
        rw [hdrop, Token.pack]

/-! ## Reading -/

/-- The two bytes of a copy determine it. -/
theorem ofBytes_bytes (position : Fin 4096) (extra : Fin 16) :
    Token.ofBytes (UInt8.ofNat (position.val % 256))
      (UInt8.ofNat (position.val / 256 * 16 + extra.val)) = .copy position extra := by
  have hlow : (UInt8.ofNat (position.val % 256)).toNat = position.val % 256 := by
    simp only [UInt8.toNat_ofNat']
    omega
  have hhigh : (UInt8.ofNat (position.val / 256 * 16 + extra.val)).toNat =
      position.val / 256 * 16 + extra.val := by
    simp only [UInt8.toNat_ofNat']
    omega
  rw [Token.ofBytes, hlow, hhigh]
  congr 1
  · apply Fin.ext
    simp only [place]
    omega
  · apply Fin.ext
    simp only [nibble]
    omega

/-- Reading one token takes its bytes and the flag that stands for its kind. -/
theorem unpackFrom_bytes (token : Token) (left flags : Nat) (done : Array Token)
    (rest : List UInt8) (hleft : left ≠ 0) (hkind : (flags % 2 = 1) = token.isLiteral) :
    Token.unpackFrom left flags done (token.bytes ++ rest) =
      Token.unpackFrom (left - 1) (flags / 2) (done.push token) rest := by
  cases token with
  | literal byte =>
      have hodd : flags % 2 = 1 := by simpa [Token.isLiteral] using hkind
      rw [Token.bytes, List.singleton_append, Token.unpackFrom.eq_def]
      simp only [if_neg hleft, if_pos hodd]
  | copy position extra =>
      have heven : ¬ flags % 2 = 1 := by simpa [Token.isLiteral] using hkind
      rw [Token.bytes, List.cons_append, List.singleton_append, Token.unpackFrom.eq_def]
      simp only [if_neg hleft, if_neg heven, ofBytes_bytes]

/-- Reading the tokens of a group. -/
theorem unpackFrom_group (group : List Token) (left flags : Nat) (done : Array Token)
    (rest : List UInt8) (hleft : group.length ≤ left)
    (hkinds : ∀ i (h : i < group.length), flags.testBit i = group[i].isLiteral) :
    Token.unpackFrom left flags done (group.flatMap Token.bytes ++ rest) =
      Token.unpackFrom (left - group.length) (flags >>> group.length) (done ++ group.toArray)
        rest := by
  induction group generalizing left flags done with
  | nil => simp
  | cons token group ih =>
      rw [List.length_cons] at hleft
      have hfirst : (flags % 2 = 1) = token.isLiteral := by
        have h := hkinds 0 (by simp)
        rw [Nat.testBit_zero, List.getElem_cons_zero] at h
        rw [← h]
        simp
      have hothers : ∀ i (h : i < group.length),
          (flags / 2).testBit i = group[i].isLiteral := by
        intro i hi
        rw [← Nat.testBit_succ]
        exact hkinds (i + 1) (by simpa using hi)
      have hgroup := ih (left - 1) (flags / 2) (done.push token) (by omega) hothers
      rw [List.flatMap_cons, List.append_assoc,
        unpackFrom_bytes token left flags done _ (by omega) hfirst, hgroup,
        List.length_cons, Nat.sub_sub, Nat.add_comm 1, Nat.shiftRight_succ_inside]
      simp

/-- A stream of whole groups is read to its end, and gives its tokens. -/
theorem unpackFrom_of_isStream {stream : List UInt8} {tokens : List Token}
    (h : IsStream stream tokens) (flags : Nat) (done : Array Token) :
    Token.unpackFrom 0 flags done stream = done ++ tokens.toArray := by
  induction h generalizing flags done with
  | nil => simp [Token.unpackFrom]
  | @group kinds group stream tokens _ hlength hkinds hfull _ ih =>
      have hgroup := unpackFrom_group group Token.groupSize kinds.toNat done stream hlength hkinds
      rw [Token.unpackFrom.eq_def]
      simp only [↓reduceIte, hgroup]
      by_cases hshort : group.length < Token.groupSize
      · -- After a short group nothing is left to read.
        have hrest := ih (kinds.toNat >>> group.length) (done ++ group.toArray)
        rw [hfull hshort] at hrest ⊢
        rw [Token.unpackFrom] at hrest ⊢
        rw [hrest]
        simp
      · have hzero : Token.groupSize - group.length = 0 := by omega
        rw [hzero, ih]
        simp

theorem unpack_of_isStream {stream : List UInt8} {tokens : List Token}
    (h : IsStream stream tokens) : Token.unpack stream = tokens.toArray := by
  rw [Token.unpack, unpackFrom_of_isStream h]
  simp

end ScriptRecord.Proofs.Lzss.TokenStream
