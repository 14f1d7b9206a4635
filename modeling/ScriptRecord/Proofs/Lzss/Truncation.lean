import ScriptRecord.Proofs.Lzss.History
/-!
# Streams that are cut in the middle of a copy

A stream that ends with the first byte of a copy holds the same tokens without that byte
(`exists_front`), so only the size that is asked for can tell that it was cut.  Whatever
it was cut from makes more output, by a copy at least (`tokens_completed`), and is refused
in its place (`decompress_cut`).  At the one size that the complete tokens have, the byte
is passed over in silence (`decompress_cut_accepted`).
-/

namespace ScriptRecord.Proofs.Lzss.Truncation

open ScriptRecord.Lzss
open ScriptRecord.Proofs.Lzss.CutStream
open ScriptRecord.Proofs.Lzss.History
open ScriptRecord.Proofs.Lzss.TokenStream

variable {stream : List UInt8} {tokens : List Token} {left : List UInt8}

/-- Without the bytes that are left over a stream holds the same tokens. -/
theorem exists_front (h : Holds stream tokens left) :
    ∃ front, stream = front ++ left ∧ Holds front tokens [] := by
  induction h with
  | nil => exact ⟨[], rfl, .nil⟩
  | full flags group hlength hkinds _ ih =>
      obtain ⟨front, rfl, hfront⟩ := ih
      refine ⟨flags :: (group.flatMap Token.bytes ++ front), ?_,
        .full flags group hlength hkinds hfront⟩
      rw [List.cons_append, List.append_assoc]
  | last flags group left hlength hkinds hcut =>
      have hnone : Holds (flags :: (group.flatMap Token.bytes ++ [])) group [] :=
        .last flags group [] hlength hkinds (Nat.zero_lt_of_lt hcut)
      rw [List.append_nil] at hnone
      exact ⟨_, (List.cons_append ..).symm, hnone⟩

theorem length_left_le (h : Holds stream tokens left) : left.length ≤ 1 := by
  induction h with
  | nil => exact Nat.zero_le 1
  | full _ _ _ _ _ ih => exact ih
  | last flags group left _ _ hcut =>
      unfold bytesNeeded at hcut
      split at hcut <;> omega

/-! ## What a stream was cut from -/

/-- The tokens that have been read stay in front of those that are read later. -/
theorem unpackFrom_append (count flags : Nat) (done : Array Token) (stream : List UInt8) :
    ∃ others, Token.unpackFrom count flags done stream = done ++ others := by
  fun_induction Token.unpackFrom count flags done stream with
  | case1 | case4 => exact ⟨#[], Array.append_empty.symm⟩
  | case2 _ _ _ _ ih => exact ih
  | case3 _ _ _ byte _ _ _ ih =>
      obtain ⟨others, hothers⟩ := ih
      exact ⟨#[.literal byte] ++ others, by rw [hothers, Array.push_eq_append, Array.append_assoc]⟩
  | case5 _ _ _ byte _ _ high _ ih =>
      obtain ⟨others, hothers⟩ := ih
      exact ⟨#[.ofBytes byte high] ++ others, by
        rw [hothers, Array.push_eq_append, Array.append_assoc]⟩

/-- The next byte makes the copy whole. -/
theorem unpackFrom_completed {low : UInt8} (h : Holds stream tokens left) (hleft : left = [low])
    (flags : Nat) (done : Array Token) (high : UInt8) (rest : List UInt8) :
    ∃ others, Token.unpackFrom 0 flags done (stream ++ high :: rest) =
      done ++ tokens.toArray ++ #[.ofBytes low high] ++ others := by
  induction h generalizing flags done with
  | nil => cases hleft
  | @full kinds group stream tokens left hlength hkinds _ ih =>
      obtain ⟨others, hothers⟩ := ih hleft (kinds.toNat >>> group.length) (done ++ group.toArray)
      refine ⟨others, ?_⟩
      rw [List.cons_append, Token.unpackFrom.eq_def]
      simp only [↓reduceIte]
      rw [List.append_assoc, unpackFrom_group group _ _ _ _ hlength.le hkinds, hlength,
        Nat.sub_self, ← hlength, hothers]
      simp
  | last kinds group left hlength hkinds hcut =>
      subst hleft
      have hcopy : kinds.toNat.testBit group.length = false := by
        unfold bytesNeeded at hcut
        split at hcut
        · exact absurd hcut (by simp)
        · rename_i hkind
          simpa using hkind
      rw [List.cons_append, Token.unpackFrom.eq_def]
      simp only [↓reduceIte]
      rw [List.append_assoc, unpackFrom_group group _ _ _ _ hlength.le hkinds]
      have hbytes : [low] ++ high :: rest = (Token.ofBytes low high).bytes ++ rest := by
        rw [bytes_ofBytes]
        rfl
      rw [hbytes, unpackFrom_bytes]
      · obtain ⟨others, hothers⟩ := unpackFrom_append (Token.groupSize - group.length - 1)
          (kinds.toNat >>> group.length / 2)
          ((done ++ group.toArray).push (.ofBytes low high)) rest
        exact ⟨others, by rw [hothers, Array.push_eq_append]⟩
      · omega
      · have heven : (kinds.toNat >>> group.length).testBit 0 = false := by
          rw [Nat.testBit_shiftRight]
          exact hcopy
        rw [Nat.testBit_zero, decide_eq_false_iff_not] at heven
        exact propext (iff_of_false heven Bool.false_ne_true)

theorem tokens_completed {more : List UInt8} {whole : List Token} {rest : List UInt8}
    (h : Holds stream tokens left) (hleft : left ≠ []) (hmore : more ≠ [])
    (hwhole : Holds (stream ++ more) whole rest) :
    ∃ position extra others, whole = tokens ++ .copy position extra :: others := by
  have hle := length_left_le h
  match left, more with
  | [low], high :: more =>
      obtain ⟨others, hothers⟩ := unpackFrom_completed h rfl 0 #[] high more
      have hunpack := unpack_of_holds hwhole
      rw [Token.unpack, hothers] at hunpack
      have hlists := congrArg Array.toList hunpack
      simp only [Token.ofBytes, Array.toList_append, List.append_assoc, List.nil_append,
        List.singleton_append] at hlists
      exact ⟨_, _, others.toList, hlists.symm⟩

/-- A copy has at least three bytes. -/
theorem size_decoded_lt_of_copy (tokens others : List Token) (position : Fin 4096)
    (extra : Fin 16) :
    (decoded tokens).size < (decoded (tokens ++ .copy position extra :: others)).size := by
  have hcopy : (decoded (tokens ++ [.copy position extra])).size =
      (decoded tokens).size + (extra.val + 3) := by
    rw [decoded_append]
    exact size_lookBackAll _ _ _
  have hle := size_decoded_le_append (tokens ++ [.copy position extra]) others
  rw [List.append_assoc, List.singleton_append] at hle
  omega

/-! ## Decompression -/

/-- At most one byte of a stream belongs to no flags and to no complete token.  The stream is
refused for every size but that of what its complete tokens stand for; and if there is such a
byte, for the size of anything that the stream is the front of. -/
theorem decompress_cut {stream : Bytes} (h : Holds stream.toList tokens left) :
    (∃ front, stream.toList = front ++ left ∧ Holds front tokens [] ∧ left.length ≤ 1) ∧
      (∀ size, (∃ error, decompress stream size = .error error) ↔ size ≠ (decoded tokens).size) ∧
      (left ≠ [] → ∀ (more : Bytes) size output, more ≠ #[] →
        decompress (stream ++ more) size = .ok output →
        decompress stream size = .error (.decompressionSize size (decoded tokens).size)) := by
  obtain ⟨front, hstream, hfront⟩ := exists_front h
  refine ⟨⟨front, hstream, hfront, length_left_le h⟩, fun size => ?_, ?_⟩
  · cases hanswer : decompress stream size with
    | ok output =>
        have hsize := ((decompress_eq_ok_iff h).mp hanswer).1
        simp [hsize]
    | error error =>
        refine iff_of_true ⟨error, rfl⟩ fun hsize => ?_
        have hok := (decompress_eq_ok_iff h).mpr ⟨hsize.symm, rfl⟩
        rw [hanswer] at hok
        cases hok
  · intro hleft more size output hmore hanswer
    obtain ⟨whole, rest, hwhole⟩ := exists_holds (stream ++ more).toList
    have hsize := ((decompress_eq_ok_iff hwhole).mp hanswer).1
    rw [Array.toList_append] at hwhole
    obtain ⟨position, extra, others, rfl⟩ :=
      tokens_completed h hleft (by simpa using hmore) hwhole
    have hlonger := size_decoded_lt_of_copy tokens others position extra
    exact decompress_of_size_lt h (by omega)

/-- A copy of eighteen spaces and the first byte of another, asked for both. -/
theorem decompress_cut_twoCopies :
    let stream : Bytes := #[0x00, 0x00, 0x0F, 0x05]
    Holds stream.toList [.copy 0 15] [0x05] ∧
      decompress (stream ++ #[0x0F]) 36 = .ok (Array.replicate 36 0x20) ∧
      decompress stream 36 = .error (.decompressionSize 36 18) := by
  intro stream
  have hcut : Holds stream.toList [.copy 0 15] [0x05] :=
    .last 0x00 [.copy 0 15] [0x05] (by decide) (by unfold Kinds; decide) (by decide)
  have hwhole : Holds (stream ++ #[0x0F]).toList [.copy 0 15, .copy 5 15] [] :=
    .last 0x00 [.copy 0 15, .copy 5 15] [] (by decide) (by unfold Kinds; decide) (by decide)
  have hanswer : decompress (stream ++ #[0x0F]) 36 = .ok (Array.replicate 36 0x20) :=
    (decompress_eq_ok_iff hwhole).mpr (by decide +kernel)
  exact ⟨hcut, hanswer, (decompress_cut hcut).2.2 (by decide) #[0x0F] 36 _ (by decide) hanswer⟩

/-- Asked for the eighteen spaces, the same stream is accepted. -/
theorem decompress_cut_accepted :
    let stream : Bytes := #[0x00, 0x00, 0x0F, 0x05]
    Holds stream.toList [.copy 0 15] [0x05] ∧
      decompress stream 18 = .ok (Array.replicate 18 0x20) := by
  intro stream
  have hcut : Holds stream.toList [.copy 0 15] [0x05] :=
    .last 0x00 [.copy 0 15] [0x05] (by decide) (by unfold Kinds; decide) (by decide)
  exact ⟨hcut, (decompress_eq_ok_iff hcut).mpr (by decide +kernel)⟩

end ScriptRecord.Proofs.Lzss.Truncation
