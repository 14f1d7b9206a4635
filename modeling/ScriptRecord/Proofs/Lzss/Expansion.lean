import ScriptRecord.Proofs.Lzss.Greedy
/-!
# How much compression can expand

A stream has a byte of flags for every eight tokens (`length_of_isStream`), and a copy
takes two bytes for at least three.  So data grows by no more than a byte for every
eight, and it grows by that much only where nothing is repeated, as then every token is
a literal (`literals_or_fewer`).  A copy is named by a place in the ring and by a length
that fit the twelve and the four bits they are written in (`denotes_of_parse`).
-/

namespace ScriptRecord.Proofs.Lzss.Expansion

open ScriptRecord.Lzss
open ScriptRecord.Proofs.Lzss.Greedy
open ScriptRecord.Proofs.Lzss.RoundTrip
open ScriptRecord.Proofs.Lzss.TokenStream

/-- The three bytes at a position also stand at one before it that a match can be made from. -/
def Recurs (data : Bytes) (pos : Nat) : Prop :=
  pos + 3 ≤ data.size ∧ ∃ source, Reaches pos source ∧
    data.extract source (source + 3) = data.extract pos (pos + 3)

/-- The slot of the ring that the two bytes of a copy name. Its bits above the low eight are the
high half of the second byte. -/
def slotOf (low high : UInt8) : Nat :=
  high.toNat / 16 * 256 + low.toNat

/-- The number of bytes that a copy makes, from the low half of its second byte. -/
def lengthOf (high : UInt8) : Nat :=
  high.toNat % 16 + 3

/-- The number of bytes that a token stands for. -/
def span : Token → Nat
  | .literal _ => 1
  | .copy _ extra => extra.val + 3

/-- The two bytes of a copy name the best match at a position: the slot that its first byte went
to, and its whole length. -/
structure Denotes (data : Bytes) (pos source length : Nat) (low high : UInt8) : Prop where
  inside : pos + length ≤ data.size
  best : Best data pos source length
  slot_eq : slotOf low high = (4078 + source) % 4096
  length_eq : lengthOf high = length

variable {data : Bytes} {pos source length : Nat} {stream : List UInt8} {tokens : List Token}

/-! ## The bytes of a stream -/

theorem length_of_isStream (h : IsStream stream tokens) :
    stream.length = (tokens.flatMap Token.bytes).length + (tokens.length + 7) / 8 := by
  induction h with
  | nil => rfl
  | @group flags group stream tokens hnonempty hle _ hfull hrest ih =>
      have hpos := List.length_pos_iff.mpr hnonempty
      rw [Token.groupSize] at hle hfull
      rw [List.length_cons, List.length_append, List.flatMap_append, List.length_append,
        List.length_append, ih]
      by_cases hshort : group.length < 8
      · -- A short group is the last one.
        have hnone := hfull hshort
        subst hnone
        cases hrest
        simp only [List.length_nil]
        omega
      · omega

/-! ## Repetition -/

theorem shared_le_reach (data : Bytes) (source pos : Nat) :
    shared data source pos ≤ reach data pos := Nat.findGreatest_le _

theorem extract_shared (data : Bytes) (source pos : Nat) :
    data.extract source (source + shared data source pos) =
      data.extract pos (pos + shared data source pos) := by
  have hnone : data.extract source (source + 0) = data.extract pos (pos + 0) := by
    rw [Array.extract_eq_empty_of_le (by omega), Array.extract_eq_empty_of_le (by omega)]
  exact Nat.findGreatest_spec
    (P := fun length => data.extract source (source + length) = data.extract pos (pos + length))
    (Nat.zero_le _) hnone

theorem recurs_iff :
    Recurs data pos ↔ ∃ source, Reaches pos source ∧ 3 ≤ shared data source pos := by
  constructor
  · rintro ⟨hfits, source, hreaches, hsame⟩
    have hlimit : 3 ≤ reach data pos := by
      unfold reach
      omega
    exact ⟨source, hreaches, Nat.le_findGreatest hlimit hsame⟩
  · rintro ⟨source, hreaches, hlong⟩
    have hbefore := hreaches.2
    have hlimit := shared_le_reach data source pos
    unfold reach at hlimit
    refine ⟨by omega, source, hreaches, ?_⟩
    have hall := (extract_eq_iff (by omega) (by omega)).mp (extract_shared data source pos)
    exact (extract_eq_iff (by omega) (by omega)).mpr fun k hk => hall k (by omega)

theorem end_le_of_best (h : Best data pos source length) (hpos : pos ≤ data.size) :
    pos + length ≤ data.size := by
  have hlimit := shared_le_reach data source pos
  rw [h.length_eq] at hlimit
  unfold reach at hlimit
  omega

theorem length_le_of_best (h : Best data pos source length) : length ≤ 18 := by
  have hlimit := shared_le_reach data source pos
  rw [h.length_eq] at hlimit
  exact hlimit.trans (Nat.min_le_left _ _)

/-! ## The tokens of a parse -/

/-- Either all tokens are literals and nothing recurs, or the tokens and their bytes are both
fewer than the bytes of the data. -/
theorem literals_or_fewer (h : Parse data pos tokens) :
    ((tokens.flatMap Token.bytes).length = data.size - pos ∧ tokens.length = data.size - pos ∧
        ∀ p, pos ≤ p → ¬ Recurs data p) ∨
      ((tokens.flatMap Token.bytes).length < data.size - pos ∧
        tokens.length < data.size - pos ∧ ∃ p, Recurs data p) := by
  induction h with
  | done hflush =>
      refine .inl ⟨by simp [hflush], by simp [hflush], fun p hp hrecurs => ?_⟩
      have hfits := hrecurs.1
      omega
  | @copy pos source length position extra tokens hinside hbest hlong _ _ _ ih =>
      have hend := end_le_of_best hbest hinside.le
      have hrecurs := recurs_iff.mpr ⟨source, hbest.reaches, hbest.length_eq ▸ hlong⟩
      refine .inr ⟨?_, ?_, pos, hrecurs⟩ <;>
        simp only [List.flatMap_cons, List.length_append, List.length_cons, List.length_nil,
          Token.bytes] <;> omega
  | @literal pos tokens hinside hshort _ ih =>
      have hfirst : ¬ Recurs data pos := by
        rw [recurs_iff]
        rintro ⟨source, hreaches, hlong⟩
        exact absurd (hshort source hreaches) (Nat.not_lt.mpr hlong)
      rw [List.flatMap_cons, List.length_append, Token.bytes, List.length_singleton,
        List.length_cons]
      rcases ih with ⟨hbytes, hcount, hrest⟩ | ⟨hbytes, hcount, hrecurs⟩
      · refine .inl ⟨by omega, by omega, fun p hp => ?_⟩
        rcases Nat.eq_or_lt_of_le hp with rfl | hbehind
        · exact hfirst
        · exact hrest p hbehind
      · exact .inr ⟨by omega, by omega, hrecurs⟩

/-- A token of two bytes stands where those before it end, and they name its match. -/
theorem denotes_of_parse {front back : List Token} {token : Token} {low high : UInt8}
    (h : Parse data pos (front ++ token :: back)) (hbytes : token.bytes = [low, high]) :
    ∃ source length, 3 ≤ length ∧
      Denotes data (pos + (front.map span).sum) source length low high := by
  induction front generalizing pos with
  | nil =>
      cases h with
      | literal => cases hbytes
      | @copy _ source length position extra _ hinside hbest hlong hposition hextra _ =>
          cases hbytes
          refine ⟨source, length, hlong, end_le_of_best hbest hinside.le, hbest, ?_, ?_⟩
          · rw [← hposition, slotOf]
            simp only [UInt8.toNat_ofNat']
            omega
          · rw [← hextra, lengthOf]
            simp only [UInt8.toNat_ofNat']
            omega
  | cons first front ih =>
      rw [List.map_cons, List.sum_cons, ← Nat.add_assoc]
      cases h with
      | literal _ _ hrest => exact ih hrest
      | copy _ _ _ _ hextra hrest =>
          rw [span, hextra]
          exact ih hrest

/-- Compression adds at most a byte of flags for every eight bytes of data, and adds as many only
if no three bytes recur.  A token of two bytes names a match of 3 to 18 bytes in the ring. -/
theorem compress_expansion (data : Bytes) :
    (compress data).size ≤ data.size + (data.size + 7) / 8 ∧
      ((compress data).size = data.size + (data.size + 7) / 8 ↔ ∀ pos, ¬ Recurs data pos) ∧
      ∃ tokens, IsStream (compress data).toList tokens ∧
        ∀ front token back low high, tokens = front ++ token :: back → token.bytes = [low, high] →
          ∃ source length, Denotes data (front.map span).sum source length low high ∧
            slotOf low high < 4096 ∧ 3 ≤ length ∧ length ≤ 18 := by
  have hparse : Parse data 0 (tokens data).toList := parse_tokensFrom (Nat.zero_le _)
  have hstream := isStream_compress data
  have hsize := length_of_isStream hstream
  rw [Array.length_toList] at hsize
  refine ⟨?_, ?_, _, hstream, fun front token back low high htokens hbytes => ?_⟩
  · rcases literals_or_fewer hparse with ⟨hbytes, hcount, -⟩ | ⟨hbytes, hcount, -⟩ <;> omega
  · rcases literals_or_fewer hparse with ⟨hbytes, hcount, hnone⟩ | ⟨hbytes, hcount, p, hrecurs⟩
    · exact iff_of_true (by omega) fun p => hnone p (Nat.zero_le p)
    · exact iff_of_false (by omega) fun hnone => hnone p hrecurs
  · rw [htokens] at hparse
    obtain ⟨source, length, hlong, hdenotes⟩ := denotes_of_parse hparse hbytes
    rw [Nat.zero_add] at hdenotes
    refine ⟨source, length, hdenotes, ?_, hlong, length_le_of_best hdenotes.best⟩
    rw [hdenotes.slot_eq]
    exact Nat.mod_lt _ (by decide)

end ScriptRecord.Proofs.Lzss.Expansion
