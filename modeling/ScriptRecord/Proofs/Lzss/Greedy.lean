import ScriptRecord.Proofs.Lzss.RoundTrip
import Mathlib.Data.Nat.Find
/-!
# The longest match everywhere

`Best` compares a position with all those before it that a copy can reach, in no
particular order: the longest agreement counts, and of equally long ones the nearest.
`Parse` takes such a match wherever it is long enough, and a literal elsewhere.  Any
data has one such parse (`Parse.unique`), and it is the one that compression writes
(`compress_greedy`), although the search stops at the first match of full length.
-/

namespace ScriptRecord.Proofs.Lzss.Greedy

open ScriptRecord.Lzss
open ScriptRecord.Proofs.Lzss.Matches
open ScriptRecord.Proofs.Lzss.RoundTrip
open ScriptRecord.Proofs.Lzss.TokenStream

/-- Most bytes that a match at a position can have. -/
def reach (data : Bytes) (pos : Nat) : Nat :=
  min 18 (data.size - pos)

/-- The number of bytes, as far as a match reaches, that are the same from `source` and from `pos`
on.  The two stretches may overlap. -/
def shared (data : Bytes) (source pos : Nat) : Nat :=
  Nat.findGreatest
    (fun length => data.extract source (source + length) = data.extract pos (pos + length))
    (reach data pos)

/-- A match can be made from this position. -/
def Reaches (pos source : Nat) : Prop :=
  pos - 4078 ≤ source ∧ source < pos

/-- The longest match at a position, made from the nearest source that has one so long. -/
structure Best (data : Bytes) (pos source length : Nat) : Prop where
  reaches : Reaches pos source
  length_eq : shared data source pos = length
  longest : ∀ other, Reaches pos other → shared data other pos ≤ length
  nearest : ∀ other, Reaches pos other → source < other → shared data other pos < length

/-- The data from a position on, read off with the best match wherever it has three bytes.
The first byte of the output goes to slot 4078 of the ring. -/
inductive Parse (data : Bytes) : Nat → List Token → Prop
  | done {pos : Nat} (flush : pos = data.size) : Parse data pos []
  | copy {pos source length : Nat} {position : Fin 4096} {extra : Fin 16} {tokens : List Token}
      (inside : pos < data.size) (best : Best data pos source length) (long : 3 ≤ length)
      (position_eq : position.val = (4078 + source) % 4096) (extra_eq : extra.val + 3 = length)
      (rest : Parse data (pos + length) tokens) :
      Parse data pos (.copy position extra :: tokens)
  | literal {pos : Nat} {tokens : List Token} (inside : pos < data.size)
      (short : ∀ source, Reaches pos source → shared data source pos < 3)
      (rest : Parse data (pos + 1) tokens) :
      Parse data pos (.literal data[pos] :: tokens)

variable {data : Bytes} {pos source length : Nat}

/-! ## Agreement -/

theorem extract_eq_iff {i j count : Nat} (hi : i + count ≤ data.size) (hj : j + count ≤ data.size) :
    data.extract i (i + count) = data.extract j (j + count) ↔
      ∀ k < count, data.getD (i + k) 0 = data.getD (j + k) 0 := by
  have hbyte {start k : Nat} (hstart : start + count ≤ data.size) (hk : k < count) :
      (data.extract start (start + count))[k]? = some (data.getD (start + k) 0) := by
    have hlt : start + k < data.size := by omega
    rw [Array.getElem?_extract_of_lt (by omega), Array.getElem_eq_getD 0]
  constructor
  · intro h k hk
    have hsame := hbyte hi hk
    rw [h, hbyte hj hk] at hsame
    exact (Option.some.inj hsame).symm
  · intro h
    apply Array.ext_getElem?
    intro k
    by_cases hk : k < count
    · rw [hbyte hi hk, hbyte hj hk, h k hk]
    · rw [Array.getElem?_eq_none (by rw [Array.size_extract]; omega),
        Array.getElem?_eq_none (by rw [Array.size_extract]; omega)]

/-- The search counts the bytes one by one. -/
theorem commonLength_eq_shared (hsource : source ≤ pos) (hpos : pos ≤ data.size) :
    commonLength data source pos (reach data pos) = shared data source pos := by
  have hfits {count : Nat} (hcount : count ≤ reach data pos) : pos + count ≤ data.size := by
    unfold reach at hcount
    omega
  symm
  rw [shared, Nat.findGreatest_eq_iff]
  have hle := commonLength_le data source pos (reach data pos)
  refine ⟨hle, fun _ => ?_, fun count hlonger hcount => ?_⟩
  · have hend := hfits hle
    rw [extract_eq_iff (by omega) hend]
    exact fun k hk => getD_eq_of_lt_commonLength hk
  · have hend := hfits hcount
    rw [extract_eq_iff (by omega) hend]
    intro hsame
    have hlong := le_commonLength hcount hsame
    omega

/-! ## One token -/

/-- Every source that a match can be made from is at one of the distances that are searched. -/
theorem distance_of_reaches (h : Reaches pos source) :
    1 ≤ pos - source ∧ pos - source < 1 + min pos maxDistance ∧ pos - (pos - source) = source := by
  obtain ⟨hnear, hbefore⟩ := h
  simp only [maxDistance, windowSize, maxMatch]
  omega

theorem reaches_of_distance {distance : Nat} (hpos : 1 ≤ distance)
    (hlt : distance < 1 + min pos maxDistance) : Reaches pos (pos - distance) := by
  simp only [maxDistance, windowSize, maxMatch] at hlt
  unfold Reaches
  omega

theorem best_of_nearest {distance : Nat} (hpos : pos ≤ data.size)
    (h : Nearest data pos (reach data pos) 1 (min pos maxDistance) distance) :
    Best data pos (pos - distance) (commonLength data (pos - distance) pos (reach data pos)) where
  reaches := reaches_of_distance h.first_le h.lt_last
  length_eq := (commonLength_eq_shared (Nat.sub_le _ _) hpos).symm
  longest := by
    intro other hother
    obtain ⟨hone, hlast, hback⟩ := distance_of_reaches hother
    have hle := h.longest _ hone hlast
    rwa [hback, commonLength_eq_shared (Nat.le_of_lt hother.2) hpos] at hle
  nearest := by
    intro other hother hcloser
    obtain ⟨hone, hlast, hback⟩ := distance_of_reaches hother
    have hlt := h.nearest _ hone (by omega)
    rwa [hback, commonLength_eq_shared (Nat.le_of_lt hother.2) hpos] at hlt

/-- The match that is found is the best one, and none is found only where all are too short. -/
theorem findMatch_cases (hpos : pos ≤ data.size) :
    (∃ found, findMatch? data pos = some found ∧ 3 ≤ found.length ∧
        Best data pos (pos - found.distance) found.length) ∨
      (findMatch? data pos = none ∧ ∀ source, Reaches pos source → shared data source pos < 3) := by
  have hfound : findMatch? data pos =
      if 3 ≤ (searchFrom data pos (reach data pos) 1 ⟨0, 0⟩ (min pos maxDistance)).length then
        some (searchFrom data pos (reach data pos) 1 ⟨0, 0⟩ (min pos maxDistance))
      else none := rfl
  rcases searchFrom_nearest data pos (reach data pos) (min pos maxDistance) 1 ⟨0, 0⟩ with
    ⟨hnone, hothers⟩ | ⟨distance, hnearest, -, hsearch⟩
  · rw [hnone, if_neg (by decide)] at hfound
    refine .inr ⟨hfound, fun source hsource => ?_⟩
    obtain ⟨hone, hlast, hback⟩ := distance_of_reaches hsource
    have hzero := hothers _ hone hlast
    rw [hback, commonLength_eq_shared (Nat.le_of_lt hsource.2) hpos] at hzero
    exact hzero.trans_lt (by decide)
  · rw [hsearch] at hfound
    have hbest := best_of_nearest hpos hnearest
    by_cases hlong : 3 ≤ commonLength data (pos - distance) pos (reach data pos)
    · rw [if_pos hlong] at hfound
      exact .inl ⟨_, hfound, hlong, hbest⟩
    · rw [if_neg hlong] at hfound
      refine .inr ⟨hfound, fun source hsource => ?_⟩
      exact (hbest.longest source hsource).trans_lt (Nat.not_le.mp hlong)

/-! ## All tokens -/

theorem parse_tokensFrom (hpos : pos ≤ data.size) :
    Parse data pos (tokensFrom data pos #[]).toList := by
  induction hleft : data.size - pos using Nat.strongRecOn generalizing pos with
  | ind left ih =>
      by_cases hlt : pos < data.size
      · rw [tokensFrom_cons hlt]
        rcases findMatch_cases hpos with ⟨found, hfound, hlong, hbest⟩ | ⟨hnone, hshort⟩
        · have hrepeats := repeats_of_findMatch hfound
          have hback := hrepeats.distance_le
          have hlength := hrepeats.length_le
          have htoken : tokenAt data pos =
              (.copy (place (windowStart + pos - found.distance))
                (nibble (found.length - minMatch)), found.length) := by
            rw [tokenAt, hfound]
          rw [htoken]
          have hrest := ih _ (by omega) hrepeats.fits rfl
          refine .copy hlt hbest hlong ?_ ?_ hrest
          · simp only [place, windowStart, windowSize, maxMatch]
            omega
          · simp only [nibble, minMatch, maxMatch] at hlength ⊢
            omega
        · have htoken : tokenAt data pos = (.literal data[pos], 1) := by
            rw [tokenAt, hnone, ← Array.getElem_eq_getD (h := hlt) 0]
          rw [htoken]
          exact .literal hlt hshort (ih _ (by omega) hlt rfl)
      · rw [tokensFrom, if_neg hlt]
        exact .done (by omega)

theorem Best.unique {other length' : Nat} (h : Best data pos source length)
    (h' : Best data pos other length') : source = other ∧ length = length' := by
  have hle := h.longest other h'.reaches
  have hge := h'.longest source h.reaches
  rw [h'.length_eq] at hle
  rw [h.length_eq] at hge
  refine ⟨Nat.le_antisymm (Nat.not_lt.mp fun hcloser => ?_) (Nat.not_lt.mp fun hcloser => ?_),
    Nat.le_antisymm hge hle⟩
  · have hlt := h'.nearest source h.reaches hcloser
    rw [h.length_eq] at hlt
    omega
  · have hlt := h.nearest other h'.reaches hcloser
    rw [h'.length_eq] at hlt
    omega

/-- A position with a match that is long enough has no literal. -/
theorem Best.not_short (h : Best data pos source length) (hlong : 3 ≤ length)
    (hshort : ∀ source, Reaches pos source → shared data source pos < 3) : False := by
  have hlt := hshort source h.reaches
  rw [h.length_eq] at hlt
  omega

theorem Parse.unique {tokens others : List Token} (h : Parse data pos tokens)
    (hothers : Parse data pos others) : others = tokens := by
  induction h generalizing others with
  | done hflush =>
      cases hothers with
      | done => rfl
      | copy hinside | literal hinside => omega
  | copy hinside hbest hlong hposition hextra _ ih =>
      cases hothers with
      | done => omega
      | copy _ hbest' _ hposition' hextra' hrest =>
          obtain ⟨rfl, rfl⟩ := hbest.unique hbest'
          rw [ih hrest, Fin.ext (hposition'.trans hposition.symm),
            Fin.ext (Nat.add_right_cancel (hextra'.trans hextra.symm))]
      | literal _ hshort => exact (hbest.not_short hlong hshort).elim
  | literal hinside hshort _ ih =>
      cases hothers with
      | done => omega
      | copy _ hbest hlong => exact (hbest.not_short hlong hshort).elim
      | literal _ _ hrest => rw [ih hrest]

/-- Compressed data is the one parse of the data with the best match everywhere, written in
groups behind their flags. -/
theorem compress_greedy (data : Bytes) :
    ∃ tokens, Parse data 0 tokens ∧ (∀ others, Parse data 0 others → others = tokens) ∧
      (compress data).toList = Token.pack tokens ∧ IsStream (compress data).toList tokens := by
  have hparse : Parse data 0 (tokens data).toList := parse_tokensFrom (Nat.zero_le _)
  refine ⟨_, hparse, fun others hothers => hparse.unique hothers, ?_, isStream_compress data⟩
  rw [compress, List.toList_toArray]

end ScriptRecord.Proofs.Lzss.Greedy
