import ScriptRecord.Codec
import ScriptRecord.Proofs.Lzss.Matches
import ScriptRecord.Proofs.Lzss.RingHistory
import ScriptRecord.Proofs.Lzss.TokenStream
/-!
# Compression loses nothing

The tokens of some data, written into a window one after another, follow the data
(`expandAll_tokensFrom`).  With the format of token streams this gives back every
payload from its compressed form.
-/

namespace ScriptRecord.Proofs.Lzss.RoundTrip

open ScriptRecord.Lzss
open ScriptRecord.Proofs.Lzss.Matches
open ScriptRecord.Proofs.Lzss.RingHistory
open ScriptRecord.Proofs.Lzss.TokenStream

/-- One token takes a window over the bytes that it stands for. -/
theorem expand_tokenAt {w : Window} {data : Bytes} {pos : Nat} (hw : Follows w data pos)
    (hlt : pos < data.size) :
    Follows (w.expand (tokenAt data pos).1) data (pos + (tokenAt data pos).2) := by
  unfold tokenAt
  split
  · rename_i found hfound
    have hrep := repeats_of_findMatch hfound
    have hwindow : found.distance ≤ windowSize := by
      have hnear := hrep.near
      simp only [maxDistance] at hnear
      omega
    have hcount : (nibble (found.length - minMatch)).val + minMatch = found.length := by
      have hle := hrep.length_le
      have hlong := hrep.long
      simp only [nibble, minMatch, maxMatch] at *
      omega
    have hplace : windowStart + pos - found.distance =
        windowStart + (pos - found.distance) := by
      have hle := hrep.distance_le
      omega
    rw [Window.expand, hcount, hplace]
    exact copy_follows hrep.distance_pos hwindow found.length hw hrep.distance_le hrep.fits
      hrep.same
  · rw [Window.expand, ← Array.getElem_eq_getD (h := hlt) 0]
    exact push_follows hw hlt

theorem tokensFrom_eq_append (data : Bytes) (pos : Nat) (done : Array Token) :
    tokensFrom data pos done = done ++ tokensFrom data pos #[] := by
  induction hleft : data.size - pos using Nat.strongRecOn generalizing pos done with
  | ind left ih =>
      have hstep := tokenAt_length_pos data pos
      by_cases hlt : pos < data.size
      · have hsmaller : data.size - (pos + (tokenAt data pos).2) < left := by omega
        rw [tokensFrom.eq_def data pos done, tokensFrom.eq_def data pos #[], if_pos hlt,
          if_pos hlt, ih _ hsmaller _ (done.push (tokenAt data pos).1) rfl,
          ih _ hsmaller _ (Array.push #[] (tokenAt data pos).1) rfl]
        simp
      · rw [tokensFrom.eq_def data pos done, tokensFrom.eq_def data pos #[], if_neg hlt,
          if_neg hlt, Array.append_empty]

theorem tokensFrom_cons {data : Bytes} {pos : Nat} (hlt : pos < data.size) :
    (tokensFrom data pos #[]).toList =
      (tokenAt data pos).1 :: (tokensFrom data (pos + (tokenAt data pos).2) #[]).toList := by
  rw [tokensFrom, if_pos hlt, tokensFrom_eq_append]
  simp

/-- The tokens from a position on take a window over the rest of the data.  They
never make more output than expected, so the size check lets all of them pass. -/
theorem expandAll_tokensFrom {w : Window} {data : Bytes} {pos : Nat} (hw : Follows w data pos) :
    (w.expandAll data.size (tokensFrom data pos #[]).toList).output = data := by
  induction hleft : data.size - pos using Nat.strongRecOn generalizing w pos with
  | ind left ih =>
      by_cases hlt : pos < data.size
      · have hstep := tokenAt_length_pos data pos
        have hnext := expand_tokenAt hw hlt
        have hsize := hnext.size_eq
        have hle := hnext.le_size
        rw [tokensFrom_cons hlt, Window.expandAll, if_neg (by omega)]
        exact ih _ (by omega) hnext rfl
      · have hend : pos = data.size := by
          have hle := hw.le_size
          omega
        rw [tokensFrom, if_neg hlt, Window.expandAll, hw.output_eq, hend, Array.extract_size]

theorem isStream_compress (data : Bytes) :
    IsStream (compress data).toList (tokens data).toList := by
  rw [compress, List.toList_toArray]
  exact isStream_pack _

theorem decompress_compress (data : Bytes) : decompress (compress data) data.size = .ok data := by
  have houtput : (Window.initial.expandAll data.size (tokens data).toList).output = data := by
    rw [tokens]
    exact expandAll_tokensFrom (initial_follows data)
  rw [decompress, unpack_of_isStream (isStream_compress data)]
  dsimp only
  rw [houtput, if_pos rfl]

/-- Every payload comes back from its compressed form, which is a stream of whole
groups: it ends with the last byte of its last token. -/
theorem compress_lossless (data : Bytes) :
    decompress (compress data) data.size = .ok data ∧
      ∃ tokens, IsStream (compress data).toList tokens :=
  ⟨decompress_compress data, _, isStream_compress data⟩

end ScriptRecord.Proofs.Lzss.RoundTrip
