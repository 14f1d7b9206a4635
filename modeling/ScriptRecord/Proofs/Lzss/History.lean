import ScriptRecord.Codec
import ScriptRecord.Proofs.Lzss.CutStream
import ScriptRecord.Proofs.Lzss.RingHistory
/-!
# Decoding without a ring

Here a copy looks its bytes up in all of the output so far.  A position stands for the
last byte that was written there, or for a space if there is none.  `Shows` says that
the ring is that view of the output, slot by slot; every byte that is written keeps it
so, whatever the tokens are.  Hence the two ways to decode agree on any stream
(`decompress_eq_decoded`).
-/

namespace ScriptRecord.Proofs.Lzss.History

open ScriptRecord.Lzss
open ScriptRecord.Proofs.Lzss.CutStream
open ScriptRecord.Proofs.Lzss.RingHistory

/-- The last of `count` indices that lead to a position. -/
def latest? (count position : Nat) : Option Nat :=
  (List.range count).reverse.find? fun j => (4078 + j) % 4096 = position

/-- The byte that a position stands for. -/
def lookBack (output : Bytes) (position : Nat) : UInt8 :=
  match latest? output.size position with
  | some j => output.getD j 0
  | none => 0x20

/-- Write `count` bytes from a position on. Each is looked up after those before it have been
written. -/
def lookBackAll (output : Bytes) (position : Nat) : Nat → Bytes
  | 0 => output
  | count + 1 => lookBackAll (output.push (lookBack output (position % 4096))) (position + 1) count

def extend (output : Bytes) : Token → Bytes
  | .literal byte => output.push byte
  | .copy position extra => lookBackAll output position.val (extra.val + 3)

/-- What some tokens stand for. -/
def decoded (tokens : List Token) : Bytes :=
  tokens.foldl extend #[]

/-- The output right after the first token that takes it past `size` bytes. -/
def PassesAt (tokens : List Token) (size : Nat) (output : Bytes) : Prop :=
  ∃ before token after, tokens = before ++ token :: after ∧ (decoded before).size ≤ size ∧
    size < output.size ∧ output = decoded (before ++ [token])

/-- A window in which each slot of the ring shows the byte that its position stands for. -/
structure Shows (w : Window) (output : Bytes) : Prop where
  output_eq : w.output = output
  next_eq : w.next = place (windowStart + output.size)
  ring_eq : ∀ position : Fin 4096, w.ring.get position = lookBack output position.val

variable {w : Window} {output : Bytes} {tokens : List Token} {size : Nat}

/-! ## Looking back -/

theorem latest?_succ (count position : Nat) :
    latest? (count + 1) position =
      if (4078 + count) % 4096 = position then some count else latest? count position := by
  simp only [latest?, List.range_succ, List.reverse_append, List.reverse_singleton,
    List.singleton_append, List.find?_cons]
  by_cases h : (4078 + count) % 4096 = position <;> simp [h]

theorem lt_of_latest? {count position j : Nat} (h : latest? count position = some j) :
    j < count := by
  have hmem := List.mem_of_find?_eq_some h
  simpa using hmem

theorem lookBack_push (output : Bytes) (byte : UInt8) (position : Nat) :
    lookBack (output.push byte) position =
      if (4078 + output.size) % 4096 = position then byte else lookBack output position := by
  unfold lookBack
  rw [Array.size_push, latest?_succ]
  by_cases hnew : (4078 + output.size) % 4096 = position
  · simp [hnew]
  · rw [if_neg hnew, if_neg hnew]
    cases hj : latest? output.size position with
    | none => rfl
    | some j =>
        have hlt := lt_of_latest? hj
        simp [Array.getElem?_push, Nat.ne_of_lt hlt]

/-! ## The ring -/

theorem initial_shows : Shows Window.initial #[] where
  output_eq := rfl
  next_eq := rfl
  ring_eq := by
    intro position
    change (Vector.replicate 4096 windowFill)[position.val] = _
    rw [Vector.getElem_replicate]
    rfl

theorem push_shows (hw : Shows w output) (byte : UInt8) :
    Shows (w.push byte) (output.push byte) where
  output_eq := by rw [Window.push, hw.output_eq]
  next_eq := by
    change place (w.next.val + 1) = _
    rw [hw.next_eq, place_place_succ, Array.size_push, Nat.add_assoc]
  ring_eq := by
    intro position
    have hnext : w.next.val = (4078 + output.size) % 4096 := congrArg Fin.val hw.next_eq
    change (w.ring.set w.next.val byte w.next.isLt)[position.val] = _
    rw [lookBack_push, Vector.getElem_set, hnext]
    split
    · rfl
    · exact hw.ring_eq position

/-- A copy takes what the positions stand for, bytes of the same copy included. -/
theorem copy_shows (position count : Nat) (hw : Shows w output) :
    Shows (w.copy (place position) count) (lookBackAll output position count) := by
  induction count generalizing w output position with
  | zero => exact hw
  | succ count ih =>
      -- The next byte is looked up with this one written, on both sides.
      have hnext := push_shows hw (lookBack output (position % 4096))
      rw [copy_succ, hw.ring_eq, place_place_succ]
      exact ih (position + 1) hnext

theorem expand_shows (hw : Shows w output) (token : Token) :
    Shows (w.expand token) (extend output token) := by
  cases token with
  | literal byte => exact push_shows hw byte
  | copy position extra =>
      have hplace : place position.val = position := Fin.ext (Nat.mod_eq_of_lt position.isLt)
      have hcopy := copy_shows position.val (extra.val + 3) hw
      rw [hplace] at hcopy
      exact hcopy

/-! ## Sizes -/

theorem size_lookBackAll (output : Bytes) (position count : Nat) :
    (lookBackAll output position count).size = output.size + count := by
  induction count generalizing output position with
  | zero => rfl
  | succ count ih =>
      rw [lookBackAll, ih, Array.size_push]
      omega

/-- A token makes no more than 18 bytes, and no more than nine for each of its own. -/
theorem size_extend (output : Bytes) (token : Token) :
    output.size ≤ (extend output token).size ∧
      (extend output token).size ≤ output.size + 18 ∧
      (extend output token).size ≤ output.size + 9 * token.bytes.length := by
  cases token with
  | literal byte =>
      simp only [extend, Array.size_push, Token.bytes, List.length_singleton]
      omega
  | copy position extra =>
      have hextra := extra.isLt
      simp only [extend, size_lookBackAll, Token.bytes, List.length_cons, List.length_nil]
      omega

theorem size_foldl_extend (tokens : List Token) (output : Bytes) :
    output.size ≤ (tokens.foldl extend output).size ∧
      (tokens.foldl extend output).size ≤
        output.size + 9 * (tokens.flatMap Token.bytes).length := by
  induction tokens generalizing output with
  | nil => simp
  | cons token tokens ih =>
      have hfirst := size_extend output token
      have hrest := ih (extend output token)
      simp only [List.foldl_cons, List.flatMap_cons, List.length_append]
      omega

theorem decoded_append (before after : List Token) :
    decoded (before ++ after) = after.foldl extend (decoded before) :=
  List.foldl_append

theorem size_decoded_le_append (before after : List Token) :
    (decoded before).size ≤ (decoded (before ++ after)).size := by
  rw [decoded_append]
  exact (size_foldl_extend after (decoded before)).1

theorem size_decoded_le {stream left : List UInt8} (h : Holds stream tokens left) :
    (decoded tokens).size ≤ 9 * stream.length := by
  have hsize := (size_foldl_extend tokens #[]).2
  have hbytes := length_bytes_le h
  simp only [List.size_toArray, List.length_nil] at hsize
  unfold decoded
  omega

/-- What comes right after the first token past `size` bytes is a part of the whole. -/
theorem PassesAt.bounds (h : PassesAt tokens size output) :
    size < (decoded tokens).size ∧ output.size ≤ (decoded tokens).size ∧
      output.size ≤ size + 18 := by
  obtain ⟨before, token, after, rfl, hbefore, hpast, rfl⟩ := h
  have hwhole := size_decoded_le_append (before ++ [token]) after
  rw [List.append_assoc, List.singleton_append] at hwhole
  have htoken := (size_extend (decoded before) token).2.1
  have hlast : decoded (before ++ [token]) = extend (decoded before) token :=
    decoded_append before [token]
  rw [hlast] at hpast hwhole ⊢
  omega

/-! ## All tokens -/

/-- The tokens after `before` are all expanded, or up to the first one past `size` bytes. -/
theorem expandAll_shows {before : List Token} (hw : Shows w (decoded before))
    (hsize : (decoded before).size ≤ size) (tokens : List Token) :
    ((decoded (before ++ tokens)).size ≤ size ∧
        (w.expandAll size tokens).output = decoded (before ++ tokens)) ∨
      PassesAt (before ++ tokens) size (w.expandAll size tokens).output := by
  induction tokens generalizing w before with
  | nil =>
      rw [List.append_nil]
      exact Or.inl ⟨hsize, hw.output_eq⟩
  | cons token tokens ih =>
      have hnext : Shows (w.expand token) (decoded (before ++ [token])) := by
        rw [decoded_append]
        exact expand_shows hw token
      rw [Window.expandAll, hnext.output_eq]
      -- The size is compared after each token, so what came before this one is not too much.
      by_cases hpast : size < (decoded (before ++ [token])).size
      · rw [if_pos hpast, hnext.output_eq]
        exact Or.inr ⟨before, token, tokens, rfl, hsize, hpast, rfl⟩
      · rw [if_neg hpast]
        have hrest := ih hnext (Nat.not_lt.mp hpast)
        rw [List.append_assoc, List.singleton_append] at hrest
        exact hrest

/-! ## Decompression -/

/-- The answer for the size of what the tokens stand for, one for more, and one for less. -/
theorem decompress_of_holds {stream : Bytes} {left : List UInt8}
    (h : Holds stream.toList tokens left) (size : Nat) :
    ((decoded tokens).size = size ∧ decompress stream size = .ok (decoded tokens)) ∨
      ((decoded tokens).size < size ∧
        decompress stream size = .error (.decompressionSize size (decoded tokens).size)) ∨
      ∃ output, PassesAt tokens size output ∧
        decompress stream size = .error (.decompressionSize size output.size) := by
  have hstart : Shows Window.initial (decoded []) := initial_shows
  have hrun := expandAll_shows hstart (Nat.zero_le size) tokens
  rw [List.nil_append] at hrun
  have hanswer : decompress stream size =
      if (Window.initial.expandAll size tokens).output.size = size then
        .ok (Window.initial.expandAll size tokens).output
      else .error (.decompressionSize size
        (Window.initial.expandAll size tokens).output.size) := by
    rw [decompress, unpack_of_holds h]
  rcases hrun with ⟨hle, hall⟩ | hpasses
  · rw [hall] at hanswer
    by_cases heq : (decoded tokens).size = size
    · rw [if_pos heq] at hanswer
      exact .inl ⟨heq, hanswer⟩
    · rw [if_neg heq] at hanswer
      exact .inr (.inl ⟨Nat.lt_of_le_of_ne hle heq, hanswer⟩)
  · have hne : (Window.initial.expandAll size tokens).output.size ≠ size := by
      obtain ⟨before, token, after, -, -, hpast, -⟩ := hpasses
      omega
    rw [if_neg hne] at hanswer
    exact .inr (.inr ⟨_, hpasses, hanswer⟩)

theorem decompress_eq_ok_iff {stream output : Bytes} {left : List UInt8}
    (h : Holds stream.toList tokens left) :
    decompress stream size = .ok output ↔
      (decoded tokens).size = size ∧ output = decoded tokens := by
  rcases decompress_of_holds h size with ⟨heq, hanswer⟩ | ⟨hlt, hanswer⟩ | ⟨past, hpasses, hanswer⟩
  · rw [hanswer]
    simp [heq, eq_comm]
  · rw [hanswer]
    simp [Nat.ne_of_lt hlt]
  · have hlonger := hpasses.bounds.1
    rw [hanswer]
    simp [Nat.ne_of_gt hlonger]

theorem decompress_of_size_lt {stream : Bytes} {left : List UInt8}
    (h : Holds stream.toList tokens left) (hlt : (decoded tokens).size < size) :
    decompress stream size = .error (.decompressionSize size (decoded tokens).size) := by
  rcases decompress_of_holds h size with ⟨heq, -⟩ | ⟨-, hanswer⟩ | ⟨past, hpasses, -⟩
  · omega
  · exact hanswer
  · have hlonger := hpasses.bounds.1
    omega

/-- Decompression of any stream, whatever size is asked for.  The complete tokens of the
stream are the only thing that counts.  If what they stand for has the size that is asked
for, it is the answer; if it is shorter, its size is reported; and if it is longer, the size
right after the first token that is too much. -/
theorem decompress_eq_decoded (stream : Bytes) (size : Nat) :
    ∃ tokens, (∃ left, Holds stream.toList tokens left) ∧
      (∀ others left, Holds stream.toList others left → others = tokens) ∧
      (∀ output, decompress stream size = .ok output ↔
        (decoded tokens).size = size ∧ output = decoded tokens) ∧
      ((decoded tokens).size < size →
        decompress stream size = .error (.decompressionSize size (decoded tokens).size)) ∧
      (size < (decoded tokens).size →
        ∃ output, PassesAt tokens size output ∧ output.size ≤ size + 18 ∧
          output.size ≤ 9 * stream.size ∧
          decompress stream size = .error (.decompressionSize size output.size)) ∧
      (decoded tokens).size ≤ 9 * stream.size := by
  obtain ⟨tokens, left, hholds⟩ := exists_holds stream.toList
  have hbound := size_decoded_le hholds
  rw [Array.length_toList] at hbound
  refine ⟨tokens, ⟨left, hholds⟩, fun _ _ => hholds.unique, fun _ => decompress_eq_ok_iff hholds,
    decompress_of_size_lt hholds, fun hlonger => ?_, hbound⟩
  rcases decompress_of_holds hholds size with ⟨heq, -⟩ | ⟨hlt, -⟩ | ⟨output, hpasses, hanswer⟩
  · omega
  · omega
  · have hsizes := hpasses.bounds
    exact ⟨output, hpasses, hsizes.2.2, hsizes.2.1.trans hbound, hanswer⟩

end ScriptRecord.Proofs.Lzss.History
