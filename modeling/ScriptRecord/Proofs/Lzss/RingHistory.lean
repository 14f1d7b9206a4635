import ScriptRecord.Lzss.Window
import Mathlib.Data.Nat.Basic
/-!
# The ring as the end of the output

A window keeps its last output in a ring of 4096 slots.  `Faithful` says that a
slot holds the byte that was written to it last; every write keeps it so, and a
copy therefore repeats output from at most 4096 bytes back, including bytes that
the same copy has just made (`copy_follows`).
-/

namespace ScriptRecord.Proofs.Lzss.RingHistory

open ScriptRecord.Lzss

/-- The next byte goes to the slot that its index in the output gives, and each of
the last 4096 bytes of the output is still in its slot. -/
structure Faithful (w : Window) : Prop where
  next_eq : w.next = place (windowStart + w.output.size)
  ring_eq : ∀ j (h : j < w.output.size), w.output.size ≤ j + windowSize →
    w.ring[place (windowStart + j)] = w.output[j]

/-- A faithful window whose output so far is the front of some data. -/
structure Follows (w : Window) (data : Bytes) (pos : Nat) : Prop where
  faithful : Faithful w
  le_size : pos ≤ data.size
  output_eq : w.output = data.extract 0 pos

/-! ## Slots -/

theorem place_ne {i j : Nat} (hlt : i < j) (hnear : j < i + windowSize) :
    (place i).val ≠ (place j).val := by
  simp only [place, windowSize] at *
  omega

theorem place_place_succ (n : Nat) : place ((place n).val + 1) = place (n + 1) := by
  apply Fin.ext
  simp only [place]
  omega

/-! ## Writing a byte -/

theorem initial_faithful : Faithful Window.initial where
  next_eq := rfl
  ring_eq := by
    intro j h
    simp [Window.initial] at h

theorem push_faithful {w : Window} (hw : Faithful w) (byte : UInt8) :
    Faithful (w.push byte) where
  next_eq := by
    simp only [Window.push, Array.size_push]
    rw [hw.next_eq, place_place_succ, Nat.add_assoc]
  ring_eq := by
    intro j hj hnear
    simp only [Window.push, Array.size_push] at hj hnear ⊢
    simp only [hw.next_eq, Fin.getElem_fin, Vector.getElem_set]
    by_cases hold : j < w.output.size
    · -- The slot of an older byte is overwritten only 4096 bytes later.
      have hslot := place_ne (i := windowStart + j) (j := windowStart + w.output.size)
        (by omega) (by omega)
      rw [if_neg hslot.symm, Array.getElem_push_lt hold]
      exact hw.ring_eq j hold (by omega)
    · have hlast : j = w.output.size := by omega
      subst hlast
      rw [if_pos rfl, Array.getElem_push_eq]

theorem initial_follows (data : Bytes) : Follows Window.initial data 0 where
  faithful := initial_faithful
  le_size := Nat.zero_le _
  output_eq := by simp [Window.initial]

theorem push_follows {w : Window} {data : Bytes} {pos : Nat} (hw : Follows w data pos)
    (hlt : pos < data.size) : Follows (w.push data[pos]) data (pos + 1) where
  faithful := push_faithful hw.faithful _
  le_size := hlt
  output_eq := by
    rw [Window.push, hw.output_eq, Array.push_extract_getElem hlt, Nat.min_eq_left]
    omega

theorem Follows.size_eq {w : Window} {data : Bytes} {pos : Nat} (hw : Follows w data pos) :
    w.output.size = pos := by
  rw [hw.output_eq, Array.size_extract, Nat.min_eq_left hw.le_size, Nat.sub_zero]

/-- The ring still holds the byte that was written `distance` bytes ago. -/
theorem ring_follows {w : Window} {data : Bytes} {pos distance : Nat} (hw : Follows w data pos)
    (hpos : 0 < distance) (hle : distance ≤ pos) (hnear : distance ≤ windowSize) :
    w.ring[place (windowStart + (pos - distance))] = data.getD (pos - distance) 0 := by
  have hsize := hw.size_eq
  have hdata := hw.le_size
  have hlt : pos - distance < w.output.size := by omega
  rw [hw.faithful.ring_eq (pos - distance) hlt (by omega)]
  simp only [hw.output_eq, Array.getElem_extract, Nat.zero_add]
  exact Array.getElem_eq_getD 0

/-! ## Copying -/

theorem copy_succ (w : Window) (position : Fin 4096) (count : Nat) :
    w.copy position (count + 1) =
      (w.push (w.ring.get position)).copy (place (position.val + 1)) count := rfl

/-- A copy of bytes that repeat the output from `distance` bytes back follows the
data.  The copy may reach into the bytes that it makes itself. -/
theorem copy_follows {data : Bytes} {distance : Nat} (hpos : 0 < distance)
    (hnear : distance ≤ windowSize) (count : Nat) {w : Window} {pos : Nat}
    (hw : Follows w data pos) (hle : distance ≤ pos) (hfit : pos + count ≤ data.size)
    (hsame : ∀ k < count, data.getD (pos - distance + k) 0 = data.getD (pos + k) 0) :
    Follows (w.copy (place (windowStart + (pos - distance))) count) data (pos + count) := by
  induction count generalizing w pos with
  | zero => exact hw
  | succ count ih =>
      have hlt : pos < data.size := by omega
      have hbyte : w.ring.get (place (windowStart + (pos - distance))) = data[pos] := by
        change w.ring[place (windowStart + (pos - distance))] = data[pos]
        rw [ring_follows hw hpos hle hnear]
        have hfirst := hsame 0 (by omega)
        rw [Nat.add_zero, Nat.add_zero] at hfirst
        rw [hfirst, Array.getElem_eq_getD 0]
      have hpush := push_follows hw hlt
      have hshift : windowStart + (pos - distance) + 1 =
          windowStart + (pos + 1 - distance) := by omega
      rw [copy_succ, hbyte, place_place_succ, hshift]
      have hrest := ih hpush (by omega) (by omega) (by
        intro k hk
        have h := hsame (k + 1) (by omega)
        rw [show pos + 1 - distance + k = pos - distance + (k + 1) by omega,
          show pos + 1 + k = pos + (k + 1) by omega]
        exact h)
      rw [show pos + (count + 1) = pos + 1 + count by omega]
      exact hrest

end ScriptRecord.Proofs.Lzss.RingHistory
