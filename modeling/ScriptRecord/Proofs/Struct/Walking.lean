import ScriptRecord.Proofs.BytesAt
import ScriptRecord.Struct.Image
import Mathlib.Data.List.Nodup
import Mathlib.Data.List.Range
/-!
# Walking through the entries of any data

Where the data need not hold a struct, the links between entries can lead anywhere: back,
into other entries, out of the data.  A walk along them (`Walk`) has no bound on its length,
but meets no offset twice, and every entry that it passes lies within the data.  So the
search for entries, which counts its steps, never runs out of them (`entries_walk`).
-/

namespace ScriptRecord.Proofs.Struct.Walking

open ScriptRecord.Struct
open ScriptRecord.Proofs.BytesAt

/-- The entries from an offset on, behind those at the offsets `seen`, and what ends them. -/
inductive Walk (img : Image) : List Nat → Nat → List Entry → Stop → Prop
  | complete {seen : List Nat} : Walk img seen 0 [] .complete
  | revisited {seen : List Nat} {offset : Nat} (further : offset ≠ 0) (again : offset ∈ seen) :
      Walk img seen offset [] (.revisited offset)
  | cutShort {seen : List Nat} {offset : Nat} (further : offset ≠ 0) (fresh : offset ∉ seen)
      (short : img.data.size < img.start + offset + 8) :
      Walk img seen offset [] (.cutShort (img.start + offset))
  | entry {seen : List Nat} {offset : Nat} {tag key : UInt32} {rest : List Entry} {stop : Stop}
      (further : offset ≠ 0) (fresh : offset ∉ seen)
      (tagged : img.word? (img.start + offset) = some tag)
      (named : img.word? (img.start + offset + 4) = some key)
      (onward : Walk img (offset :: seen)
        ((img.word? (img.start + offset + 12)).getD 0).toNat rest stop) :
      Walk img seen offset (⟨offset, tag, ⟨key⟩⟩ :: rest) stop

variable {img : Image} {offset : Nat}

theorem Walk.nodup {seen : List Nat} {entries : List Entry} {stop : Stop}
    (h : Walk img seen offset entries stop) :
    (entries.map Entry.offset).Nodup ∧ ∀ o ∈ entries.map Entry.offset, o ∉ seen := by
  induction h with
  | complete | revisited | cutShort => simp
  | @entry seen offset tag key rest stop _ fresh _ _ _ ih =>
      obtain ⟨hnodup, hnew⟩ := ih
      rw [List.map_cons]
      constructor
      · exact List.nodup_cons.mpr ⟨fun hmem => hnew offset hmem List.mem_cons_self, hnodup⟩
      · intro o ho
        rcases List.mem_cons.mp ho with rfl | hrest
        · exact fresh
        · exact fun hseen => hnew o hrest (List.mem_cons_of_mem _ hseen)

/-- The data settles where a walk goes. -/
theorem Walk.unique {seen : List Nat} {xs ys : List Entry} {stop stop' : Stop}
    (hx : Walk img seen offset xs stop) (hy : Walk img seen offset ys stop') :
    xs = ys ∧ stop = stop' := by
  induction hx generalizing ys with
  | complete =>
      cases hy with
      | complete => exact ⟨rfl, rfl⟩
      | revisited further | cutShort further | entry further => exact absurd rfl further
  | revisited further again =>
      cases hy with
      | complete => exact absurd rfl further
      | revisited => exact ⟨rfl, rfl⟩
      | cutShort _ fresh | entry _ fresh => exact absurd again fresh
  | cutShort further fresh short =>
      cases hy with
      | complete => exact absurd rfl further
      | revisited _ again => exact absurd again fresh
      | cutShort => exact ⟨rfl, rfl⟩
      | entry _ _ _ named =>
          rw [Image.word?, word32_eq_none short] at named
          contradiction
  | entry further fresh tagged named _ ih =>
      cases hy with
      | complete => exact absurd rfl further
      | revisited _ again => exact absurd again fresh
      | cutShort _ _ short =>
          rw [Image.word?, word32_eq_none short] at named
          contradiction
      | entry _ _ tagged' named' onward =>
          rw [tagged, Option.some_inj] at tagged'
          rw [named, Option.some_inj] at named'
          obtain ⟨rfl, rfl⟩ := ih onward
          rw [tagged', named']
          exact ⟨rfl, rfl⟩

/-- Distinct numbers below a bound are no more than the bound. -/
theorem length_le_of_lt {bound : Nat} {xs : List Nat} (hnodup : xs.Nodup)
    (hlt : ∀ x ∈ xs, x < bound) : xs.length ≤ bound := by
  have hsubset : xs ⊆ List.range bound := fun x hx => List.mem_range.mpr (hlt x hx)
  have hle := hnodup.length_le_of_subset hsubset
  rwa [List.length_range] at hle

/-- The steps that are left and the offsets behind always make the same sum. -/
theorem entriesFrom_walk {fuel : Nat} {marked : Std.HashSet Nat} {seen : List Nat}
    {found : Array Entry} (hmarked : ∀ o, marked.contains o = true ↔ o ∈ seen)
    (hnodup : seen.Nodup) (hinside : ∀ o ∈ seen, o < img.data.size)
    (hfuel : fuel + seen.length = img.data.size + 2) :
    ∃ entries stop, img.entriesFrom fuel offset marked found = (found ++ entries.toArray, stop) ∧
      Walk img seen offset entries stop := by
  induction fuel generalizing offset marked seen found with
  | zero =>
      -- There would be two offsets more than bytes.
      have hle := length_le_of_lt hnodup hinside
      omega
  | succ fuel ih =>
      rw [Image.entriesFrom]
      by_cases hlast : offset = 0
      · subst hlast
        exact ⟨[], .complete, by simp, .complete⟩
      rw [if_neg hlast]
      by_cases hagain : offset ∈ seen
      · rw [if_pos ((hmarked offset).mpr hagain)]
        exact ⟨[], .revisited offset, by simp, .revisited hlast hagain⟩
      rw [if_neg fun hmark => hagain ((hmarked offset).mp hmark)]
      dsimp only
      by_cases hshort : img.data.size < img.start + offset + 8
      · have hnone : img.word? (img.start + offset + 4) = none := word32_eq_none hshort
        rw [hnone]
        refine ⟨[], .cutShort (img.start + offset), ?_, .cutShort hlast hagain hshort⟩
        cases img.word? (img.start + offset) <;> simp
      · obtain ⟨tag, htag⟩ : ∃ tag, img.word? (img.start + offset) = some tag :=
          exists_word32 (by omega)
        obtain ⟨key, hkey⟩ : ∃ key, img.word? (img.start + offset + 4) = some key :=
          exists_word32 (by omega)
        rw [htag, hkey]
        obtain ⟨rest, stop, hrest, hwalk⟩ := @ih
          ((img.word? (img.start + offset + 12)).getD 0).toNat (marked.insert offset)
          (offset :: seen) (found.push ⟨offset, tag, ⟨key⟩⟩)
          (by intro o
              rw [Std.HashSet.contains_insert, Bool.or_eq_true, beq_iff_eq, hmarked,
                List.mem_cons, eq_comm])
          (List.nodup_cons.mpr ⟨hagain, hnodup⟩)
          (by intro o ho
              rcases List.mem_cons.mp ho with rfl | hold
              · omega
              · exact hinside o hold)
          (by rw [List.length_cons]; omega)
        refine ⟨⟨offset, tag, ⟨key⟩⟩ :: rest, stop, ?_, .entry hlast hagain htag hkey hwalk⟩
        dsimp only
        rw [hrest]
        simp

/-- The entries of the struct with its header at a position are those that its links lead to,
whatever the data holds. -/
theorem entries_walk (img : Image) (pos : Nat) :
    Walk img [] ((img.word? (pos + 4)).getD 0).toNat (img.entries pos).1 (img.entries pos).2 := by
  obtain ⟨entries, stop, hentries, hwalk⟩ := @entriesFrom_walk img
    ((img.word? (pos + 4)).getD 0).toNat (img.data.size + 2) ∅ [] #[] (by simp) List.nodup_nil
    (by simp) rfl
  have hfound : img.entries pos = (entries, stop) := by
    rw [Image.entries, hentries, Array.empty_append]
  rw [hfound]
  exact hwalk

end ScriptRecord.Proofs.Struct.Walking
