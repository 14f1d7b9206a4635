import Mathlib.Data.List.Basic
import Mathlib.Data.List.TakeWhile
import ScriptRecord.Text.Blank
/-!
# Trimmed text

A text is either blank all through, or there is a tight part in it with blanks on both
sides (`blank_or_tight`).  Trimming leaves that part and nothing else (`trim_tight`).
-/

namespace ScriptRecord.Proofs.Text.Trimming

open ScriptRecord.Text

/-- Nothing but white space. -/
def Blank (text : List Char) : Prop :=
  ∀ c ∈ text, isBlank c = true

/-- Something that neither begins nor ends with white space. -/
structure Tight (text : List Char) : Prop where
  first : ∃ c rest, text = c :: rest ∧ isBlank c = false
  final : ∃ front c, text = front ++ [c] ∧ isBlank c = false

variable {front core back : List Char}

theorem blank_nil : Blank [] := nofun

theorem tight_iff {text : List Char} :
    Tight text ↔
      text.head?.any (fun c => !isBlank c) ∧ text.getLast?.any (fun c => !isBlank c) := by
  constructor
  · intro h
    obtain ⟨c, rest, hfirst, hc⟩ := h.first
    obtain ⟨init, d, hfinal, hd⟩ := h.final
    have hhead : text.head? = some c := by rw [hfirst, List.head?_cons]
    have hlast : text.getLast? = some d := by rw [hfinal, List.getLast?_concat]
    simp [hhead, hlast, hc, hd]
  · rintro ⟨hfirst, hfinal⟩
    obtain ⟨c, hhead, hc⟩ := (Option.any_eq_true _ _).mp hfirst
    obtain ⟨d, hlast, hd⟩ := (Option.any_eq_true _ _).mp hfinal
    obtain ⟨rest, hrest⟩ := List.head?_eq_some_iff.mp hhead
    obtain ⟨init, hinit⟩ := List.getLast?_eq_some_iff.mp hlast
    exact ⟨⟨c, rest, hrest, by simpa using hc⟩, init, d, hinit, by simpa using hd⟩

instance (text : List Char) : Decidable (Blank text) :=
  decidable_of_iff (text.all isBlank = true) List.all_eq_true

instance (text : List Char) : Decidable (Tight text) :=
  decidable_of_iff _ tight_iff.symm

/-- A later part of a tight text also ends in a character that is not blank. -/
theorem Tight.final_behind {c : Char} {rest : List Char} (h : Tight (front ++ c :: rest)) :
    ∃ init d, c :: rest = init ++ [d] ∧ isBlank d = false := by
  obtain ⟨init, d, htext, hd⟩ := h.final
  have hlast : (c :: rest).getLast? = some d := by
    calc (c :: rest).getLast? = (front ++ c :: rest).getLast? := (List.getLast?_append_cons ..).symm
      _ = some d := by rw [htext, List.getLast?_concat]
  obtain ⟨init, hinit⟩ := List.getLast?_eq_some_iff.mp hlast
  exact ⟨init, d, hinit, hd⟩

theorem trim_blank {text : List Char} (h : Blank text) : trim text = [] := by
  unfold trim trimBy
  rw [List.dropWhile_eq_nil_iff.mpr h]
  rfl

theorem trim_tight (hfront : Blank front) (hcore : Tight core) (hback : Blank back) :
    trim (front ++ core ++ back) = core := by
  have hstart : (front ++ core ++ back).dropWhile isBlank = core ++ back := by
    obtain ⟨c, rest, rfl, hc⟩ := hcore.first
    rw [List.append_assoc, List.dropWhile_append_of_pos hfront, List.cons_append,
      List.dropWhile_cons_of_neg (by simp [hc])]
  have hend : (core ++ back).reverse.dropWhile isBlank = core.reverse := by
    obtain ⟨init, c, rfl, hc⟩ := hcore.final
    rw [List.reverse_append,
      List.dropWhile_append_of_pos fun c hc => hback c (List.mem_reverse.mp hc),
      List.reverse_concat, List.dropWhile_cons_of_neg (by simp [hc])]
  unfold trim trimBy trimEndBy
  rw [hstart, hend, List.reverse_reverse]

theorem blank_or_first (text : List Char) :
    Blank text ∨ ∃ front c rest, Blank front ∧ isBlank c = false ∧ text = front ++ c :: rest := by
  induction text with
  | nil => exact .inl blank_nil
  | cons c text ih =>
      cases hc : isBlank c with
      | false => exact .inr ⟨[], c, text, blank_nil, hc, rfl⟩
      | true =>
          rcases ih with hblank | ⟨front, d, rest, hfront, hd, rfl⟩
          · exact .inl (List.forall_mem_cons.mpr ⟨hc, hblank⟩)
          · exact .inr ⟨c :: front, d, rest, List.forall_mem_cons.mpr ⟨hc, hfront⟩, hd, rfl⟩

theorem blank_or_final (text : List Char) :
    Blank text ∨ ∃ front c back, isBlank c = false ∧ Blank back ∧ text = front ++ c :: back := by
  rcases blank_or_first text.reverse with hblank | ⟨back, c, front, hback, hc, htext⟩
  · exact .inl fun c hc => hblank c (List.mem_reverse.mpr hc)
  · refine .inr ⟨front.reverse, c, back.reverse, hc,
      fun d hd => hback d (List.mem_reverse.mp hd), ?_⟩
    calc text = text.reverse.reverse := text.reverse_reverse.symm
      _ = (back ++ c :: front).reverse := by rw [htext]
      _ = front.reverse ++ c :: back.reverse := by simp

/-- From a character that is not blank a tight part goes on, up to blanks at the end. -/
theorem exists_tight {c : Char} (hc : isBlank c = false) (rest : List Char) :
    ∃ core back, Tight (c :: core) ∧ Blank back ∧ rest = core ++ back := by
  rcases blank_or_final (c :: rest) with hblank | ⟨init, d, back, hd, hback, htext⟩
  · have hcontrary := hblank c List.mem_cons_self
    rw [hc] at hcontrary
    contradiction
  cases init with
  | nil =>
      obtain ⟨rfl, rfl⟩ := List.cons.inj htext
      exact ⟨[], rest, ⟨⟨c, [], rfl, hc⟩, [], c, rfl, hc⟩, hback, rfl⟩
  | cons e init =>
      obtain ⟨rfl, rfl⟩ := List.cons.inj htext
      refine ⟨init ++ [d], back, ⟨⟨c, _, rfl, hc⟩, c :: init, d, rfl, hd⟩, hback, ?_⟩
      exact (List.append_assoc init [d] back).symm

theorem blank_or_tight (text : List Char) :
    Blank text ∨ ∃ front core back, Blank front ∧ Tight core ∧ Blank back ∧
      text = front ++ core ++ back := by
  rcases blank_or_first text with hblank | ⟨front, c, rest, hfront, hc, rfl⟩
  · exact .inl hblank
  · obtain ⟨core, back, htight, hback, rfl⟩ := exists_tight hc rest
    exact .inr ⟨front, c :: core, back, hfront, htight, hback,
      (List.append_assoc front (c :: core) back).symm⟩

end ScriptRecord.Proofs.Text.Trimming
