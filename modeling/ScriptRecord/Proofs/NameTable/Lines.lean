import Mathlib.Data.List.Forall2
import Mathlib.Data.List.ReduceOption
import Mathlib.Data.List.TakeDrop
import ScriptRecord.Proofs.Checksum.Spelling
import ScriptRecord.Proofs.NameTable.Layering
import ScriptRecord.Proofs.Text.Trimming
/-!
# The lines of a name list

`Enters` says what a line enters, by the way it is made up: nothing if it is blank or a
comment, the rest of the line if a key stands in front of it, and the line as a whole
otherwise.  Every line is made up in one of these ways, and it is read accordingly
(`entryOfLine?_eq_iff`).
-/

namespace ScriptRecord.Proofs.NameTable.Lines

open ScriptRecord.Proofs.Checksum.Spelling
open ScriptRecord.Proofs.NameTable.Layering
open ScriptRecord.Proofs.Text.HexDigits
open ScriptRecord.Proofs.Text.Trimming

/-- A key and a blank at the start of a line. -/
def Keyed (text : List Char) : Prop :=
  ∃ word gap rest key, text = word ++ gap :: rest ∧ Accepted word key ∧ Text.isBlank gap = true

/-- What a line enters. -/
inductive Enters : List Char → Option (Key × String) → Prop where
  | blank {line : List Char} : Blank line → Enters line none
  | comment {front rest : List Char} : Blank front → Enters (front ++ '#' :: rest) none
  | keyed {front word gap name back : List Char} {key : Key} : Blank front → Accepted word key →
      Blank gap → gap ≠ [] → Tight name → Blank back →
      Enters (front ++ (word ++ gap ++ name) ++ back) (some (key, String.ofList name))
  | whole {front name back : List Char} : Blank front → Tight name → Blank back →
      name.head? ≠ some '#' → ¬ Keyed name →
      Enters (front ++ name ++ back) (some (Key.ofName (String.ofList name), String.ofList name))

variable {line word gap name text : List Char} {entry : Option (Key × String)} {key : Key}

theorem tight_keyed (hword : Accepted word key) (hname : Tight name) (gap : List Char) :
    Tight (word ++ gap ++ name) := by
  obtain ⟨hne, hsolid⟩ := hword.solid
  obtain ⟨c, rest, rfl⟩ := List.exists_cons_of_ne_nil hne
  obtain ⟨front, d, rfl, hd⟩ := hname.final
  refine ⟨⟨c, _, rfl, (hsolid c List.mem_cons_self).1⟩, c :: rest ++ gap ++ front, d, ?_, hd⟩
  rw [List.append_assoc _ front]

theorem span_word (hword : ∀ c ∈ word, Text.isBlank c = false) {g : Char}
    (hg : Text.isBlank g = true) (rest : List Char) :
    (word ++ g :: rest).span (fun c => !Text.isBlank c) = (word, g :: rest) := by
  have hpos : ∀ c ∈ word, (!Text.isBlank c) = true := fun c hc => by rw [hword c hc]; rfl
  rw [List.span_eq_takeWhile_dropWhile, List.takeWhile_append_of_pos hpos,
    List.dropWhile_append_of_pos hpos]
  simp [hg]

/-- What is cut off at the first blank. -/
theorem eq_append_of_span {first rest : List Char} {g : Char}
    (h : text.span (fun c => !Text.isBlank c) = (first, g :: rest)) :
    text = first ++ g :: rest ∧ Text.isBlank g = true := by
  rw [List.span_eq_takeWhile_dropWhile, Prod.mk.injEq] at h
  obtain ⟨hfirst, hrest⟩ := h
  constructor
  · rw [← hfirst, ← hrest, List.takeWhile_append_dropWhile]
  · have hhead := List.head_dropWhile_not (fun c => !Text.isBlank c) (l := text) (by simp [hrest])
    simp only [hrest, List.head_cons] at hhead
    simpa using hhead

section Forms

variable {front back : List Char}

theorem entryOfLine?_blank (h : Blank line) : NameTable.entryOfLine? line = none := by
  unfold NameTable.entryOfLine?
  rw [trim_blank h]
  rfl

theorem entryOfLine?_comment (hfront : Blank front) (rest : List Char) :
    NameTable.entryOfLine? (front ++ '#' :: rest) = none := by
  obtain ⟨core, back, htight, hback, rfl⟩ := exists_tight (c := '#') (by decide) rest
  have htrim := trim_tight hfront htight hback
  rw [List.append_assoc, List.cons_append] at htrim
  unfold NameTable.entryOfLine?
  rw [htrim]
  exact if_pos (.inr rfl)

theorem entryOfLine?_keyed (hfront : Blank front) (hword : Accepted word key) (hgap : Blank gap)
    (hne : gap ≠ []) (hname : Tight name) (hback : Blank back) :
    NameTable.entryOfLine? (front ++ (word ++ gap ++ name) ++ back) =
      some (key, String.ofList name) := by
  obtain ⟨g, gap, rfl⟩ := List.exists_cons_of_ne_nil hne
  obtain ⟨hword_ne, hsolid⟩ := hword.solid
  have htrim := trim_tight hfront (tight_keyed hword hname (g :: gap)) hback
  have hg := hgap g List.mem_cons_self
  have hspan := span_word (fun c hc => (hsolid c hc).1) hg (gap ++ name)
  have hname_trim : Text.trim (gap ++ name) = name := by
    have h := trim_tight (fun c hc => hgap c (List.mem_cons_of_mem _ hc)) hname blank_nil
    rwa [List.append_nil] at h
  have hhead : ¬ ((word ++ g :: gap ++ name).isEmpty ∨
      (word ++ g :: gap ++ name).head? = some '#') := by
    obtain ⟨c, rest, rfl⟩ := List.exists_cons_of_ne_nil hword_ne
    simpa using (hsolid c List.mem_cons_self).2
  unfold NameTable.entryOfLine?
  rw [htrim, if_neg hhead, List.append_assoc, List.cons_append]
  simp only [hspan, ofHexChars?_eq_some_iff.mpr hword, hname_trim]

theorem entryOfLine?_whole (hfront : Blank front) (hname : Tight name) (hback : Blank back)
    (hhead : name.head? ≠ some '#') (hkeyed : ¬ Keyed name) :
    NameTable.entryOfLine? (front ++ name ++ back) =
      some (Key.ofName (String.ofList name), String.ofList name) := by
  have htrim := trim_tight hfront hname hback
  have hne : name.isEmpty = false := by
    obtain ⟨c, rest, rfl, -⟩ := hname.first
    rfl
  unfold NameTable.entryOfLine?
  rw [htrim, if_neg (by simp [hne, hhead])]
  dsimp only
  have hofName : Key.ofChars name = Key.ofName (String.ofList name) := by
    rw [Key.ofName, String.toList_ofList]
  rw [hofName]
  split
  · rfl
  · next first g rest hspan =>
      obtain ⟨hname_eq, hg⟩ := eq_append_of_span hspan
      cases hkey : Key.ofHexChars? first with
      | none => rfl
      | some key =>
          have haccepted := ofHexChars?_eq_some_iff.mp hkey
          exact absurd ⟨first, g, rest, key, hname_eq, haccepted, hg⟩ hkeyed

end Forms

theorem entryOfLine?_of_enters (h : Enters line entry) : NameTable.entryOfLine? line = entry := by
  cases h with
  | blank hblank => exact entryOfLine?_blank hblank
  | @comment front rest hfront => exact entryOfLine?_comment hfront rest
  | keyed hfront hword hgap hne hname hback =>
      exact entryOfLine?_keyed hfront hword hgap hne hname hback
  | whole hfront hname hback hhead hkeyed =>
      exact entryOfLine?_whole hfront hname hback hhead hkeyed

/-- Every line is made up in one of the ways. -/
theorem exists_enters (line : List Char) : ∃ entry, Enters line entry := by
  rcases blank_or_tight line with hblank | ⟨front, name, back, hfront, hname, hback, rfl⟩
  · exact ⟨none, .blank hblank⟩
  by_cases hhead : name.head? = some '#'
  · obtain ⟨rest, rfl⟩ := List.head?_eq_some_iff.mp hhead
    rw [List.append_assoc, List.cons_append]
    exact ⟨none, .comment hfront⟩
  by_cases hkeyed : Keyed name
  · obtain ⟨word, gap, rest, key, rfl, hword, hgap⟩ := hkeyed
    rcases blank_or_first rest with hblank | ⟨gaps, c, rest, hgaps, hc, rfl⟩
    · -- A tight text does not end in blanks.
      obtain ⟨init, d, hinit, hd⟩ := hname.final_behind
      have hall : Blank (gap :: rest) := List.forall_mem_cons.mpr ⟨hgap, hblank⟩
      have hlast : d ∈ gap :: rest := hinit ▸ List.mem_append_right _ (List.mem_singleton_self d)
      rw [hall d hlast] at hd
      contradiction
    · have hsplit : word ++ gap :: (gaps ++ c :: rest) = word ++ (gap :: gaps) ++ c :: rest := by
        rw [List.append_assoc, List.cons_append]
      rw [hsplit] at hname ⊢
      exact ⟨_, .keyed hfront hword (List.forall_mem_cons.mpr ⟨hgap, hgaps⟩)
        (List.cons_ne_nil gap gaps) ⟨⟨c, rest, rfl, hc⟩, hname.final_behind⟩ hback⟩
  · exact ⟨_, .whole hfront hname hback hhead hkeyed⟩

theorem entryOfLine?_eq_iff : NameTable.entryOfLine? line = entry ↔ Enters line entry := by
  constructor
  · rintro rfl
    obtain ⟨entry, h⟩ := exists_enters line
    rwa [entryOfLine?_of_enters h]
  · exact entryOfLine?_of_enters

/-- A text is a key if it is spelled as one, or with a plus sign that the digits stand behind.  A
list enters what each of its lines enters by the first of them, and nothing else. -/
theorem keys_as_spelled (text : String) :
    (∀ key, Key.ofHex? text = some key ↔
        Spelled [] text.toList key ∨ Spelled ['+'] text.toList key) ∧
      ∃ entries, (∀ others, List.Forall₂ Enters (text.toList.splitOn '\n') others ↔
          others = entries) ∧
        NameTable.parse text = NameTable.ofList entries.reduceOption := by
  refine ⟨fun key => ofHexChars?_eq_some_iff,
    (text.toList.splitOn '\n').map NameTable.entryOfLine?, fun others => ?_, ?_⟩
  · calc List.Forall₂ Enters (text.toList.splitOn '\n') others
        ↔ List.Forall₂ (fun line entry => NameTable.entryOfLine? line = entry)
            (text.toList.splitOn '\n') others := by simp only [entryOfLine?_eq_iff]
      _ ↔ (text.toList.splitOn '\n').map NameTable.entryOfLine? = others := by
          rw [← List.forall₂_map_left_iff (R := Eq), List.forall₂_eq_eq_eq]
      _ ↔ others = (text.toList.splitOn '\n').map NameTable.entryOfLine? := eq_comm
  · rw [List.reduceOption, List.filterMap_map]
    rfl

/-- A plus sign is no digit, but it is read as one, and a name is filed under the key behind it. -/
theorem ofHex?_plus :
    Key.ofHex? "+1" = some ⟨1⟩ ∧ (∀ key, ¬ Spelled [] "+1".toList key) ∧
      (NameTable.parse "+1 minus").get? ⟨1⟩ = some "minus" := by
  refine ⟨by decide +kernel, fun key hspelled => ?_, ?_⟩
  · obtain ⟨digits, hdigits, -, hwrites⟩ := ((spelled_iff (.inl rfl)).mp hspelled).parts
    have hplus : '+' ∈ digits := by
      rw [List.nil_append] at hdigits
      rw [← hdigits]
      decide +kernel
    exact absurd (mem_of_writes hwrites '+' hplus) (by decide +kernel)
  · rw [NameTable.parse, get?_ofList]
    decide +kernel

end ScriptRecord.Proofs.NameTable.Lines
