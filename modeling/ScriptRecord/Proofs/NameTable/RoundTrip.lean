import Mathlib.Data.Finset.Card
import ScriptRecord.Proofs.NameTable.Lines
/-!
# Writing a name list

`Written` relates pairs of a key and a name to the lines they are written in, one line for
each pair, with blank lines and comments among them.  A list that is written in this way is
read as the pairs, in their order (`entriesOfText_written`), whatever else stands in the
names: number signs, blanks or words that would be keys themselves.
-/

namespace ScriptRecord.Proofs.NameTable.RoundTrip

open ScriptRecord.Proofs.Checksum.Spelling
open ScriptRecord.Proofs.NameTable.Layering
open ScriptRecord.Proofs.NameTable.Lines
open ScriptRecord.Proofs.Text.Trimming

/-- White space within a line. -/
def Gap (text : List Char) : Prop :=
  Blank text ∧ '\n' ∉ text

/-- A name that fits on a line and has no white space at either end. -/
def Proper (name : String) : Prop :=
  Tight name.toList ∧ '\n' ∉ name.toList

instance (text : List Char) : Decidable (Gap text) :=
  inferInstanceAs (Decidable (Blank text ∧ '\n' ∉ text))

instance (name : String) : Decidable (Proper name) :=
  inferInstanceAs (Decidable (Tight name.toList ∧ '\n' ∉ name.toList))

/-- The lines that pairs are written in. -/
inductive Written : List (Key × String) → List (List Char) → Prop where
  | done : Written [] []
  | blank {pairs : List (Key × String)} {lines : List (List Char)} {line : List Char} :
      Gap line → Written pairs lines → Written pairs (line :: lines)
  | comment {pairs : List (Key × String)} {lines : List (List Char)} {front rest : List Char} :
      Gap front → '\n' ∉ rest → Written pairs lines →
      Written pairs ((front ++ '#' :: rest) :: lines)
  | pair {pairs : List (Key × String)} {lines : List (List Char)}
      {front marker gap back : List Char} {key : Key} {name : String} : Gap front →
      marker ∈ markers → Gap gap → gap ≠ [] → Gap back → Written pairs lines →
      Written ((key, name) :: pairs)
        ((front ++ (marker ++ key.toHex.toList ++ gap ++ name.toList) ++ back) :: lines)

/-- The text of lines, with a line feed between one and the next.  It ends in a line feed where the
last line is empty. -/
def textOf (lines : List (List Char)) : String :=
  String.ofList (['\n'].intercalate lines)

variable {pairs : List (Key × String)} {lines : List (List Char)}

/-! ## Tables -/

theorem mem_names_ofList (pairs : List (Key × String)) (key : Key) :
    key ∈ (NameTable.ofList pairs).names ↔ key ∈ pairs.map Prod.fst := by
  induction pairs using List.reverseRecOn with
  | nil => simp [NameTable.ofList, NameTable.empty]
  | append_singleton pairs pair ih =>
      calc key ∈ (NameTable.ofList (pairs ++ [pair])).names
          ↔ key ∈ ((NameTable.ofList pairs).insert pair.1 pair.2).names := by
            rw [NameTable.ofList, List.foldl_append]
            rfl
        _ ↔ key = pair.1 ∨ key ∈ pairs.map Prod.fst := by
            rw [NameTable.insert, Std.HashMap.mem_insert, ih, beq_iff_eq, eq_comm]
        _ ↔ key ∈ (pairs ++ [pair]).map Prod.fst := by
            rw [List.map_append, List.mem_append, List.map_singleton, List.mem_singleton, or_comm]

/-- A table counts every key once. -/
theorem size_ofList (pairs : List (Key × String)) :
    (NameTable.ofList pairs).size = (pairs.map Prod.fst).toFinset.card := by
  induction pairs using List.reverseRecOn with
  | nil => exact Std.HashMap.size_empty
  | append_singleton pairs pair ih =>
      have hkeys : ((pairs ++ [pair]).map Prod.fst).toFinset =
          insert pair.1 (pairs.map Prod.fst).toFinset := by
        ext key
        simp
      have hsize : (NameTable.ofList (pairs ++ [pair])).size =
          if pair.1 ∈ (NameTable.ofList pairs).names then (NameTable.ofList pairs).size
          else (NameTable.ofList pairs).size + 1 := by
        rw [NameTable.ofList, List.foldl_append, ← NameTable.ofList]
        exact Std.HashMap.size_insert
      rw [hsize, hkeys, ih, Finset.card_insert_eq_ite]
      simp only [mem_names_ofList, List.mem_toFinset]

/-! ## Lines -/

/-- The line of a pair is read as this pair. -/
theorem entryOfLine?_pair {front marker gap back : List Char} {key : Key} {name : String}
    (hfront : Blank front) (hmarker : marker ∈ markers) (hgap : Blank gap) (hne : gap ≠ [])
    (hname : Tight name.toList) (hback : Blank back) :
    NameTable.entryOfLine? (front ++ (marker ++ key.toHex.toList ++ gap ++ name.toList) ++ back) =
      some (key, name) := by
  have hword := ofHexChars?_eq_some_iff.mp (ofHexChars?_toHex hmarker key)
  have hline := entryOfLine?_keyed hfront hword hgap hne hname hback
  rwa [String.ofList_toList] at hline

theorem no_lineFeed_toHex {marker : List Char} (hmarker : marker ∈ markers) (key : Key) :
    '\n' ∉ marker ++ key.toHex.toList := fun h => by
  have hword := ofHexChars?_eq_some_iff.mp (ofHexChars?_toHex hmarker key)
  exact absurd (hword.solid.2 '\n' h).1 (by decide +kernel)

theorem Written.no_lineFeed (h : Written pairs lines) (hnames : ∀ pair ∈ pairs, Proper pair.2) :
    ∀ line ∈ lines, '\n' ∉ line := by
  induction h with
  | done => exact nofun
  | blank hline _ ih => exact List.forall_mem_cons.mpr ⟨hline.2, ih hnames⟩
  | comment hfront hrest _ ih =>
      exact List.forall_mem_cons.mpr ⟨by simp [hfront.2, hrest], ih hnames⟩
  | @pair pairs lines front marker gap back key name hfront hmarker hgap _ hback _ ih =>
      obtain ⟨hname, hothers⟩ := List.forall_mem_cons.mp hnames
      have hkey := no_lineFeed_toHex hmarker key
      refine List.forall_mem_cons.mpr ⟨?_, ih hothers⟩
      simp only [List.mem_append] at hkey ⊢
      simp only [hkey, hfront.2, hgap.2, hname.2, hback.2, or_self, not_false_eq_true]

theorem Written.entries (h : Written pairs lines) (hnames : ∀ pair ∈ pairs, Proper pair.2) :
    lines.filterMap NameTable.entryOfLine? = pairs := by
  induction h with
  | done => rfl
  | blank hline _ ih =>
      rw [List.filterMap_cons_none (entryOfLine?_blank hline.1), ih hnames]
  | @comment _ _ _ rest hfront _ _ ih =>
      rw [List.filterMap_cons_none (entryOfLine?_comment hfront.1 rest), ih hnames]
  | pair hfront hmarker hgap hne hback _ ih =>
      obtain ⟨hname, hothers⟩ := List.forall_mem_cons.mp hnames
      rw [List.filterMap_cons_some
        (entryOfLine?_pair hfront.1 hmarker hgap.1 hne hname.1 hback.1), ih hothers]

theorem entriesOfText_written (h : Written pairs lines) (hnames : ∀ pair ∈ pairs, Proper pair.2) :
    NameTable.entriesOfText (['\n'].intercalate lines) = pairs := by
  unfold NameTable.entriesOfText
  cases lines with
  | nil =>
      cases h
      decide +kernel
  | cons line lines =>
      rw [List.splitOn_intercalate '\n' (h.no_lineFeed hnames) (List.cons_ne_nil line lines),
        h.entries hnames]

/-- A list that pairs are written in is read as the pairs: it knows the last name of every key,
and it has as many names as there are keys. -/
theorem parse_written (hnames : ∀ pair ∈ pairs, Proper pair.2) (hwritten : Written pairs lines) :
    let table := NameTable.parse (textOf lines)
    (∀ key, table.get? key = (NameTable.ofList pairs).get? key) ∧
      (∀ key, table.get? key = pairs.reverse.lookup key) ∧
      table.size = (pairs.map Prod.fst).toFinset.card := by
  intro table
  have htable : table = NameTable.ofList pairs := by
    show NameTable.ofList (NameTable.entriesOfText (textOf lines).toList) = _
    rw [textOf, String.toList_ofList, entriesOfText_written hwritten hnames]
  rw [htable]
  exact ⟨fun key => rfl, get?_ofList pairs, size_ofList pairs⟩

/-- Names that look like comments, keys or the end of a line, and a key that comes back. -/
theorem parse_written_lookalikes :
    let pairs : List (Key × String) :=
      [(⟨16⟩, "00000020 # sixteen"), (⟨0xFFFFFFFF⟩, "# all\rbits"), (⟨16⟩, "0x10")]
    let lines : List (List Char) :=
      [[] ++ '#' :: " names".toList,
        [] ++ ([] ++ (Key.toHex ⟨16⟩).toList ++ [' '] ++ "00000020 # sixteen".toList) ++ [],
        [],
        [] ++ (['0', 'x'] ++ (Key.toHex ⟨0xFFFFFFFF⟩).toList ++ [' ', ' '] ++
          "# all\rbits".toList) ++ ['\r'],
        [] ++ (['0', 'x'] ++ (Key.toHex ⟨16⟩).toList ++ [' '] ++ "0x10".toList) ++ [],
        []]
    let table := NameTable.parse (textOf lines)
    (∀ pair ∈ pairs, Proper pair.2) ∧ Written pairs lines ∧
      textOf lines = "# names\n00000010 00000020 # sixteen\n\n" ++
        "0xFFFFFFFF  # all\rbits\r\n0x00000010 0x10\n" ∧
      table.get? ⟨16⟩ = some "0x10" ∧ table.get? ⟨0xFFFFFFFF⟩ = some "# all\rbits" ∧
      table.get? ⟨32⟩ = none ∧ table.size = 2 := by
  intro pairs lines table
  have hnames : ∀ pair ∈ pairs, Proper pair.2 := by decide +kernel
  have hwritten : Written pairs lines :=
    .comment (by decide) (by decide +kernel) <|
    .pair (by decide) (by decide) (by decide) (by decide) (by decide) <|
    .blank (by decide) <|
    .pair (by decide) (by decide) (by decide) (by decide) (by decide) <|
    .pair (by decide) (by decide) (by decide) (by decide) (by decide) <|
    .blank (by decide) .done
  obtain ⟨-, hget, hsize⟩ := parse_written hnames hwritten
  refine ⟨hnames, hwritten, by decide +kernel, ?_, ?_, ?_, ?_⟩
  · exact (hget ⟨16⟩).trans (by decide +kernel)
  · exact (hget ⟨0xFFFFFFFF⟩).trans (by decide +kernel)
  · exact (hget ⟨32⟩).trans (by decide +kernel)
  · exact hsize.trans (by decide +kernel)

end ScriptRecord.Proofs.NameTable.RoundTrip
