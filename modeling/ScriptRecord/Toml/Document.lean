import ScriptRecord.Toml.Value
/-!
# TOML texts

A text is a table. Its lines are keys with values, and headers that say which table the lines below
them belong to.
-/

namespace ScriptRecord.Toml

/-- What has been read of a text. -/
structure Document where
  root : Members
  /-- The table that lines belong to, by the last header. -/
  under : List String

namespace Document

/-- Add a value at a key of the table that lines belong to. -/
def add? (doc : Document) (path : List String) (key : String) (value : Value) : Option Document := do
  let root ← Members.change? .above (fun _ members => members.add? path key value) doc.under .header
    doc.root
  return { doc with root }

/-- Read the line that `s` starts with, up to what follows its content. -/
def line? (doc : Document) (s : List Char) : Option (Document × List Char) :=
  match s with
  | '[' :: '[' :: rest => do
    match ← key? (min rest.length deepest) rest with
    | ((path, key), ']' :: ']' :: rest) =>
      return (⟨← doc.root.openItem? path key, path ++ [key]⟩, rest)
    | _ => none
  | '[' :: rest => do
    match ← key? (min rest.length deepest) rest with
    | ((path, key), ']' :: rest) => return (⟨← doc.root.openTable? path key, path ++ [key]⟩, rest)
    | _ => none
  | s => do
    match ← key? (min s.length deepest) s with
    | ((path, key), '=' :: rest) =>
      let (value, rest) ← value? (rest.length + 1) deepest (skipSpace rest)
      return (← doc.add? path key value, rest)
    | _ => none

/-- Read the lines of `s`, of which there are no more than `fuel` with content. -/
def lines? (fuel : Nat) (doc : Document) (s : List Char) : Option Document :=
  match fuel with
  | 0 => none
  | fuel + 1 =>
    match skipLines s.length s with
    | [] => some doc
    | s =>
      let next := skipComment s
      if next.isEmpty then some doc
      else
        match doc.line? s with
        | none => none
        | some (doc, rest) =>
          match skipComment (skipSpace rest) with
          | [] => some doc
          | rest => (lineEnd? rest).bind (lines? fuel doc)

end Document

/-- Read a text. A byte order mark may stand in front of it. -/
def parse? (text : String) : Option Members :=
  let s := match text.toList with
    | '\ufeff' :: rest => rest
    | s => s
  (Document.lines? (s.length + 1) ⟨[], []⟩ s).map Document.root

end ScriptRecord.Toml
