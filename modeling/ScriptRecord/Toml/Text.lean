import ScriptRecord.Text.Hex
/-!
# TOML strings

Strings stand between double quotes, where escapes count, or between single quotes, where they do
not. Three quotes of a kind enclose text of several lines. A text is written between the plainest
quotes that need no escapes, and with escapes if there are none.
-/

namespace ScriptRecord.Toml

/-- Whether a character may stand for itself in strings and comments. -/
def isPlain (c : Char) : Bool :=
  c == '\t' || (0x20 ≤ c.toNat && c.toNat != 0x7F)

/-- Drop blanks. -/
def skipSpace (s : List Char) : List Char :=
  s.dropWhile fun c => c == ' ' || c == '\t'

/-- Drop the end of a line. -/
def lineEnd? : List Char → Option (List Char)
  | '\n' :: rest => some rest
  | '\r' :: '\n' :: rest => some rest
  | _ => none

/-- The character of a one-letter escape. -/
def escaped? (c : Char) : Option Char :=
  match c with
  | '"' => some '"'
  | '\\' => some '\\'
  | 'b' => some '\x08'
  | 'f' => some '\x0C'
  | 'n' => some '\n'
  | 'r' => some '\r'
  | 't' => some '\t'
  | _ => none

/-- The character whose number is spelled out. -/
def numbered? (digits : List Char) : Option Char := do
  let n ← Hex.valueFrom? 0 digits
  if n.isValidChar then some (Char.ofNat n) else none

/-- The text up to the closing double quote, after `done` in reverse, and what follows it. -/
def basicOnto (done : List Char) : List Char → Option (List Char × List Char)
  | '"' :: rest => some (done.reverse, rest)
  | '\\' :: 'u' :: a :: b :: c :: d :: rest =>
    match numbered? [a, b, c, d] with
    | some e => basicOnto (e :: done) rest
    | none => none
  | '\\' :: 'U' :: a :: b :: c :: d :: e :: f :: g :: h :: rest =>
    match numbered? [a, b, c, d, e, f, g, h] with
    | some e => basicOnto (e :: done) rest
    | none => none
  | '\\' :: c :: rest =>
    match escaped? c with
    | some e => basicOnto (e :: done) rest
    | none => none
  | c :: rest => if isPlain c ∧ c ≠ '\\' then basicOnto (c :: done) rest else none
  | [] => none

/-- The text up to three double quotes, and what follows them. One or two quotes more belong to
the text. A backslash at the end of a line takes away all white space that follows it; `joining`
says that this is going on. -/
def longBasicOnto (joining : Bool) (done : List Char) : List Char → Option (List Char × List Char)
  | '"' :: '"' :: '"' :: '"' :: '"' :: rest => some (('"' :: '"' :: done).reverse, rest)
  | '"' :: '"' :: '"' :: '"' :: rest => some (('"' :: done).reverse, rest)
  | '"' :: '"' :: '"' :: rest => some (done.reverse, rest)
  | '\\' :: 'u' :: a :: b :: c :: d :: rest =>
    match numbered? [a, b, c, d] with
    | some e => longBasicOnto false (e :: done) rest
    | none => none
  | '\\' :: 'U' :: a :: b :: c :: d :: e :: f :: g :: h :: rest =>
    match numbered? [a, b, c, d, e, f, g, h] with
    | some e => longBasicOnto false (e :: done) rest
    | none => none
  | '\\' :: c :: rest =>
    match escaped? c with
    | some e => longBasicOnto false (e :: done) rest
    | none =>
      if (lineEnd? (skipSpace (c :: rest))).isSome then longBasicOnto true done (c :: rest)
      else none
  | '\r' :: '\n' :: rest => longBasicOnto joining (if joining then done else '\n' :: done) rest
  | c :: rest =>
    if joining ∧ (c = ' ' ∨ c = '\t' ∨ c = '\n') then longBasicOnto true done rest
    else if (isPlain c ∧ c ≠ '\\') ∨ c = '\n' then longBasicOnto false (c :: done) rest
    else none
  | [] => none

/-- The text up to the closing single quote, and what follows it. -/
def literalOnto (done : List Char) : List Char → Option (List Char × List Char)
  | '\'' :: rest => some (done.reverse, rest)
  | c :: rest => if isPlain c then literalOnto (c :: done) rest else none
  | [] => none

/-- The text up to three single quotes, and what follows them. One or two quotes more belong to
the text. -/
def longLiteralOnto (done : List Char) : List Char → Option (List Char × List Char)
  | '\'' :: '\'' :: '\'' :: '\'' :: '\'' :: rest => some (('\'' :: '\'' :: done).reverse, rest)
  | '\'' :: '\'' :: '\'' :: '\'' :: rest => some (('\'' :: done).reverse, rest)
  | '\'' :: '\'' :: '\'' :: rest => some (done.reverse, rest)
  | '\r' :: '\n' :: rest => longLiteralOnto ('\n' :: done) rest
  | c :: rest => if isPlain c ∨ c = '\n' then longLiteralOnto (c :: done) rest else none
  | [] => none

/-- Read a string. The end of a line right after three quotes is no part of the text. -/
def string? : List Char → Option (List Char × List Char)
  | '"' :: '"' :: '"' :: rest => longBasicOnto false [] ((lineEnd? rest).getD rest)
  | '"' :: rest => basicOnto [] rest
  | '\'' :: '\'' :: '\'' :: rest => longLiteralOnto [] ((lineEnd? rest).getD rest)
  | '\'' :: rest => literalOnto [] rest
  | _ => none

/-- The most quotes of a kind that follow each other in a text, where `run` of them have just been
passed. -/
def longestRun (quote : Char) (run : Nat) : List Char → Nat
  | [] => run
  | c :: rest =>
    if c = quote then longestRun quote (run + 1) rest else max run (longestRun quote 0 rest)

/-- A character that only an escape can stand for. -/
def needsEscape (c : Char) : Bool :=
  c != '\t' && c != '\n' && (c.toNat < 0x20 || c.toNat == 0x7F)

/-- A text with escapes, where `run` double quotes have just been passed. Text of several lines
keeps line feeds and up to two double quotes in a row. -/
def escapeFrom (long : Bool) (run : Nat) : List Char → List Char
  | [] => []
  | c :: rest =>
    if c = '"' then
      if long ∧ run < 2 then c :: escapeFrom long (run + 1) rest
      else '\\' :: '"' :: escapeFrom long 0 rest
    else
      let written :=
        if c = '\\' then ['\\', '\\']
        else if c = '\x08' then ['\\', 'b']
        else if c = '\t' then ['\\', 't']
        else if c = '\n' ∧ !long then ['\\', 'n']
        else if c = '\x0C' then ['\\', 'f']
        else if c = '\r' then ['\\', 'r']
        else if needsEscape c then '\\' :: 'u' :: (Hex.digits Hex.upperDigit c.toNat).leftpad 4 '0'
        else [c]
      written ++ escapeFrom long 0 rest

/-- A text as a string. -/
def quote (text : String) : String :=
  let s := text.toList
  let lines := s.contains '\n'
  let escapes := s.any needsEscape
  let backslash := s.contains '\\'
  let doubles := longestRun '"' 0 s
  let singles := longestRun '\'' 0 s
  let gap := if lines then ['\n'] else []
  String.ofList <|
    if !escapes && !backslash && doubles == 0 && !lines then
      ['"'] ++ escapeFrom false 0 s ++ ['"']
    else if !escapes && singles == 0 && !lines then ['\''] ++ s ++ ['\'']
    else if (!escapes && !backslash && doubles ≤ 2) || (lines && (escapes || 2 < singles)) then
      ['"', '"', '"'] ++ gap ++ escapeFrom true 0 s ++ ['"', '"', '"']
    else if !escapes && singles ≤ 2 then
      ['\'', '\'', '\''] ++ gap ++ s ++ ['\'', '\'', '\'']
    else ['"'] ++ escapeFrom false 0 s ++ ['"']

end ScriptRecord.Toml
