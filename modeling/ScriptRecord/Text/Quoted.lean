import ScriptRecord.Text.Hex
import ScriptRecord.Text.Hidden
/-!
# Quoted text

Characters and strings between quotes, with escapes for the quote itself, the backslash, the
common controls and every character that would not show.
-/

namespace ScriptRecord.Text

/-- A character between quotes of the kind `quote`. -/
def escape (quote c : Char) : List Char :=
  if c = '\x00' then ['\\', '0']
  else if c = '\t' then ['\\', 't']
  else if c = '\n' then ['\\', 'n']
  else if c = '\r' then ['\\', 'r']
  else if c = '\\' ∨ c = quote then ['\\', c]
  else if isHidden c then
    ['\\', 'u', '\x7b'] ++ Hex.digits Hex.lowerDigit c.toNat ++ ['\x7d']
  else [c]

/-- A character in single quotes. -/
def quotedChar (c : Char) : String :=
  String.ofList ('\'' :: escape '\'' c ++ ['\''])

/-- A text in double quotes. -/
def quoted (text : String) : String :=
  String.ofList ('"' :: text.toList.flatMap (escape '"') ++ ['"'])

end ScriptRecord.Text
