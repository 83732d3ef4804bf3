import AliasReport.Text.CharacterClass

/-! # Quoted text for messages

* **`quote s`** — `s` between double quotes on one line: a backslash before quotes and
  backslashes, short escapes for null, tab, line feed and carriage return, and `\u` with the code
  point in braces for every other character that has no glyph or attaches to the one before it.
-/

namespace AliasReport.Text

/-- The escape that names a character by its code point, in lower-case hexadecimal. -/
def codePointEscape (c : Char) : List Char :=
  '\\' :: 'u' :: '\x7b' :: Nat.toDigits 16 c.toNat ++ ['\x7d']

/-- One character as it stands inside quotes. -/
def quoteChar (c : Char) : List Char :=
  if c = '"' ∨ c = '\\' then ['\\', c]
  else if c = '\x00' then ['\\', '0']
  else if c = '\t' then ['\\', 't']
  else if c = '\n' then ['\\', 'n']
  else if c = '\r' then ['\\', 'r']
  else if extendsGrapheme c || !isGraphic c then codePointEscape c
  else [c]

/-- Text between double quotes, escaped to stay on one line. -/
def quote (s : String) : String :=
  String.ofList ('"' :: s.toList.flatMap quoteChar ++ ['"'])

end AliasReport.Text
