import TypeScribe.Text.Marks

/-!
# Quoted texts

A text as it is shown in a message: between double quotes, with escapes for quotes, backslashes and
everything that cannot be shown by itself.
-/

namespace TypeScribe

/-- The escape of a character by its code point, in the fewest hexadecimal digits. -/
def codePointEscape (c : Char) : List Char :=
  ['\\', 'u', '\x7b'] ++ Nat.toDigits 16 c.toNat ++ ['\x7d']

/-- How a character is shown between quotes. -/
def escape (c : Char) : List Char :=
  if c = '\x00' then ['\\', '0']
  else if c = '\t' then ['\\', 't']
  else if c = '\r' then ['\\', 'r']
  else if c = '\n' then ['\\', 'n']
  else if c = '\\' then ['\\', '\\']
  else if c = '"' then ['\\', '"']
  else if isMark c then codePointEscape c
  else [c]

/-- A text in quotes. -/
def showQuoted (text : String) : String :=
  String.ofList ('"' :: text.toList.flatMap escape ++ ['"'])

end TypeScribe
