import ShaderIncludes.Text.Printable

/-!
# Quoted text

Messages show a text between double quotes. Quote, backslash, tab, line feed, carriage return and
NUL have a short escape; a character without an image of its own is shown by its number, and every
other one as it is. A list of texts is shown between brackets.
-/
namespace ShaderIncludes.Text

/-- The character by its number: lower-case hexadecimal digits without padding, in braces. -/
def escapeByNumber (c : Char) : List Char :=
  ['\\', 'u', '{'] ++ Nat.toDigits 16 c.toNat ++ ['}']

/-- One character of a quoted text. -/
def escape (c : Char) : List Char :=
  if c = '"' then ['\\', '"']
  else if c = '\\' then ['\\', '\\']
  else if c = '\t' then ['\\', 't']
  else if c = '\n' then ['\\', 'n']
  else if c = '\r' then ['\\', 'r']
  else if c = Char.ofNat 0 then ['\\', '0']
  else if isPrintable c then [c]
  else escapeByNumber c

/-- The text between double quotes, each character escaped where it has to be. -/
def quote (s : String) : String :=
  String.ofList ('"' :: s.toList.flatMap escape ++ ['"'])

/-- The texts, each quoted, between brackets and parted by commas. -/
def quoteList (texts : List String) : String :=
  "[" ++ ", ".intercalate (texts.map quote) ++ "]"

end ShaderIncludes.Text
