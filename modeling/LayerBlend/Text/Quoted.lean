import LayerBlend.Text.Printable
import LayerBlend.Text.Radix

/-!
# Quoted texts

Messages show a piece of text between quotes. `Quoted.encode` uses the apostrophe, and the
double quote only for a text that holds an apostrophe and no double quote. The quote in use and
the backslash are escaped by a backslash, the newline, return and tab by their letters, and every
other unprintable character by its number in hexadecimal digits: two, four or eight of them.
-/

namespace LayerBlend.Text.Quoted

/-- The quote that encloses the text. -/
def quoteFor (s : List Char) : Char :=
  if s.contains '\'' && !s.contains '"' then '"' else '\''

/-- The escape of an unprintable character by its number. -/
def escapeNumber (n : Nat) : List Char :=
  if n < 0x100 then ['\\', 'x'] ++ Radix.writePadded 16 2 n
  else if n < 0x10000 then ['\\', 'u'] ++ Radix.writePadded 16 4 n
  else ['\\', 'U'] ++ Radix.writePadded 16 8 n

/-- One character of the text as it stands between the quotes. -/
def encodeChar (quote c : Char) : List Char :=
  if c = quote || c = '\\' then ['\\', c]
  else if c = '\n' then ['\\', 'n']
  else if c = '\r' then ['\\', 'r']
  else if c = '\t' then ['\\', 't']
  else if isPrintable c then [c]
  else escapeNumber c.toNat

/-- The text between quotes. -/
def encode (s : List Char) : List Char :=
  let quote := quoteFor s
  quote :: s.flatMap (encodeChar quote) ++ [quote]

end LayerBlend.Text.Quoted

namespace LayerBlend.Text

/-- A string between quotes, as messages show it. -/
def quoted (s : String) : String :=
  String.ofList (Quoted.encode s.toList)

end LayerBlend.Text
