import Interpose.Text.Hex
import Interpose.Text.Unprintable

/-!
# Quoted text

Strings and characters between quotation marks, in a form in which every character can be seen:
the usual one-letter escapes, and the code point in braces for a character without a glyph.

## Main definitions

* `escapeChar` — one character, given the mark that encloses the text
* `quoteString`, `quoteChar` — a string in double quotes, a character in single quotes
-/

namespace Interpose

/-- The escape of a character that has a letter of its own for it. -/
def namedEscape? (c : Char) : Option Char :=
  if c = '\\' then some '\\'
  else if c = '\n' then some 'n'
  else if c = '\t' then some 't'
  else if c = '\r' then some 'r'
  else if c.toNat = 0 then some '0'
  else none

/-- A character inside a text enclosed in `mark`. -/
def escapeChar (mark c : Char) : List Char :=
  match if c = mark then some c else namedEscape? c with
  | some letter => ['\\', letter]
  | none =>
    if isUnprintable c then
      '\\' :: 'u' :: '\x7b' :: Nat.toDigits 16 c.toNat ++ ['\x7d']
    else [c]

/-- A string in double quotes. -/
def quoteString (text : String) : String :=
  String.ofList ('"' :: text.toList.flatMap (escapeChar '"') ++ ['"'])

/-- A character in single quotes. -/
def quoteChar (c : Char) : String :=
  String.ofList ('\'' :: escapeChar '\'' c ++ ['\''])

end Interpose
