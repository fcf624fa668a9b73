import Enrolment.Text.Visible

/-!
Quoted text, as it appears inside messages.

A quoted string or character shows control characters, characters without a visible form and
grapheme extenders by their code point, so that two different texts never look alike. A string
escapes the double quote and a character the single one.
-/

namespace Enrolment.Text

/-- The lower-case hexadecimal numeral of `n`. -/
def hexNumeral (n : Nat) : List Char := Nat.toDigits 16 n

/-- The form of one character between quotes, where `mark` is the quote around it. -/
def escapeChar (mark c : Char) : List Char :=
  if c = mark || c = '\\' then ['\\', c]
  else if c = '\n' then ['\\', 'n']
  else if c = '\r' then ['\\', 'r']
  else if c = '\t' then ['\\', 't']
  else if c.toNat = 0 then ['\\', '0']
  else if isVisible c && !isExtending c then [c]
  else ['\\', 'u', '\x7b'] ++ hexNumeral c.toNat ++ ['\x7d']

def quoted (s : String) : String :=
  String.ofList ('\x22' :: s.toList.flatMap (escapeChar '\x22') ++ ['\x22'])

def quotedChar (c : Char) : String :=
  String.ofList ('\x27' :: escapeChar '\x27' c ++ ['\x27'])

end Enrolment.Text
