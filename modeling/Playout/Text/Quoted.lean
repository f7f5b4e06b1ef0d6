import Playout.Text.Blank
import Playout.Text.Combining
import Playout.Text.Hex

/-!
# Quoted names in diagnostic texts

A quoted name keeps the characters that print on their own and escapes the others, so that the text
stays on one line and every character of it can be seen. Tab, line feed, carriage return, the quote
and the backslash have short escapes, the null character is written as a backslash and zero, and
every other hidden character by its code point.
-/

namespace Playout.Quoted

/-- The lower-case hexadecimal digits of a number, without leading zeros. -/
def codeDigits (n : Nat) : List Char :=
  match (Hex.ofNat 8 n).dropWhile (· == '0') with
  | [] => ['0']
  | ds => ds

/-- A character is hidden if it leaves nothing on the page or joins the character before it. -/
def isHidden (c : Char) : Bool :=
  Text.isBlank c || Text.isCombining c

def escape (c : Char) : List Char :=
  match c with
  | '\x00' => ['\\', '0']
  | '\t' => ['\\', 't']
  | '\n' => ['\\', 'n']
  | '\r' => ['\\', 'r']
  | '"' => ['\\', '"']
  | '\\' => ['\\', '\\']
  | c =>
    if isHidden c then ['\\', 'u', '\x7b'] ++ codeDigits c.toNat ++ ['\x7d']
    else [c]

def quote (s : String) : String :=
  String.ofList ('"' :: s.toList.flatMap escape ++ ['"'])

/-- Quoted names in brackets, separated by a comma and a space. -/
def quoteList (names : List String) : String :=
  "[" ++ String.intercalate ", " (names.map quote) ++ "]"

end Playout.Quoted
