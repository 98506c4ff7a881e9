import JerkLimit.Json.Number
import JerkLimit.Json.Text

/-!
# Json/Token — the tokens of a JSON text

`tokens?` reads bytes one at a time. Quotes open a string; punctuation stands for itself; blanks
separate; everything else is a word, which has to be a number, `true`, `false` or `null`.
-/

namespace JerkLimit.Json

inductive Token where
  | openArray
  | closeArray
  | openObject
  | closeObject
  | colon
  | comma
  | null
  | bool (b : Bool)
  | number (x : Option Float)
  | string (s : Option String)

namespace Token

/-- The token that a byte is on its own. -/
def punctuation? (b : UInt8) : Option Token :=
  if b = 91 then some openArray
  else if b = 93 then some closeArray
  else if b = 123 then some openObject
  else if b = 125 then some closeObject
  else if b = 58 then some colon
  else if b = 44 then some comma
  else none

def word? (bytes : List UInt8) : Option Token :=
  if bytes = "true".toUTF8.toList then some (bool true)
  else if bytes = "false".toUTF8.toList then some (bool false)
  else if bytes = "null".toUTF8.toList then some null
  else (Numeral.ofBytes? bytes).map fun n => number n.value

end Token

def isBlank (b : UInt8) : Bool := b = 32 || b = 9 || b = 10 || b = 13

/-- Where a reader of bytes is; what it has read of a token is in reverse. -/
inductive Lexer where
  | between
  | word (bytes : List UInt8)
  | text (pieces : List Piece)
  | escape (pieces : List Piece)
  /-- Within the four digits of an escaped unit. -/
  | unit (pieces : List Piece) (missing value : Nat)

namespace Lexer

/-- A byte after the end of a token. -/
def start (b : UInt8) (done : List Token) : Lexer × List Token :=
  if isBlank b then (between, done)
  else if b = 34 then (text [], done)
  else
    match Token.punctuation? b with
    | some t => (between, t :: done)
    | none => (word [b], done)

/-- What an escaped letter stands for. -/
def escaped? (b : UInt8) : Option UInt8 :=
  if b = 34 || b = 92 || b = 47 then some b
  else if b = 98 then some 8
  else if b = 102 then some 12
  else if b = 110 then some 10
  else if b = 114 then some 13
  else if b = 116 then some 9
  else none

def hexDigit? (b : UInt8) : Option Nat :=
  if 48 ≤ b && b ≤ 57 then some (b.toNat - 48)
  else if 97 ≤ b && b ≤ 102 then some (b.toNat - 87)
  else if 65 ≤ b && b ≤ 70 then some (b.toNat - 55)
  else none

/-- Reads one byte. The finished tokens are in reverse. -/
def step : Lexer × List Token → UInt8 → Option (Lexer × List Token)
  | (between, done), b => some (start b done)
  | (word bytes, done), b =>
    if isBlank b || b = 34 || (Token.punctuation? b).isSome then
      (Token.word? bytes.reverse).map fun t => start b (t :: done)
    else some (word (b :: bytes), done)
  | (text pieces, done), b =>
    if b = 34 then some (between, .string (Piece.decode pieces.reverse) :: done)
    else if b = 92 then some (escape pieces, done)
    else if b < 32 then none
    else some (text (.byte b :: pieces), done)
  | (escape pieces, done), b =>
    if b = 117 then some (unit pieces 4 0, done)
    else (escaped? b).map fun c => (text (.byte c :: pieces), done)
  | (unit pieces missing value, done), b =>
    (hexDigit? b).map fun d =>
      let value := value * 16 + d
      if missing ≤ 1 then (text (.unit value :: pieces), done)
      else (unit pieces (missing - 1) value, done)

/-- The tokens at the end of the text, which must not be inside a string. -/
def finish : Lexer × List Token → Option (List Token)
  | (between, done) => some done.reverse
  | (word bytes, done) => (Token.word? bytes.reverse).map fun t => (t :: done).reverse
  | _ => none

end Lexer

def tokens? (bytes : List UInt8) : Option (List Token) := do
  Lexer.finish (← bytes.foldlM Lexer.step (.between, []))

end JerkLimit.Json
