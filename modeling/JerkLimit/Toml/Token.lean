/-!
# Toml/Token — the tokens of a TOML text

`tokens?` reads characters one at a time. Blanks are tokens, because parts of a number or a date
must touch; comments leave nothing behind. An atom is a run of other characters, a bare key or a
value that is not quoted.
-/

namespace JerkLimit.Toml

inductive Token where
  | newline
  /-- A run of spaces and tabs; `single` says that it is one space. -/
  | blank (single : Bool)
  | dot
  | equals
  | comma
  | openBracket
  | closeBracket
  | openBrace
  | closeBrace
  | atom (chars : List Char)
  /-- A quoted string; `multi` says that it has three quotes. -/
  | text (multi : Bool) (s : String)
  deriving DecidableEq, Repr

/-- The two kinds of quotes. -/
inductive Quote where
  | basic
  | literal
  deriving DecidableEq, Repr

def Quote.char : Quote → Char
  | basic => '"'
  | literal => '\''

/-- Characters that may stand in comments and strings: no control characters but tabs. -/
def isPlain (c : Char) : Bool := c = '\t' || (' ' ≤ c && c.toNat ≠ 0x7F)

def isBlank (c : Char) : Bool := c = ' ' || c = '\t'

def punctuation? (c : Char) : Option Token :=
  if c = '.' then some .dot
  else if c = '=' then some .equals
  else if c = ',' then some .comma
  else if c = '[' then some .openBracket
  else if c = ']' then some .closeBracket
  else if c = '\x7b' then some .openBrace
  else if c = '\x7d' then some .closeBrace
  else none

/-- Where a reader of characters is; what it has read of a token is in reverse. -/
inductive Lexer where
  | between
  /-- After a carriage return between tokens. -/
  | carriage
  | blanks (single : Bool)
  | comment
  | atom (chars : List Char)
  /-- After one or two opening quotes. -/
  | opening (q : Quote) (count : Nat)
  /-- Just after three opening quotes. -/
  | first (q : Quote)
  | firstCarriage (q : Quote)
  | line (q : Quote) (chars : List Char)
  /-- In a block, after some quotes in a row. -/
  | block (q : Quote) (chars : List Char) (quotes : Nat)
  | blockCarriage (q : Quote) (chars : List Char)
  | escape (multi : Bool) (chars : List Char)
  /-- Within the digits of an escaped code point. -/
  | codePoint (multi : Bool) (chars : List Char) (missing value : Nat)
  /-- After a backslash that hides blanks and line breaks. -/
  | hidden (chars : List Char) (lineEnded : Bool)
  | hiddenCarriage (chars : List Char)

namespace Lexer

/-- A character after the end of a token. -/
def start (c : Char) (done : List Token) : Lexer × List Token :=
  if isBlank c then (blanks (c = ' '), done)
  else if c = '\n' then (between, .newline :: done)
  else if c = '\r' then (carriage, done)
  else if c = '#' then (comment, done)
  else if c = '"' then (opening .basic 1, done)
  else if c = '\'' then (opening .literal 1, done)
  else
    match punctuation? c with
    | some t => (between, t :: done)
    | none => (atom [c], done)

/-- Whether an atom ends before a character. -/
def endsAtom (c : Char) : Bool :=
  isBlank c || c = '\n' || c = '\r' || c = '#' || c = '"' || c = '\'' || (punctuation? c).isSome

def string (multi : Bool) (chars : List Char) : Token := .text multi (String.ofList chars.reverse)

/-- What an escaped letter stands for. -/
def escaped? (c : Char) : Option Char :=
  if c = 'b' then some '\x08'
  else if c = 't' then some '\t'
  else if c = 'n' then some '\n'
  else if c = 'f' then some '\x0c'
  else if c = 'r' then some '\r'
  else if c = 'e' then some '\x1b'
  else if c = '"' then some '"'
  else if c = '\\' then some '\\'
  else none

/-- How many digits an escaped code point has. -/
def codeDigits? (c : Char) : Option Nat :=
  if c = 'x' then some 2 else if c = 'u' then some 4 else if c = 'U' then some 8 else none

def hexDigit? (c : Char) : Option Nat :=
  if '0' ≤ c && c ≤ '9' then some (c.toNat - 48)
  else if 'a' ≤ c && c ≤ 'f' then some (c.toNat - 87)
  else if 'A' ≤ c && c ≤ 'F' then some (c.toNat - 55)
  else none

/-- The character with a number, if there is one. -/
def char? (n : Nat) : Option Char := if n.isValidChar then some (Char.ofNat n) else none

/-- Back to the string that an escape is in. -/
def resume (multi : Bool) (chars : List Char) : Lexer :=
  if multi then .block .basic chars 0 else line .basic chars

/-- A character in a string of one line. -/
def inLine (q : Quote) (chars : List Char) (c : Char) (done : List Token) :
    Option (Lexer × List Token) :=
  if c = q.char then some (between, string false chars :: done)
  else if c = '\\' && q = .basic then some (escape false chars, done)
  else if isPlain c then some (line q (c :: chars), done)
  else none

/-- A character in a block. Up to two quotes in a row are content, also before the closing three. -/
def inBlock (q : Quote) (chars : List Char) (quotes : Nat) (c : Char) (done : List Token) :
    Option (Lexer × List Token) :=
  let closed := string true (List.replicate (quotes - 3) q.char ++ chars)
  let content := List.replicate quotes q.char ++ chars
  if c = q.char then
    if quotes < 4 then some (.block q chars (quotes + 1), done)
    else some (between, string true (q.char :: q.char :: chars) :: done)
  else if 3 ≤ quotes then some (start c (closed :: done))
  else if c = '\\' && q = .basic then some (escape true content, done)
  else if c = '\r' then some (blockCarriage q content, done)
  else if c = '\n' || isPlain c then some (.block q (c :: content) 0, done)
  else none

/-- A character after a backslash. -/
def inEscape (multi : Bool) (chars : List Char) (c : Char) : Option Lexer :=
  match escaped? c, codeDigits? c with
  | some e, _ => some (resume multi (e :: chars))
  | none, some n => some (codePoint multi chars n 0)
  | none, none =>
    if !multi then none
    else if isBlank c then some (hidden chars false)
    else if c = '\n' then some (hidden chars true)
    else if c = '\r' then some (hiddenCarriage chars)
    else none

/-- Reads one character. The finished tokens are in reverse. -/
def step : Lexer × List Token → Char → Option (Lexer × List Token)
  | (between, done), c => some (start c done)
  | (carriage, done), c => if c = '\n' then some (between, .newline :: done) else none
  | (blanks single, done), c =>
    if isBlank c then some (blanks false, done) else some (start c (.blank single :: done))
  | (comment, done), c =>
    if c = '\n' || c = '\r' then some (start c done)
    else if isPlain c then some (comment, done)
    else none
  | (atom chars, done), c =>
    if endsAtom c then some (start c (.atom chars.reverse :: done))
    else some (atom (c :: chars), done)
  | (opening q count, done), c =>
    if c = q.char then some (if count = 1 then opening q 2 else first q, done)
    else if count = 1 then inLine q [] c done
    else some (start c (string false [] :: done))
  | (first q, done), c =>
    if c = '\n' then some (.block q [] 0, done)
    else if c = '\r' then some (firstCarriage q, done)
    else inBlock q [] 0 c done
  | (firstCarriage q, done), c => if c = '\n' then some (.block q [] 0, done) else none
  | (line q chars, done), c => inLine q chars c done
  | (.block q chars quotes, done), c => inBlock q chars quotes c done
  | (blockCarriage q chars, done), c =>
    if c = '\n' then some (.block q ('\n' :: '\r' :: chars) 0, done) else none
  | (escape multi chars, done), c => (inEscape multi chars c).map (·, done)
  | (codePoint multi chars missing value, done), c => do
    let value := value * 16 + (← hexDigit? c)
    if missing ≤ 1 then return (resume multi ((← char? value) :: chars), done)
    else return (codePoint multi chars (missing - 1) value, done)
  | (hidden chars lineEnded, done), c =>
    if isBlank c then some (hidden chars lineEnded, done)
    else if c = '\n' then some (hidden chars true, done)
    else if c = '\r' then some (hiddenCarriage chars, done)
    else if lineEnded then inBlock .basic chars 0 c done
    else none
  | (hiddenCarriage chars, done), c => if c = '\n' then some (hidden chars true, done) else none

/-- The tokens at the end of the text, which must not be inside a string. -/
def finish : Lexer × List Token → Option (List Token)
  | (between, done) | (comment, done) => some done.reverse
  | (blanks single, done) => some (.blank single :: done).reverse
  | (atom chars, done) => some (.atom chars.reverse :: done).reverse
  | (opening _ 2, done) => some (string false [] :: done).reverse
  | (.block q chars quotes, done) =>
    if 3 ≤ quotes then
      some (string true (List.replicate (quotes - 3) q.char ++ chars) :: done).reverse
    else none
  | _ => none

end Lexer

/-- The tokens of a text. A byte order mark at its start is skipped. -/
def tokens? (text : String) : Option (List Token) := do
  let chars :=
    match text.toList with
    | '\ufeff' :: chars => chars
    | chars => chars
  Lexer.finish (← chars.foldlM Lexer.step (.between, []))

end JerkLimit.Toml
