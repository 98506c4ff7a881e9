/-!
# Json/Text — strings in JSON

Between its quotes a string is a list of `Piece`s: bytes as they stand, and 16-bit units that were
escaped. `Piece.decode` makes text of them, if surrogate units come in pairs and the bytes are
UTF-8. `quote` is the written form of a text.
-/

namespace JerkLimit.Json

inductive Piece where
  | byte (b : UInt8)
  /-- An escaped 16-bit unit. -/
  | unit (u : Nat)
  deriving DecidableEq, Repr

namespace Piece

def isLeading (u : Nat) : Bool := 0xD800 ≤ u && u ≤ 0xDBFF

def isTrailing (u : Nat) : Bool := 0xDC00 ≤ u && u ≤ 0xDFFF

/-- The bytes of a character. -/
def charBytes (n : Nat) : List UInt8 := (Char.ofNat n).toString.toUTF8.toList

/-- The bytes of all pieces. A surrogate unit that is not part of a pair has none. -/
def bytes : List Piece → Option (List UInt8)
  | [] => some []
  | byte b :: ps => (bytes ps).map (b :: ·)
  | unit u :: unit v :: ps =>
    if isLeading u then
      if isTrailing v then
        (bytes ps).map (charBytes (0x10000 + (u - 0xD800) * 0x400 + (v - 0xDC00)) ++ ·)
      else none
    else if isTrailing u then none
    else (bytes (unit v :: ps)).map (charBytes u ++ ·)
  | unit u :: ps =>
    if isLeading u || isTrailing u then none else (bytes ps).map (charBytes u ++ ·)

/-- The text of all pieces. -/
def decode (ps : List Piece) : Option String := do
  String.fromUTF8? ⟨(← bytes ps).toArray⟩

end Piece

/-- Two lower-case hexadecimal digits. -/
def hexPair (n : Nat) : List Char := [Nat.digitChar (n / 16), Nat.digitChar (n % 16)]

/-- The characters that stand for one character of a quoted text. -/
def escape (c : Char) : List Char :=
  if c = '"' then ['\\', '"']
  else if c = '\\' then ['\\', '\\']
  else if c = '\n' then ['\\', 'n']
  else if c = '\r' then ['\\', 'r']
  else if c = '\t' then ['\\', 't']
  else if c.toNat = 8 then ['\\', 'b']
  else if c.toNat = 12 then ['\\', 'f']
  else if c.toNat < 32 then ['\\', 'u', '0', '0'] ++ hexPair c.toNat
  else [c]

def quote (s : String) : String :=
  String.ofList ('"' :: s.toList.flatMap escape ++ ['"'])

end JerkLimit.Json
