import Mathlib
import JerkLimit.Json.Text

/-!
# Proofs/Json/Text — a quoted text is read again

A string goes through three forms: its characters, the pieces between the quotes and the bytes of
the file. `pieces` are those that the written form of a text is read as, and they decode to the text
(`Piece.decode_pieces`), for escaped characters and for all of Unicode.
-/

namespace JerkLimit.Json

/-! ## Bytes -/

/-- The bytes of a text. -/
def utf8 (s : String) : List UInt8 := s.toUTF8.toList

theorem toList_loop (bs : ByteArray) (i : ℕ) (read : List UInt8) :
    ByteArray.toList.loop bs i read = read.reverse ++ bs.data.toList.drop i := by
  induction i, read using ByteArray.toList.loop.induct bs with
  | case1 i read hi ih =>
    have hlt : i < bs.data.toList.length := hi
    have hget : bs.get! i = bs.data.toList[i] := getElem!_pos bs.data i hi
    rw [ByteArray.toList.loop, if_pos hi, ih, List.reverse_cons, List.append_assoc, hget,
      List.singleton_append, List.getElem_cons_drop]
  | case2 i read hi =>
    have hle : bs.data.toList.length ≤ i := Nat.le_of_not_lt hi
    rw [ByteArray.toList.loop, if_neg hi, List.drop_eq_nil_of_le hle, List.append_nil]

theorem toList_eq (bs : ByteArray) : bs.toList = bs.data.toList := toList_loop bs 0 []

theorem utf8_eq (s : String) : utf8 s = s.toList.flatMap String.utf8EncodeChar := by
  rw [utf8, toList_eq, String.toUTF8_eq_toByteArray, ← String.utf8Encode_toList, List.utf8Encode,
    List.data_toByteArray]

@[simp] theorem utf8_append (s t : String) : utf8 (s ++ t) = utf8 s ++ utf8 t := by
  rw [utf8_eq, utf8_eq, utf8_eq, String.toList_append, List.flatMap_append]

@[simp] theorem utf8_ofList (cs : List Char) :
    utf8 (String.ofList cs) = cs.flatMap String.utf8EncodeChar := by
  rw [utf8_eq, String.toList_ofList]

/-- Bytes that are those of a text are read as it. -/
theorem fromUTF8?_utf8 (s : String) : String.fromUTF8? ⟨(utf8 s).toArray⟩ = some s := by
  have hbytes : (⟨(utf8 s).toArray⟩ : ByteArray) = s.toUTF8 := by
    rw [utf8, toList_eq]
  rw [hbytes, String.toUTF8_eq_toByteArray, String.fromUTF8?, dif_pos s.isValidUTF8]
  rfl

/-- A character below 128 is its byte, and the bytes of another one are not below 128. -/
theorem mem_utf8EncodeChar {c : Char} {b : UInt8} (h : b ∈ String.utf8EncodeChar c) :
    b.toNat = c.toNat ∨ 128 ≤ b.toNat := by
  have hval : c.val.toNat = c.toNat := rfl
  rw [String.utf8EncodeChar] at h
  split_ifs at h with h1 h2 h3 <;> simp only [List.mem_cons, List.not_mem_nil, or_false] at h
  · exact .inl (by rw [h, UInt8.toNat_ofNat', hval]; omega)
  · rcases h with rfl | rfl <;> rw [UInt8.toNat_ofNat'] <;> omega
  · rcases h with rfl | rfl | rfl <;> rw [UInt8.toNat_ofNat'] <;> omega
  · rcases h with rfl | rfl | rfl | rfl <;> rw [UInt8.toNat_ofNat'] <;> omega

/-! ## Pieces -/

/-- Whether a character is written with its number. -/
def isNumbered (c : Char) : Bool := c.toNat < 32 && !([8, 9, 10, 12, 13].contains c.toNat)

/-- What the written form of a character is read as. -/
def pieces (c : Char) : List Piece :=
  if isNumbered c then [.unit c.toNat] else (String.utf8EncodeChar c).map .byte

namespace Piece

theorem bytes_map_byte (bs : List UInt8) (ps : List Piece) :
    bytes (bs.map byte ++ ps) = (bytes ps).map (bs ++ ·) := by
  induction bs with
  | nil => simp
  | cons b bs ih =>
    rw [List.map_cons, List.cons_append, bytes, ih, Option.map_map]
    rfl

/-- A small unit stands for itself, whatever follows. -/
theorem bytes_unit {u : ℕ} (hu : u < 32) (ps : List Piece) :
    bytes (unit u :: ps) = (bytes ps).map (charBytes u ++ ·) := by
  have hleading : isLeading u = false := by
    simp only [isLeading, Bool.and_eq_false_iff, decide_eq_false_iff_not]
    omega
  have htrailing : isTrailing u = false := by
    simp only [isTrailing, Bool.and_eq_false_iff, decide_eq_false_iff_not]
    omega
  rcases ps with _ | ⟨b | v, ps⟩ <;> simp [bytes, hleading, htrailing]

theorem charBytes_toNat (c : Char) : charBytes c.toNat = String.utf8EncodeChar c := by
  rw [charBytes, Char.ofNat_toNat]
  exact (utf8_eq c.toString).trans (by simp)

theorem bytes_pieces (c : Char) (ps : List Piece) :
    bytes (pieces c ++ ps) = (bytes ps).map (String.utf8EncodeChar c ++ ·) := by
  rw [pieces]
  split_ifs with hc
  · rw [List.singleton_append, bytes_unit (of_decide_eq_true (Bool.and_eq_true_iff.mp hc).1),
      charBytes_toNat]
  · exact bytes_map_byte _ ps

/-- **The pieces of a text decode to it.** -/
theorem decode_pieces (s : String) : decode (s.toList.flatMap pieces) = some s := by
  have hbytes (cs : List Char) : bytes (cs.flatMap pieces)
      = some (cs.flatMap String.utf8EncodeChar) := by
    induction cs with
    | nil => rfl
    | cons c cs ih => rw [List.flatMap_cons, bytes_pieces, ih, List.flatMap_cons, Option.map_some]
  have hdecode := fromUTF8?_utf8 s
  rw [utf8_eq] at hdecode
  rw [decode, hbytes]
  exact hdecode

end Piece

end JerkLimit.Json
