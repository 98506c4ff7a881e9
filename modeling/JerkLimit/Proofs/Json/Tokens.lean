import Mathlib
import JerkLimit.Json.Token
import JerkLimit.Proofs.Json.Text

/-!
# Proofs/Json/Tokens — what a piece of text is read as

A reader of bytes meets a piece of text between others. `Scans bs ts` says that it takes the bytes
for the tokens `ts` wherever they stand, and `Reads bs ts` that it does so in front of a delimiter,
which a word needs to come to its end. Both can be composed, and a word that is read alone is read
in front of a delimiter (`reads_of_tokens`).
-/

namespace JerkLimit.Json

open Lexer

/-- The tokens of the rest of a text. -/
def scan (s : Lexer × List Token) (bytes : List UInt8) : Option (List Token) := do
  finish (← bytes.foldlM step s)

theorem scan_cons {s s' : Lexer × List Token} {b : UInt8} (h : step s b = some s')
    (bs : List UInt8) : scan s (b :: bs) = scan s' bs := by
  rw [scan, List.foldlM_cons, h]
  rfl

/-- Ends a word. -/
def isDelimiter (b : UInt8) : Bool := isBlank b || b = 34 || (Token.punctuation? b).isSome

/-- Nothing, or something that begins with a delimiter. -/
def Delimited (bs : List UInt8) : Prop := ∀ b ∈ bs.head?, isDelimiter b = true

/-- The bytes are read as the tokens, whatever follows. -/
def Scans (bs : List UInt8) (ts : List Token) : Prop :=
  ∀ done rest, scan (between, done) (bs ++ rest) = scan (between, ts.reverse ++ done) rest

/-- The bytes are read as the tokens, if nothing or a delimiter follows. -/
def Reads (bs : List UInt8) (ts : List Token) : Prop :=
  ∀ done rest, Delimited rest →
    scan (between, done) (bs ++ rest) = scan (between, ts.reverse ++ done) rest

/-! ## Composition -/

section Composition

variable {as bs : List UInt8} {ss ts : List Token}

theorem Scans.reads (h : Scans bs ts) : Reads bs ts := fun done rest _ => h done rest

theorem scans_nil : Scans [] [] := fun _ _ => rfl

theorem Scans.append (h : Scans as ss) (h' : Scans bs ts) : Scans (as ++ bs) (ss ++ ts) := by
  intro done rest
  rw [List.append_assoc, h, h', List.reverse_append, List.append_assoc]

theorem Scans.append_reads (h : Scans as ss) (h' : Reads bs ts) : Reads (as ++ bs) (ss ++ ts) := by
  intro done rest hrest
  rw [List.append_assoc, h, h' _ _ hrest, List.reverse_append, List.append_assoc]

theorem Reads.append_scans {b : UInt8} (h : Reads as ss) (h' : Scans (b :: bs) ts)
    (hb : isDelimiter b = true) : Scans (as ++ b :: bs) (ss ++ ts) := by
  intro done rest
  have hrest : Delimited (b :: bs ++ rest) := fun c hc => Option.some.inj hc ▸ hb
  rw [List.append_assoc, h _ _ hrest, h', List.reverse_append, List.append_assoc]

/-- What is read as a whole. -/
theorem Reads.tokens? (h : Reads bs ts) : tokens? bs = some ts := by
  have hscan := h [] [] nofun
  rw [List.append_nil, List.append_nil] at hscan
  rw [Json.tokens?, ← scan, hscan]
  exact congrArg some (List.reverse_reverse ts)

end Composition

/-! ## Words -/

theorem start_frame (b : UInt8) (done base : List Token) :
    start b (done ++ base) = ((start b done).1, (start b done).2 ++ base) := by
  unfold start
  split_ifs
  · rfl
  · rfl
  · cases Token.punctuation? b <;> rfl

/-- A reader does not look at the tokens that it has finished. -/
theorem step_frame (l : Lexer) (done base : List Token) (b : UInt8) :
    step (l, done ++ base) b = (step (l, done) b).map fun s => (s.1, s.2 ++ base) := by
  cases l with
  | between => exact congrArg some (start_frame b done base)
  | word bytes =>
    simp only [step]
    split_ifs
    · rw [Option.map_map]
      exact congrArg (Option.map · _) (funext fun t => start_frame b (t :: done) base)
    · rfl
  | text pieces =>
    simp only [step]
    split_ifs <;> rfl
  | escape pieces =>
    simp only [step]
    split_ifs
    · rfl
    · rw [Option.map_map]
      rfl
  | unit pieces missing value =>
    simp only [step]
    rw [Option.map_map]
    congr 1
    funext d
    simp only [Function.comp]
    split_ifs <;> rfl

theorem foldlM_frame (bs : List UInt8) (l : Lexer) (done base : List Token) :
    bs.foldlM step (l, done ++ base)
      = (bs.foldlM step (l, done)).map fun s => (s.1, s.2 ++ base) := by
  induction bs generalizing l done with
  | nil => rfl
  | cons b bs ih =>
    rw [List.foldlM_cons, List.foldlM_cons, step_frame]
    cases step (l, done) b with
    | none => rfl
    | some s => exact ih s.1 s.2

/-- A word comes to its end at a delimiter. -/
theorem scan_word {bytes : List UInt8} {t : Token} (h : Token.word? bytes.reverse = some t)
    (done : List Token) {rest : List UInt8} (hrest : Delimited rest) :
    scan (word bytes, done) rest = scan (between, t :: done) rest := by
  cases rest with
  | nil => exact congrArg (Option.map _) h
  | cons b rest =>
    have hb : isDelimiter b = true := hrest b rfl
    have hstep : step (word bytes, done) b = some (start b (t :: done)) :=
      (if_pos hb).trans (congrArg (Option.map _) h)
    rw [scan_cons hstep, scan_cons (s := (between, t :: done)) rfl]

/-- **What is read alone is read in front of a delimiter.** -/
theorem reads_of_tokens {bs : List UInt8} {ts : List Token} (h : tokens? bs = some ts) :
    Reads bs ts := by
  intro done rest hrest
  obtain ⟨⟨l, read⟩, hread, hfinish⟩ := Option.bind_eq_some_iff.mp h
  have hframe := foldlM_frame bs between [] done
  rw [hread, List.nil_append, Option.map_some] at hframe
  have hscan : scan (between, done) (bs ++ rest) = scan (l, read ++ done) rest := by
    rw [scan, List.foldlM_append, hframe]
    rfl
  rw [hscan]
  cases l with
  | between =>
    obtain rfl := Option.some.inj hfinish
    rw [List.reverse_reverse]
  | word bytes =>
    obtain ⟨t, ht, rfl⟩ := Option.map_eq_some_iff.mp hfinish
    rw [List.reverse_reverse, List.cons_append]
    exact scan_word ht _ hrest
  | text pieces => exact nomatch hfinish
  | escape pieces => exact nomatch hfinish
  | unit pieces missing value => exact nomatch hfinish

/-! ## Blanks and punctuation -/

theorem scans_punctuation {b : UInt8} {t : Token}
    (h : ∀ done, start b done = (between, t :: done)) :
    Scans [b] [t] := fun done rest =>
  scan_cons (s := (between, done)) (congrArg some (h done)) rest

theorem scans_blank {bs : List UInt8} (h : ∀ b ∈ bs, isBlank b = true) : Scans bs [] := by
  induction bs with
  | nil => exact scans_nil
  | cons b bs ih =>
    obtain ⟨hb, hbs⟩ := List.forall_mem_cons.mp h
    intro done rest
    have hstep : step (between, done) b = some (between, done) := congrArg some (if_pos hb)
    rw [List.cons_append, scan_cons hstep]
    exact ih hbs done rest

/-! ## Strings -/

/-- Within quotes the bytes of a character stand for themselves, except for three kinds. -/
theorem scan_bytes {bs : List UInt8} (h : ∀ b ∈ bs, b ≠ 34 ∧ b ≠ 92 ∧ ¬b < 32) (ps : List Piece)
    (done : List Token) (rest : List UInt8) :
    scan (text ps, done) (bs ++ rest)
      = scan (text ((bs.map Piece.byte).reverse ++ ps), done) rest := by
  induction bs generalizing ps with
  | nil => rfl
  | cons b bs ih =>
    obtain ⟨⟨hquote, hescape, hcontrol⟩, hbs⟩ := List.forall_mem_cons.mp h
    have hstep : step (text ps, done) b = some (text (.byte b :: ps), done) := by
      rw [step, if_neg hquote, if_neg hescape, if_neg hcontrol]
    rw [List.cons_append, scan_cons hstep, ih hbs, List.map_cons, List.reverse_cons,
      List.append_assoc]
    rfl

/-- A character that is not escaped. -/
theorem scan_plain {c : Char} (hquote : c ≠ '"') (hescape : c ≠ '\\') (hcontrol : ¬c.toNat < 32)
    (ps : List Piece) (done : List Token) (rest : List UInt8) :
    scan (text ps, done) (String.utf8EncodeChar c ++ rest)
      = scan (text (((String.utf8EncodeChar c).map Piece.byte).reverse ++ ps), done) rest := by
  have hquote' : c.toNat ≠ 34 := fun h => hquote (Char.toNat_inj.mp h)
  have hescape' : c.toNat ≠ 92 := fun h => hescape (Char.toNat_inj.mp h)
  refine scan_bytes (fun b hb => ?_) ps done rest
  have hmem := mem_utf8EncodeChar hb
  rw [ne_eq, ne_eq, ← UInt8.toNat_inj, ← UInt8.toNat_inj, UInt8.lt_iff_toNat_lt]
  change b.toNat ≠ 34 ∧ b.toNat ≠ 92 ∧ ¬b.toNat < 32
  omega

/-- A control character without a letter of its own. -/
theorem scan_numbered {c : Char} (hc : isNumbered c = true) (ps : List Piece) (done : List Token)
    (rest : List UInt8) :
    scan (text ps, done) ((escape c).flatMap String.utf8EncodeChar ++ rest)
      = scan (text (.unit c.toNat :: ps), done) rest := by
  obtain ⟨n, hn⟩ : ∃ n, n = c.toNat := ⟨_, rfl⟩
  have hlt : n < 32 := hn ▸ of_decide_eq_true (Bool.and_eq_true_iff.mp hc).1
  obtain rfl : c = Char.ofNat n := (Char.ofNat_toNat c).symm.trans (congrArg Char.ofNat hn.symm)
  interval_cases n <;> first | rfl | exact nomatch hc

/-- **A character of a string is read as its pieces**, escaped or not. -/
theorem scan_escape (c : Char) (ps : List Piece) (done : List Token) (rest : List UInt8) :
    scan (text ps, done) ((escape c).flatMap String.utf8EncodeChar ++ rest)
      = scan (text ((pieces c).reverse ++ ps), done) rest := by
  by_cases hc : isNumbered c = true
  · rw [scan_numbered hc, pieces, if_pos hc]
    rfl
  · have hpieces : pieces c = (String.utf8EncodeChar c).map .byte := if_neg hc
    by_cases hletter : c ∈ ['"', '\\', '\n', '\r', '\t', '\x08', '\x0c']
    · simp only [List.mem_cons, List.not_mem_nil, or_false] at hletter
      rcases hletter with rfl | rfl | rfl | rfl | rfl | rfl | rfl <;> rfl
    · simp only [List.mem_cons, List.not_mem_nil, or_false, not_or] at hletter
      obtain ⟨hquote, hescape, hn, hr, ht, h8, h12⟩ := hletter
      have h8' : c.toNat ≠ 8 := fun h => h8 (Char.toNat_inj.mp h)
      have h12' : c.toNat ≠ 12 := fun h => h12 (Char.toNat_inj.mp h)
      have hcontrol : ¬c.toNat < 32 := by
        have hn' : c.toNat ≠ 10 := fun h => hn (Char.toNat_inj.mp h)
        have hr' : c.toNat ≠ 13 := fun h => hr (Char.toNat_inj.mp h)
        have ht' : c.toNat ≠ 9 := fun h => ht (Char.toNat_inj.mp h)
        simp only [isNumbered, Bool.and_eq_true, decide_eq_true_eq, Bool.not_eq_true',
          List.contains_eq_mem, decide_eq_false_iff_not, List.mem_cons, List.not_mem_nil,
          or_false] at hc
        omega
      have hplain : escape c = [c] := by
        rw [escape, if_neg hquote, if_neg hescape, if_neg hn, if_neg hr, if_neg ht, if_neg h8',
          if_neg h12', if_neg hcontrol]
      rw [hplain, hpieces, List.flatMap_singleton]
      exact scan_plain hquote hescape hcontrol ps done rest

theorem scans_quote (s : String) : Scans (utf8 (quote s)) [.string (some s)] := by
  have htext (cs : List Char) (ps : List Piece) (done : List Token) (rest : List UInt8) :
      scan (text ps, done) ((cs.flatMap escape).flatMap String.utf8EncodeChar ++ rest)
        = scan (text ((cs.flatMap pieces).reverse ++ ps), done) rest := by
    induction cs generalizing ps with
    | nil => rfl
    | cons c cs ih =>
      rw [List.flatMap_cons, List.flatMap_append, List.append_assoc, scan_escape, ih,
        List.flatMap_cons, List.reverse_append, List.append_assoc]
  intro done rest
  have hquote : utf8 (quote s)
      = 34 :: ((s.toList.flatMap escape).flatMap String.utf8EncodeChar ++ [34]) := by
    rw [quote, utf8_ofList, List.cons_append, List.flatMap_cons, List.flatMap_append]
    rfl
  have hopen : step (between, done) 34 = some (text [], done) := rfl
  have hclose (ps : List Piece) : step (text ps, done) 34
      = some (between, .string (Piece.decode ps.reverse) :: done) := rfl
  rw [hquote, List.cons_append, scan_cons hopen, List.append_assoc, htext, List.append_nil,
    List.singleton_append, scan_cons (hclose _), List.reverse_reverse, Piece.decode_pieces]
  rfl

end JerkLimit.Json
