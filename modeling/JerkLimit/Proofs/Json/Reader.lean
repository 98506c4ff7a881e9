import Mathlib
import JerkLimit.Json.Printer
import JerkLimit.Json.Reader
import JerkLimit.Proofs.Json.Tokens

/-!
# Proofs/Json/Reader — a printed document is read again

The text of a value is read as its tokens (`Value.reads_print`), and the stack machine builds the
value from them (`Value.run_tokens`). So a document comes back as it was (`read_print`), up to what
the numerals of the library do: whether a double comes back is asked of each one (`Exact`).
-/

namespace JerkLimit.Json

open Lexer

/-- A number that is read as it was printed. -/
def Exact (x : Float) : Prop := tokens? (utf8 (printNumber x)) = some [.number (some x)]

deriving instance DecidableEq for Token

instance (x : Float) : Decidable (Exact x) := inferInstanceAs (Decidable (_ = _))

-- The digits of this numeral are rounded before they are scaled, and once more afterwards.
example : ¬Exact (1.0 / 11.0) := by decide +kernel

namespace Value

mutual

/-- A value that has a faithful text: its strings are text and its numbers come back. -/
def Faithful : Value → Prop
  | null => True
  | bool _ => True
  | number x => ∃ y, x = some y ∧ Exact y
  | string s => s.isSome = true
  | array xs => FaithfulAll xs
  | object fields => FaithfulFields fields

def FaithfulAll : List Value → Prop
  | [] => True
  | x :: xs => Faithful x ∧ FaithfulAll xs

def FaithfulFields : List (Option String × Value) → Prop
  | [] => True
  | (name, x) :: fields => name.isSome = true ∧ Faithful x ∧ FaithfulFields fields

end

mutual

/-- The tokens that a value is written with. -/
def tokens : Value → List Token
  | null => [.null]
  | bool b => [.bool b]
  | number x => [.number x]
  | string s => [.string s]
  | array xs => .openArray :: ([Token.comma].intercalate (tokensAll xs) ++ [.closeArray])
  | object fields =>
    .openObject :: ([Token.comma].intercalate (tokensFields fields) ++ [.closeObject])

def tokensAll : List Value → List (List Token)
  | [] => []
  | x :: xs => tokens x :: tokensAll xs

def tokensFields : List (Option String × Value) → List (List Token)
  | [] => []
  | (name, x) :: fields => (.string name :: .colon :: tokens x) :: tokensFields fields

end

end Value

/-! ## From text to tokens -/

theorem utf8_newline (level : ℕ) : utf8 (newline level) = 10 :: List.replicate (2 * level) 32 := by
  rw [newline, utf8_ofList, List.flatMap_cons, List.flatMap_replicate]
  exact congrArg (10 :: ·) (List.flatten_replicate_singleton ..)

theorem scans_newline (level : ℕ) : Scans (utf8 (newline level)) [] := by
  rw [utf8_newline]
  exact scans_blank (List.forall_mem_cons.mpr ⟨rfl, fun b hb => List.eq_of_mem_replicate hb ▸ rfl⟩)

theorem scans_of_punctuation {s : String} {b : UInt8} {t : Token} (hs : utf8 s = [b])
    (h : ∀ done, start b done = (between, t :: done)) : Scans (utf8 s) [t] :=
  hs ▸ scans_punctuation h

theorem utf8_comma : utf8 "," = [44] := by decide +kernel

theorem utf8_colon : utf8 ": " = [58, 32] := by decide +kernel

/-- Entries with commas and line breaks between them. -/
theorem reads_intercalate (level : ℕ) {e : String} {es : List String} {ts : List Token}
    {tss : List (List Token)} (h : Reads (utf8 e) ts)
    (hes : List.Forall₂ (fun e ts => Reads (utf8 e) ts) es tss) :
    Reads (utf8 (("," ++ newline level).intercalate (e :: es)))
      ([Token.comma].intercalate (ts :: tss)) := by
  induction hes generalizing e ts with
  | nil => rwa [String.intercalate_singleton, List.intercalate_singleton]
  | cons h' hes ih =>
    have hcomma : Scans [44] [.comma] := scans_punctuation fun _ => rfl
    have hseparator := hcomma.append (scans_newline level)
    rw [String.intercalate_cons_cons, List.intercalate_cons_cons, utf8_append, utf8_append,
      utf8_append, utf8_comma]
    exact (h.append_scans hseparator rfl).append_reads (ih h')

/-- Entries between brackets. -/
theorem scans_enclose {opening closing : String} {first last : Token}
    (hopen : Scans (utf8 opening) [first]) (hclose : Scans (utf8 closing) [last]) (level : ℕ)
    {es : List String} {tss : List (List Token)}
    (hes : List.Forall₂ (fun e ts => Reads (utf8 e) ts) es tss) :
    Scans (utf8 (enclose opening closing level es))
      (first :: ([Token.comma].intercalate tss ++ [last])) := by
  cases hes with
  | nil =>
    rw [enclose, utf8_append]
    exact hopen.append hclose
  | cons h hes =>
    have hend := (scans_newline level).append hclose
    rw [utf8_newline, List.cons_append] at hend
    have hentries := (reads_intercalate (level + 1) h hes).append_scans hend rfl
    rw [← List.cons_append, ← utf8_newline] at hentries
    have hall := hopen.append ((scans_newline (level + 1)).append hentries)
    simpa only [enclose, utf8_append, List.append_assoc, List.nil_append, List.singleton_append]
      using hall

theorem scans_openArray : Scans (utf8 "[") [.openArray] :=
  scans_of_punctuation (b := 91) (by decide +kernel) fun _ => rfl

theorem scans_closeArray : Scans (utf8 "]") [.closeArray] :=
  scans_of_punctuation (b := 93) (by decide +kernel) fun _ => rfl

theorem scans_openObject : Scans (utf8 "\x7b") [.openObject] :=
  scans_of_punctuation (b := 123) (by decide +kernel) fun _ => rfl

theorem scans_closeObject : Scans (utf8 "\x7d") [.closeObject] :=
  scans_of_punctuation (b := 125) (by decide +kernel) fun _ => rfl

theorem tokens?_null : tokens? (utf8 "null") = some [.null] := by cbv

theorem tokens?_true : tokens? (utf8 "true") = some [.bool true] := by cbv

theorem tokens?_false : tokens? (utf8 "false") = some [.bool false] := by cbv

namespace Value

mutual

theorem reads_print (level : ℕ) : ∀ v : Value, v.Faithful → Reads (utf8 (v.print level)) v.tokens
  | null, _ => reads_of_tokens tokens?_null
  | bool true, _ => reads_of_tokens tokens?_true
  | bool false, _ => reads_of_tokens tokens?_false
  | number _, ⟨_, rfl, hx⟩ => reads_of_tokens hx
  | string (some s), _ => (scans_quote s).reads
  | array xs, h =>
    (scans_enclose scans_openArray scans_closeArray level (reads_printAll (level + 1) xs h)).reads
  | object fields, h =>
    (scans_enclose scans_openObject scans_closeObject level
      (reads_printFields (level + 1) fields h)).reads

theorem reads_printAll (level : ℕ) : ∀ xs : List Value, FaithfulAll xs →
    List.Forall₂ (fun e ts => Reads (utf8 e) ts) (printAll level xs) (tokensAll xs)
  | [], _ => .nil
  | x :: xs, ⟨hx, hxs⟩ => .cons (reads_print level x hx) (reads_printAll level xs hxs)

theorem reads_printFields (level : ℕ) : ∀ fields : List (Option String × Value),
    FaithfulFields fields →
      List.Forall₂ (fun e ts => Reads (utf8 e) ts) (printFields level fields) (tokensFields fields)
  | [], _ => .nil
  | (some name, x) :: fields, ⟨_, hx, hfields⟩ => by
    refine .cons ?_ (reads_printFields level fields hfields)
    have hcolon : Scans ([58] ++ [32]) ([.colon] ++ []) :=
      (scans_punctuation fun _ => rfl).append (scans_blank (List.forall_mem_singleton.mpr rfl))
    rw [utf8_append, utf8_append, utf8_colon]
    exact ((scans_quote name).append hcolon).append_reads (reads_print level x hx)

end

end Value

/-! ## From tokens to values -/

namespace Machine

/-- Where the machine is after some tokens. -/
def run (m : Machine) (ts : List Token) : Option Machine := ts.foldlM step m

theorem run_cons {m n : Machine} {t : Token} (h : m.step t = some n) (ts : List Token) :
    m.run (t :: ts) = n.run ts := by
  rw [run, List.foldlM_cons, h]
  rfl

theorem run_append {m n : Machine} {ts : List Token} (h : m.run ts = some n) (ts' : List Token) :
    m.run (ts ++ ts') = n.run ts' := by
  rw [run, List.foldlM_append, ← run, h]
  rfl

/-- Where a value may begin an array, it may do so as its first entry. -/
theorem run_valueOrClose (v : Value) (stack : List Frame) (ts : List Token) :
    (valueOrClose stack).run (v.tokens ++ ts)
      = (value (.array [] :: stack)).run (v.tokens ++ ts) := by
  cases v <;> rfl

end Machine

namespace Value

open Machine

theorem intercalate_tokensAll (x : Value) (xs : List Value) :
    ∃ ts, [Token.comma].intercalate (tokensAll (x :: xs)) = x.tokens ++ ts := by
  cases xs with
  | nil => exact ⟨[], by rw [tokensAll, tokensAll, List.intercalate_singleton, List.append_nil]⟩
  | cons y ys =>
    exact ⟨_, by rw [tokensAll, tokensAll, List.intercalate_cons_cons, List.append_assoc]⟩

theorem intercalate_tokensFields (name : Option String) (x : Value)
    (fields : List (Option String × Value)) :
    ∃ ts, [Token.comma].intercalate (tokensFields ((name, x) :: fields)) = .string name :: ts := by
  cases fields with
  | nil => exact ⟨_, by rw [tokensFields, tokensFields, List.intercalate_singleton]⟩
  | cons field fields =>
    exact ⟨_, by rw [tokensFields, tokensFields, List.intercalate_cons_cons, List.append_assoc,
      List.cons_append]⟩

mutual

/-- The tokens of a value move the machine to where the value has been delivered. -/
theorem run_tokens : ∀ (v : Value) (stack : List Frame),
    (Machine.value stack).run v.tokens = some (deliver v stack)
  | null, _ => rfl
  | bool _, _ => rfl
  | number _, _ => rfl
  | string _, _ => rfl
  | array [], _ => rfl
  | array (x :: xs), stack => by
    obtain ⟨ts, hts⟩ := intercalate_tokensAll x xs
    have hentries := run_tokensAll (x :: xs) (List.cons_ne_nil x xs) [] stack
    rw [tokens, run_cons (n := valueOrClose stack) rfl, hts, List.append_assoc,
      run_valueOrClose, ← List.append_assoc, ← hts, run_append hentries, List.append_nil]
    exact congrArg (fun ys => some (deliver (.array ys) stack)) (List.reverse_reverse _)
  | object [], _ => rfl
  | object ((key, x) :: fields), stack => by
    obtain ⟨ts, hts⟩ := intercalate_tokensFields key x fields
    have hentries := run_tokensFields ((key, x) :: fields) (List.cons_ne_nil _ _) [] stack
    rw [hts, run_cons (n := colon [] key stack) rfl] at hentries
    rw [tokens, run_cons (n := nameOrClose stack) rfl, hts, List.cons_append,
      run_cons (n := colon [] key stack) rfl, run_append hentries, List.append_nil]
    exact congrArg (fun ys => some (deliver (.object ys) stack)) (List.reverse_reverse _)

/-- Entries are delivered to their array, the last one first. -/
theorem run_tokensAll : ∀ xs : List Value, xs ≠ [] → ∀ (done : List Value) (stack : List Frame),
    (Machine.value (.array done :: stack)).run ([Token.comma].intercalate (tokensAll xs))
      = some (commaOrClose (.array (xs.reverse ++ done)) stack)
  | [x], _, done, stack => by
    rw [tokensAll, tokensAll, List.intercalate_singleton]
    exact run_tokens x _
  | x :: y :: ys, _, done, stack => by
    rw [tokensAll, tokensAll, List.intercalate_cons_cons, ← tokensAll, List.append_assoc,
      run_append (run_tokens x _), List.reverse_cons, List.append_assoc]
    exact run_tokensAll (y :: ys) (List.cons_ne_nil y ys) (x :: done) stack

theorem run_tokensFields : ∀ fields : List (Option String × Value), fields ≠ [] →
    ∀ (done : List (Option String × Value)) (stack : List Frame),
      (Machine.name done stack).run ([Token.comma].intercalate (tokensFields fields))
        = some (commaOrClose (.object (fields.reverse ++ done) none) stack)
  | [(key, x)], _, done, stack => by
    rw [tokensFields, tokensFields, List.intercalate_singleton]
    exact run_tokens x (.object done key :: stack)
  | (key, x) :: (key', y) :: fields, _, done, stack => by
    rw [tokensFields, tokensFields, List.intercalate_cons_cons, ← tokensFields, List.append_assoc,
      List.reverse_cons, List.append_assoc]
    exact (run_append (m := .value (.object done key :: stack)) (run_tokens x _) _).trans
      (run_tokensFields ((key', y) :: fields) (List.cons_ne_nil _ _) ((key, x) :: done) stack)

end

end Value

/-- **A printed document is read again.** -/
theorem read_print {v : Value} (h : v.Faithful) : read? (utf8 (v.print 0)) = some v := by
  rw [read?, (v.reads_print 0 h).tokens?]
  change ((Machine.value []).run v.tokens >>= _) = _
  rw [v.run_tokens]
  rfl

end JerkLimit.Json
