import OsmoTrx.Lib.Word
import Mathlib.Data.List.TakeWhile

/-!
# C text

Strings as the C library sees them: a character is a byte, a string ends before its
first NUL, and numbers are read and written by `sscanf` and `sprintf`.

* `cstr` — the string a buffer holds, `cstr_eq_self` — all of it if there is no NUL.
* `sscanf` — the conversions `%d` and `%u`, separated by optional white space; the
  result lists the values that were assigned, so a variable whose conversion was not
  reached or failed has no entry.  A number too large for its type is what glibc makes
  of it: saturated to 64 bits, then converted to 32.
* `scanHexDigit` — the conversion `%1x`; `scanHexDigit_digitChar` — a digit that was printed.
* `dec` — what `%d` and `%u` print.
* `token` — the part of a string before its first blank.
-/

namespace OsmoTrx
namespace CText

/-- The string in a buffer: everything before the first NUL. -/
def cstr (buf : List Char) : List Char := buf.takeWhile (fun c => c.toNat ≠ 0)

/-- `isspace` in the C locale. -/
def isSpace (c : Char) : Bool := c == ' ' || (9 ≤ c.toNat && c.toNat ≤ 13)

/-- The number a string of digits stands for. -/
def digitsVal (ds : List Char) : ℕ := ds.foldl (fun a c => 10 * a + (c.toNat - '0'.toNat)) 0

/-- The digits a string starts with, as a number, and the rest; none if it starts with
no digit. -/
def scanNat (s : List Char) : Option (ℕ × List Char) :=
  match s.takeWhile Char.isDigit with
  | [] => none
  | d :: ds => some (digitsVal (d :: ds), s.dropWhile Char.isDigit)

/-- One integer conversion: white space, an optional sign, digits. -/
def scanInt (s : List Char) : Option (ℤ × List Char) :=
  match s.dropWhile isSpace with
  | '-' :: rest => (scanNat rest).map fun p => (-(p.1 : ℤ), p.2)
  | '+' :: rest => (scanNat rest).map fun p => ((p.1 : ℤ), p.2)
  | rest => (scanNat rest).map fun p => ((p.1 : ℤ), p.2)

/-- The value of a hexadecimal digit. -/
def hexVal (c : Char) : Option ℕ :=
  if 48 ≤ c.toNat ∧ c.toNat ≤ 57 then some (c.toNat - 48)
  else if 97 ≤ c.toNat ∧ c.toNat ≤ 102 then some (c.toNat - 87)
  else if 65 ≤ c.toNat ∧ c.toNat ≤ 70 then some (c.toNat - 55)
  else none

/-- The conversion `%1x`: white space, then one character, so that a sign or a prefix is no
number. -/
def scanHexDigit (s : List Char) : Option ℕ := (s.dropWhile isSpace).head?.bind hexVal

/-- The integer conversions the program uses. -/
inductive Conv
  | d
  | u
  deriving DecidableEq, Repr

/-- The value a conversion stores for the number it read. -/
def Conv.store : Conv → ℤ → ℤ
  | .d, v => i32 (max (-2 ^ 63) (min v (2 ^ 63 - 1)))
  | .u, v => u32 (if v.natAbs < 2 ^ 64 then v else 2 ^ 64 - 1)

/-- `sscanf`: the values assigned, up to the first conversion that fails. -/
def sscanf : List Conv → List Char → List ℤ
  | [], _ => []
  | c :: cs, s =>
    match scanInt s with
    | none => []
    | some (v, rest) => c.store v :: sscanf cs rest

/-- `%d` and `%u` of `sprintf`. -/
def dec (v : ℤ) : List Char := (toString v).toList

theorem length_sscanf_le (cs : List Conv) (s : List Char) : (sscanf cs s).length ≤ cs.length := by
  induction cs generalizing s with
  | nil => simp [sscanf]
  | cons c cs ih =>
    rw [sscanf]
    cases scanInt s with
    | none => simp
    | some p => simpa using ih p.2

theorem mem_cstr {buf : List Char} {c : Char} (h : c ∈ cstr buf) : c.toNat ≠ 0 := by
  have hc := List.mem_takeWhile_imp (show c ∈ buf.takeWhile (fun c => c.toNat ≠ 0) from h)
  exact of_decide_eq_true hc

/-- A string without a NUL is all of its buffer. -/
theorem cstr_eq_self {buf : List Char} (h : ∀ c ∈ buf, c.toNat ≠ 0) : cstr buf = buf :=
  List.takeWhile_eq_self_iff.2 fun c hc => decide_eq_true (h c hc)

/-- A hexadecimal digit as it is printed is read back. -/
theorem hexVal_digitChar : ∀ d < 16, hexVal (Nat.digitChar d) = some d := by decide

theorem scanHexDigit_digitChar {d : ℕ} (hd : d < 16) (rest : List Char) :
    scanHexDigit (Nat.digitChar d :: rest) = some d := by
  have hspace : ∀ d < 16, isSpace (Nat.digitChar d) = false := by decide
  rw [scanHexDigit, List.dropWhile_cons_of_neg (by rw [hspace d hd]; exact Bool.false_ne_true)]
  exact hexVal_digitChar d hd

/-- What a conversion has assigned is a value of its type. -/
theorem sscanf_store {cs : List Conv} {s : List Char} {k : ℕ} {v : ℤ}
    (h : (sscanf cs s)[k]? = some v) : ∃ w, v = (cs.getD k .d).store w := by
  induction cs generalizing s k with
  | nil => simp [sscanf] at h
  | cons c cs ih =>
    rw [sscanf] at h
    cases hscan : scanInt s with
    | none => simp [hscan] at h
    | some p =>
      rw [hscan] at h
      cases k with
      | zero => exact ⟨p.1, (Option.some.inj h).symm⟩
      | succ k => exact ih h

/-- Nothing can be read from an empty string. -/
theorem sscanf_nil (cs : List Conv) : sscanf cs [] = [] := by
  cases cs with
  | nil => rfl
  | cons c cs => rfl

/-- Conversions skip blanks. -/
theorem sscanf_space (cs : List Conv) (s : List Char) : sscanf cs (' ' :: s) = sscanf cs s := by
  cases cs with
  | nil => rfl
  | cons c cs => rfl

theorem Conv.store_u_range (w : ℤ) : 0 ≤ Conv.u.store w ∧ Conv.u.store w < 2 ^ 32 := by
  simp only [Conv.store, u32]
  exact ⟨Int.emod_nonneg _ (by norm_num), Int.emod_lt_of_pos _ (by norm_num)⟩

/-- The first token of a string. -/
def token (s : List Char) : List Char := s.takeWhile (· ≠ ' ')

theorem token_append {a rest : List Char} (ha : ' ' ∉ a)
    (hrest : rest = [] ∨ rest.head? = some ' ') : token (a ++ rest) = a := by
  have hall : ∀ c ∈ a, decide (c ≠ ' ') = true := by
    intro c hc
    rw [decide_eq_true_eq]
    rintro rfl
    exact ha hc
  rw [token, List.takeWhile_append_of_pos hall]
  cases rest with
  | nil => simp
  | cons c rest =>
    have hc : c = ' ' := by simpa using hrest
    simp [hc]

/-- A prefix without a blank is a prefix of the first token. -/
theorem prefix_token {a s : List Char} (ha : ' ' ∉ a) (h : a <+: s) : a <+: token s := by
  obtain ⟨rest, rfl⟩ := h
  have hall : ∀ c ∈ a, decide (c ≠ ' ') = true := by
    intro c hc
    rw [decide_eq_true_eq]
    rintro rfl
    exact ha hc
  rw [token, List.takeWhile_append_of_pos hall]
  exact List.prefix_append _ _

example : sscanf [.d, .d] " 3 -7x".toList = [3, -7] := by decide

example : sscanf [.d, .d] "12 x".toList = [12] := by decide

end CText
end OsmoTrx
