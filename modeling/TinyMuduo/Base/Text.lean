import Mathlib.Data.Nat.Digits.Defs
import TinyMuduo.Lib.ByteOrder

/-!
# Base.Text

Characters as bytes, and what the C library prints for a number.
-/

namespace TinyMuduo

def chr (c : Char) : Byte := BitVec.ofNat 8 c.toNat

def ascii (cs : List Char) : List Byte := cs.map chr

/-- `%d` and `%u`, for a number that is not negative. -/
def decimal (n : Nat) : List Char := Nat.toDigits 10 n

theorem decimal_inj {m n : Nat} (h : decimal m = decimal n) : m = n := by
  have := congrArg (fun l => Nat.ofDigitChars 10 l 0) h
  simpa only [decimal, Nat.ofDigitChars_ten_toDigits] using this

theorem isDigit_of_mem_decimal {c : Char} {n : Nat} (h : c ∈ decimal n) : c.isDigit = true :=
  Nat.isDigit_of_mem_toDigits (by decide) (by decide) h

/-- `%02d`, for a number of two digits. -/
def twoDigits (n : Nat) : List Char := [Nat.digitChar (n / 10), Nat.digitChar (n % 10)]

theorem digitChar_inj : ∀ m < 10, ∀ n < 10, Nat.digitChar m = Nat.digitChar n → m = n := by
  decide

theorem twoDigits_inj {m n : Nat} (hm : m < 100) (hn : n < 100)
    (h : twoDigits m = twoDigits n) : m = n := by
  simp only [twoDigits, List.cons.injEq, and_true] at h
  have htens := digitChar_inj _ (by omega) _ (by omega) h.1
  have hones := digitChar_inj _ (by omega) _ (by omega) h.2
  omega

theorem twoDigits_append_inj {m n : Nat} {r r' : List Char} (hm : m < 100) (hn : n < 100)
    (h : twoDigits m ++ r = twoDigits n ++ r') : m = n ∧ r = r' := by
  obtain ⟨hdigits, hrest⟩ := List.append_inj h rfl
  exact ⟨twoDigits_inj hm hn hdigits, hrest⟩

theorem isDigit_digitChar : ∀ n < 10, (Nat.digitChar n).isDigit = true := by decide

theorem isDigit_of_mem_twoDigits {c : Char} {n : Nat} (hn : n < 100) (h : c ∈ twoDigits n) :
    c.isDigit = true := by
  simp only [twoDigits, List.mem_cons, List.not_mem_nil, or_false] at h
  rcases h with rfl | rfl
  · exact isDigit_digitChar _ (by omega)
  · exact isDigit_digitChar _ (by omega)

/-- `snprintf` into a buffer of `size` bytes, one of which is for the NUL. -/
def snprintf (size : Nat) (text : List Char) : List Char := text.take (size - 1)

end TinyMuduo
