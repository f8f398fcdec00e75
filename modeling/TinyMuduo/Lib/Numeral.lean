import Mathlib.Data.Nat.Digits.Lemmas

/-!
# Lib.Numeral

Numerals to a base, with the most significant digit first.

`IsNumeral b ds n` says when a list of digits is the canonical numeral of `n`, by its digits and its
value alone. Every number has exactly one: `isNumeral_iff`.
-/

structure IsNumeral (b : Nat) (ds : List Nat) (n : Nat) : Prop where
  ne_nil : ds ≠ []
  digit_lt : ∀ d ∈ ds, d < b
  /-- No other digit stands behind a leading zero. -/
  lead : ds.head? = some 0 → ds = [0]
  value : Nat.ofDigits b ds.reverse = n

/-- The last digit, with those of the quotient in front. -/
def numeral (b n : Nat) : List Nat := (n % b :: Nat.digits b (n / b)).reverse

section

variable {b n : Nat} {ds : List Nat}

theorem numeral_zero (b : Nat) : numeral b 0 = [0] := by
  simp [numeral]

theorem numeral_of_pos (hb : 1 < b) (hn : 0 < n) : numeral b n = (Nat.digits b n).reverse := by
  rw [numeral, Nat.digits_def' hb hn]

theorem isNumeral_numeral (hb : 1 < b) (n : Nat) : IsNumeral b (numeral b n) n where
  ne_nil := by simp [numeral]
  digit_lt := by
    intro d hd
    rw [numeral, List.mem_reverse, List.mem_cons] at hd
    rcases hd with rfl | hd
    · exact Nat.mod_lt n (by omega)
    · exact Nat.digits_lt_base hb hd
  lead := by
    intro hlead
    rcases Nat.eq_zero_or_pos n with rfl | hn
    · exact numeral_zero b
    · -- the first digit of a positive number is not zero
      have hne : Nat.digits b n ≠ [] := Nat.digits_ne_nil_iff_ne_zero.2 (by omega)
      rw [numeral_of_pos hb hn, List.head?_reverse, List.getLast?_eq_some_getLast hne] at hlead
      exact absurd (Option.some.inj hlead) (Nat.getLast_digit_ne_zero b (by omega))
  value := by
    rw [numeral, List.reverse_reverse, Nat.ofDigits_cons, Nat.ofDigits_digits, Nat.mod_add_div]

theorem IsNumeral.eq_numeral (hb : 1 < b) (h : IsNumeral b ds n) : ds = numeral b n := by
  by_cases hlead : ds.head? = some 0
  · have hds := h.lead hlead
    have hn : n = 0 := by rw [← h.value, hds]; simp
    rw [hds, hn, numeral_zero]
  · have hlast : ∀ hne : ds.reverse ≠ [], ds.reverse.getLast hne ≠ 0 := by
      intro hne hzero
      apply hlead
      rw [← List.reverse_reverse ds, List.head?_reverse, List.getLast?_eq_some_getLast hne, hzero]
    have hdigits : Nat.digits b n = ds.reverse := by
      rw [← h.value]
      exact Nat.digits_ofDigits b hb _ (fun d hd => h.digit_lt d (List.mem_reverse.1 hd)) hlast
    have hn : n ≠ 0 := by
      rintro rfl
      rw [Nat.digits_zero] at hdigits
      exact h.ne_nil (List.reverse_eq_nil_iff.1 hdigits.symm)
    rw [numeral_of_pos hb (Nat.pos_of_ne_zero hn), hdigits, List.reverse_reverse]

/-- **Every number has one numeral.** -/
theorem isNumeral_iff (hb : 1 < b) : IsNumeral b ds n ↔ ds = numeral b n :=
  ⟨IsNumeral.eq_numeral hb, fun h => h ▸ isNumeral_numeral hb n⟩

end
