import Mathlib.Algebra.Order.Ring.Int

/-!
# Lib.Signed

Expressions of a signed integer type of C, of `w` bits, in which no operation may leave the range of
the type. A `Signed w` is the value of such an expression, and has none once an operation
overflowed or divided by zero: such a program has no meaning. Division and remainder truncate
towards zero.

* `wrap32` — the other reading: a counter that is stored modulo `2 ^ 32`.
* The operators are those of C, so that an expression is written as in C.
* `Signed.eval` — the value of an expression; `bind_of_eq_some` — one step of a function that
  evaluates several.
* `ofNat_eq`, `intCast_add` and the others — an expression whose intermediate values fit is the cast
  of the same expression over the integers (`intCast_div` where the dividend is not negative, so
  that truncation is the floor).
-/

/-- In the range of a signed type of `w` bits. -/
abbrev Fits (w : Nat) (x : Int) : Prop := -2 ^ (w - 1) ≤ x ∧ x < 2 ^ (w - 1)

/-- What an `int` holds after `x` was stored. -/
def wrap32 (x : Int) : Int := x.bmod (2 ^ 32)

theorem wrap32_of_fits {x : Int} (h : Fits 32 x) : wrap32 x = x :=
  Int.bmod_eq_of_le (by have := h.1; omega) (by have := h.2; omega)

structure Signed (w : Nat) where
  value? : Option Int
  deriving DecidableEq, Repr

namespace Signed

variable {w : Nat}

def ofInt (x : Int) : Signed w := ⟨if Fits w x then some x else none⟩

def lift (f : Int → Int → Signed w) (a b : Signed w) : Signed w :=
  match a.value?, b.value? with
  | some x, some y => f x y
  | _, _ => ⟨none⟩

instance : IntCast (Signed w) := ⟨ofInt⟩
instance (n : Nat) : OfNat (Signed w) n := ⟨ofInt n⟩
instance : Add (Signed w) := ⟨lift fun x y => ofInt (x + y)⟩
instance : Sub (Signed w) := ⟨lift fun x y => ofInt (x - y)⟩
instance : Mul (Signed w) := ⟨lift fun x y => ofInt (x * y)⟩
instance : Div (Signed w) := ⟨lift fun x y => if y = 0 then ⟨none⟩ else ofInt (x.tdiv y)⟩
instance : Mod (Signed w) := ⟨lift fun x y =>
  -- the remainder is undefined when the quotient overflows
  if y = 0 ∨ ¬ Fits w (x.tdiv y) then ⟨none⟩ else ofInt (x.tmod y)⟩

def eval (w : Nat) (e : Signed w) : Option Int := e.value?

variable {x y : Int}

theorem value?_intCast (h : Fits w x) : (x : Signed w).value? = some x := if_pos h

theorem eval_intCast (h : Fits w x) : eval w (x : Signed w) = some x := if_pos h

/-- A step of a computation with expressions. -/
theorem bind_of_eq_some {α β : Type} {o : Option α} {a : α} (h : o = some a) (f : α → Option β) :
    o >>= f = f a := by
  rw [h]
  rfl

theorem ofNat_eq (n : Nat) :
    (OfNat.ofNat n : Signed w) = ((OfNat.ofNat n : Int) : Signed w) := rfl

theorem lift_intCast (f : Int → Int → Signed w) (hx : Fits w x) (hy : Fits w y) :
    lift f (x : Signed w) (y : Signed w) = f x y := by
  rw [lift, value?_intCast hx, value?_intCast hy]

theorem intCast_add (hx : Fits w x) (hy : Fits w y) :
    (x : Signed w) + (y : Signed w) = ((x + y : Int) : Signed w) := lift_intCast _ hx hy

theorem intCast_sub (hx : Fits w x) (hy : Fits w y) :
    (x : Signed w) - (y : Signed w) = ((x - y : Int) : Signed w) := lift_intCast _ hx hy

theorem intCast_mul (hx : Fits w x) (hy : Fits w y) :
    (x : Signed w) * (y : Signed w) = ((x * y : Int) : Signed w) := lift_intCast _ hx hy

theorem intCast_tdiv (hx : Fits w x) (hy : Fits w y) (h0 : y ≠ 0) :
    (x : Signed w) / (y : Signed w) = ((x.tdiv y : Int) : Signed w) :=
  (lift_intCast _ hx hy).trans (if_neg h0)

theorem intCast_tmod (hx : Fits w x) (hy : Fits w y) (h0 : y ≠ 0) (hq : Fits w (x.tdiv y)) :
    (x : Signed w) % (y : Signed w) = ((x.tmod y : Int) : Signed w) :=
  (lift_intCast _ hx hy).trans (if_neg (not_or.2 ⟨h0, not_not.2 hq⟩))

theorem intCast_div (hx : Fits w x) (hy : Fits w y) (hpos : 0 ≤ x ∧ 0 < y) :
    (x : Signed w) / (y : Signed w) = ((x / y : Int) : Signed w) := by
  rw [intCast_tdiv hx hy hpos.2.ne', Int.tdiv_eq_ediv_of_nonneg hpos.1]

theorem intCast_mod (hx : Fits w x) (hy : Fits w y) (hpos : 0 ≤ x ∧ 0 < y) :
    (x : Signed w) % (y : Signed w) = ((x % y : Int) : Signed w) := by
  have hq : Fits w (x.tdiv y) := by
    rw [Int.tdiv_eq_ediv_of_nonneg hpos.1]
    have h0 : 0 ≤ x / y := Int.ediv_nonneg hpos.1 hpos.2.le
    have hle : x / y ≤ x := Int.ediv_le_self y hpos.1
    omega
  rw [intCast_tmod hx hy hpos.2.ne' hq, Int.tmod_eq_emod_of_nonneg hpos.1]

end Signed
