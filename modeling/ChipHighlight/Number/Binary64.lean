/-!
# Binary64 numbers

A number with a decimal point or an exponent is kept in 64 bits: a whole number
of at most 53 binary digits times a power of two, an infinity, or not a number at
all.  `Binary64.ofDecimal` takes the number that was written to the nearest of
these; between two equally near ones it takes the one with the even mantissa.

`Number` is what such a value stands for, and what a whole number of any size
stands for.  Two numbers are the same when they have the same value; no digit of
a whole number is lost in the comparison, the two zeros are one number, and so is
what is not a number.
-/

namespace ChipHighlight

inductive Binary64
  | finite (negative : Bool) (mantissa : Nat) (power : Int)
  | infinite (negative : Bool)
  | nan
deriving DecidableEq, Repr, Inhabited

/-- A number without its way of being written: a whole number times a power of two,
an infinity, or not a number. -/
inductive Number
  | finite (value : Dyadic)
  | infinite (negative : Bool)
  | nan
deriving DecidableEq

def signed (negative : Bool) (n : Nat) : Int := if negative then -n else n

theorem signed_eq_zero_iff (negative : Bool) (n : Nat) : signed negative n = 0 ↔ n = 0 := by
  unfold signed; split <;> omega

theorem ofIntWithPrec_eq_zero_iff (n precision : Int) :
    Dyadic.ofIntWithPrec n precision = .zero ↔ n = 0 := by
  unfold Dyadic.ofIntWithPrec
  split <;> simp_all

namespace Number

def zero : Number := finite .zero

def ofInt (n : Int) : Number := finite (Dyadic.ofIntWithPrec n 0)

theorem ofInt_eq_zero_iff (n : Int) : ofInt n = zero ↔ n = 0 := by
  rw [ofInt, zero, finite.injEq, ofIntWithPrec_eq_zero_iff]

end Number

namespace Binary64

def number : Binary64 → Number
  | finite negative m q => .finite (Dyadic.ofIntWithPrec (signed negative m) (-q))
  | infinite negative => .infinite negative
  | nan => .nan

def isZero : Binary64 → Bool
  | finite _ m _ => m == 0
  | _ => false

theorem number_eq_zero_iff (b : Binary64) : b.number = .zero ↔ b.isZero = true := by
  cases b with
  | finite negative m q =>
    rw [number, Number.zero, Number.finite.injEq, ofIntWithPrec_eq_zero_iff,
      signed_eq_zero_iff, isZero, beq_iff_eq]
  | infinite negative => simp [number, Number.zero, isZero]
  | nan => simp [number, Number.zero, isZero]

/-! ### Rounding -/

def leastPower : Int := -1074

def greatestPower : Int := 971

/-- A fraction to the nearest whole number, a half to the even one. -/
def nearest (num den : Nat) : Nat :=
  match compare (2 * (num % den)) den with
  | .lt => num / den
  | .gt => num / den + 1
  | .eq => num / den + num / den % 2

def log2Floor (num den : Nat) : Int :=
  let guess : Int := num.log2 - den.log2
  if num * Nat.pow 2 (-guess).toNat < den * Nat.pow 2 guess.toNat then guess - 1 else guess

/-- **The value nearest to a fraction.**  Its mantissa has 53 binary digits where
the power of two allows that. -/
def ofFraction (negative : Bool) (num den : Nat) : Binary64 :=
  if num = 0 then finite negative 0 leastPower
  else
    let q := max leastPower (log2Floor num den - 52)
    let m := nearest (num * Nat.pow 2 (-q).toNat) (den * Nat.pow 2 q.toNat)
    let (m, q) := if m = Nat.pow 2 53 then (Nat.pow 2 52, q + 1) else (m, q)
    if greatestPower < q then infinite negative else finite negative m q

/-- **The value nearest to `digits · 10 ^ power`.**  What is far beyond either end
needs no arithmetic: a number of at least `10 ^ 400` is infinite and one below
`10 ^ (-400)` is zero. -/
def ofDecimal (negative : Bool) (digits : Nat) (power : Int) : Binary64 :=
  if digits = 0 then finite negative 0 leastPower
  else if 400 ≤ power then infinite negative
  else if (digits.log2 / 3 + 1 : Nat) + power < -400 then finite negative 0 leastPower
  else ofFraction negative (digits * Nat.pow 10 power.toNat) (Nat.pow 10 (-power).toNat)

end Binary64

end ChipHighlight
