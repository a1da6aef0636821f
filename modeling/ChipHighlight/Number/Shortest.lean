import ChipHighlight.Text.Basic

/-!
# The fewest digits that read back

A binary64 value stands for an interval: every number in it is rounded to that
value.  `shortest` is the decimal of that interval with the fewest digits, and of
several the one nearest to the value.  It looks at one decimal grid after the
other, the coarsest first; on each of them only the two points next to the value
matter.  All of it is arithmetic on whole numbers.

`shortest_readsBack`: **what is chosen lies in the interval**.
-/

namespace ChipHighlight

/-- The number `digits · 10 ^ power`. -/
structure Decimal where
  digits : Nat
  power : Int
deriving DecidableEq, Repr

namespace Shortest

/-! ### The interval -/

/-- The lower end of the interval of `m · 2 ^ q`, in quarters of `2 ^ q`.  Below a
power of two the next value is only half as far away. -/
def lowerEnd (m : Nat) (q : Int) : Nat :=
  if m = Nat.pow 2 52 ∧ -1074 < q then 4 * m - 1 else 4 * m - 2

def upperEnd (m : Nat) : Nat := 4 * m + 2

/-- The quotient of `2 ^ q` and `10 ^ p`, as a numerator and a denominator. -/
def gridRatio (q p : Int) : Nat × Nat :=
  (Nat.pow 2 q.toNat * Nat.pow 10 (-p).toNat, Nat.pow 2 (-q).toNat * Nat.pow 10 p.toNat)

/-- Whether a decimal is rounded to `m · 2 ^ q`.  The ends of the interval are, just
when `m` is even. -/
def readsBack (m : Nat) (q : Int) (d : Decimal) : Bool :=
  let (num, den) := gridRatio q d.power
  let ordered (a b : Nat) : Bool := if m % 2 = 0 then a ≤ b else a < b
  ordered (lowerEnd m q * num) (4 * d.digits * den) &&
    ordered (4 * d.digits * den) (upperEnd m * num)

/-! ### The search -/

/-- The least `k` such that a positive fraction is less than `10 ^ k`. -/
def pointPlace (num den : Nat) : Int :=
  if den ≤ num then (Text.ofNat (num / den)).length
  else 1 - ((Text.ofNat ((den - 1) / num)).length : Int)

/-- The nearer of the two grid points next to `m · 2 ^ q`, the lower of which is
given; the even one if they are equally near. -/
def nearer (m : Nat) (q p : Int) (below : Nat) : Decimal :=
  let (num, den) := gridRatio q p
  match compare (2 * m * num) ((2 * below + 1) * den) with
  | .lt => ⟨below, p⟩
  | .gt => ⟨below + 1, p⟩
  | .eq => ⟨below + below % 2, p⟩

/-- The point of the grid of `10 ^ p` that reads back as `m · 2 ^ q`. -/
def onGrid (m : Nat) (q p : Int) : Option Decimal :=
  let (num, den) := gridRatio q p
  let below := m * num / den
  let candidates := [nearer m q p below, ⟨below, p⟩, ⟨below + 1, p⟩]
  candidates.find? (readsBack m q)

def inFull (m : Nat) (q : Int) : Decimal :=
  if 0 ≤ q then ⟨m * Nat.pow 2 q.toNat, 0⟩ else ⟨m * Nat.pow 5 (-q).toNat, q⟩

/-- **The shortest decimal that reads back as `m · 2 ^ q`.**  Seventeen digits are
enough. -/
def shortest (m : Nat) (q : Int) : Decimal :=
  let place := pointPlace (m * Nat.pow 2 q.toNat) (Nat.pow 2 (-q).toNat)
  ((List.range 17).findSome? fun n : Nat => onGrid m q (place - 1 - n)).getD (inFull m q)

/-! ### What is chosen reads back -/

theorem readsBack_of_onGrid {m : Nat} {q p : Int} {d : Decimal} (h : onGrid m q p = some d) :
    readsBack m q d = true := List.find?_some h

theorem readsBack_of_exact {m : Nat} {q : Int} {d : Decimal} (hm : 0 < m)
    (hnum : 0 < (gridRatio q d.power).1)
    (h : d.digits * (gridRatio q d.power).2 = m * (gridRatio q d.power).1) :
    readsBack m q d = true := by
  have hlow : lowerEnd m q < 4 * m := by unfold lowerEnd; split <;> omega
  have hupp : 4 * m < upperEnd m := by unfold upperEnd; omega
  have h4 : 4 * d.digits * (gridRatio q d.power).2 = 4 * m * (gridRatio q d.power).1 := by
    rw [Nat.mul_assoc, h, Nat.mul_assoc]
  have hl := Nat.mul_lt_mul_of_pos_right hlow hnum
  have hu := Nat.mul_lt_mul_of_pos_right hupp hnum
  simp only [readsBack, h4]
  split <;> simp [hl, hu, Nat.le_of_lt hl, Nat.le_of_lt hu]

theorem readsBack_inFull {m : Nat} (hm : 0 < m) (q : Int) :
    readsBack m q (inFull m q) = true := by
  have h2 (n : Nat) : 0 < Nat.pow 2 n := Nat.pow_pos (by decide)
  have h10 (n : Nat) : 0 < Nat.pow 10 n := Nat.pow_pos (by decide)
  apply readsBack_of_exact hm (Nat.mul_pos (h2 _) (h10 _))
  unfold inFull
  split <;> rename_i hq
  · have hq' : (-q).toNat = 0 := by omega
    simp [gridRatio, hq']
  · have hq' : q.toNat = 0 := by omega
    have hone (b : Nat) : Nat.pow b 0 = 1 := rfl
    have hten (n : Nat) : Nat.pow 5 n * Nat.pow 2 n = Nat.pow 10 n := (Nat.mul_pow 5 2 n).symm
    simp only [gridRatio, hq', hone, Nat.mul_one, Nat.one_mul]
    rw [Nat.mul_assoc, hten]

theorem shortest_readsBack {m : Nat} (hm : 0 < m) (q : Int) :
    readsBack m q (shortest m q) = true := by
  unfold shortest
  simp only
  cases h : (List.range 17).findSome? fun n : Nat =>
      onGrid m q (pointPlace (m * Nat.pow 2 q.toNat) (Nat.pow 2 (-q).toNat) - 1 - n) with
  | none => exact readsBack_inFull hm q
  | some d =>
    obtain ⟨n, _, hn⟩ := List.exists_of_findSome?_eq_some h
    exact readsBack_of_onGrid hn

end Shortest

end ChipHighlight
