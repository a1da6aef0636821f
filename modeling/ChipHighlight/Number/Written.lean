import ChipHighlight.Number.Binary64
import ChipHighlight.Number.Shortest

/-!
# How numbers with a point are written

The digits are the fewest that read back.  From `10 ^ (-4)` up to `10 ^ 16` the
point stands where it belongs, with at least one digit on either side of it;
elsewhere it stands behind the first digit, if there is another, and a power of ten
with its sign and at least two digits follows.
-/

namespace ChipHighlight

namespace Decimal

def trimZeros (digits : Text) : Text := (digits.reverse.dropWhile (· == '0')).reverse

/-- Digits with the point behind the first of them, and the power of ten that
remains. -/
def scientific (digits : Text) (power : Int) : Text :=
  let size := Text.ofNat power.natAbs
  digits.take 1 ++ (if digits.length ≤ 1 then [] else '.' :: digits.drop 1) ++
    ['e', if power < 0 then '-' else '+'] ++ (if size.length < 2 then '0' :: size else size)

/-- Digits with the point `point` places behind their beginning, where zeros fill
up what the digits do not reach. -/
def positional (digits : Text) (point : Int) : Text :=
  if point ≤ 0 then '0' :: '.' :: List.replicate point.natAbs '0' ++ digits
  else if digits.length ≤ point.toNat then
    digits ++ List.replicate (point.toNat - digits.length) '0' ++ ['.', '0']
  else digits.take point.toNat ++ '.' :: digits.drop point.toNat

def text (d : Decimal) : Text :=
  let written := Text.ofNat d.digits
  let point : Int := written.length + d.power
  if -4 < point && point ≤ 16 then positional (trimZeros written) point
  else scientific (trimZeros written) (point - 1)

end Decimal

/-- **A number of 64 bits as it is written.**  Zero keeps its sign. -/
def Binary64.text : Binary64 → Text
  | finite negative m q =>
    (if negative then ['-'] else []) ++
      (if m = 0 then ['0', '.', '0'] else (Shortest.shortest m q).text)
  | infinite negative => (if negative then ['-'] else []) ++ "inf".toList
  | nan => "nan".toList

end ChipHighlight
