import IndexSync.Number.Binary64

/-! The shortest decimal that reads back as a given binary number, and its text. -/
namespace IndexSync.Number

/-- Digits and a power of ten. -/
structure Decimal where
  digits : Nat
  exponent : Int
  deriving DecidableEq, Repr

/-- The least power of ten not above a positive quotient, by its exponent. -/
def magnitude (num den : Nat) : Int :=
  if den ≤ num then ((Nat.toDigits 10 (num / den)).length : Int) - 1
  else -((Nat.toDigits 10 (den / num)).length : Int)

/-- Whether `c · 10^g` lies in the interval of numbers that round to `significand · 2^exponent`.
The ends belong to it when the significand is even. -/
def readsBack (significand : Nat) (exponent : Int) (c : Nat) (g : Int) : Bool :=
  let low :=
    if significand = Nat.pow 2 (Binary64.precision - 1) && Binary64.leastExponent < exponent then
      4 * significand - 1
    else 4 * significand - 2
  let high := 4 * significand + 2
  let (up, down) := Binary64.scaled 1 (exponent - 2)
  let (num, den) := if 0 ≤ g then (c * Nat.pow 10 g.toNat, 1) else (c, Nat.pow 10 (-g).toNat)
  let value := num * down
  let unit := up * den
  if significand % 2 = 0 then low * unit ≤ value && value ≤ high * unit
  else low * unit < value && value < high * unit

/-- The decimal with `count` digits nearest to the number among its two neighbours on that grid,
if one of them reads back. -/
def onGrid? (significand : Nat) (exponent : Int) (top : Int) (count : Nat) : Option Decimal :=
  let g := top + 1 - count
  let (num, den) := Binary64.scaled significand exponent
  let (num, den) :=
    if 0 ≤ g then (num, den * Nat.pow 10 g.toNat) else (num * Nat.pow 10 (-g).toNat, den)
  let below := num / den
  let rest := 2 * (num % den)
  let lower := readsBack significand exponent below g
  let upper := readsBack significand exponent (below + 1) g
  if lower && upper then
    some ⟨if den < rest || (rest = den && below % 2 = 1) then below + 1 else below, g⟩
  else if lower then some ⟨below, g⟩
  else if upper then some ⟨below + 1, g⟩
  else none

/-- The decimal with the fewest digits that reads back, the nearest of these. -/
def shortest (significand : Nat) (exponent : Int) : Decimal :=
  let (num, den) := Binary64.scaled significand exponent
  let top := magnitude num den
  let grids := (List.range 17).map (· + 1)
  (grids.findSome? (onGrid? significand exponent top)).getD ⟨significand, exponent⟩

/-- How numbers are written: positional when the point stands from four places before the first
digit to sixteen after it, and always with a fractional part; else with an exponent of two digits
or more. -/
structure NumberFormat where
  leastPoint : Int
  greatestPoint : Int
  exponentWidth : Nat

def NumberFormat.plain : NumberFormat := ⟨-3, 16, 2⟩

def padLeft (width : Nat) (cs : List Char) : List Char :=
  List.replicate (width - cs.length) '0' ++ cs

def Decimal.write (format : NumberFormat) (d : Decimal) : List Char :=
  let all := Nat.toDigits 10 d.digits
  let cs := (all.reverse.dropWhile (· = '0')).reverse
  let point := all.length + d.exponent
  if format.leastPoint ≤ point && point ≤ format.greatestPoint then
    if point ≤ 0 then '0' :: '.' :: List.replicate (-point).toNat '0' ++ cs
    else if cs.length ≤ point.toNat then
      cs ++ List.replicate (point.toNat - cs.length) '0' ++ ['.', '0']
    else cs.take point.toNat ++ '.' :: cs.drop point.toNat
  else
    let e := point - 1
    let mantissa := match cs with
      | [] => ['0']
      | [c] => [c]
      | c :: rest => c :: '.' :: rest
    mantissa ++ 'e' :: (if e < 0 then '-' else '+') ::
      padLeft format.exponentWidth (Nat.toDigits 10 e.natAbs)

end Number

/-- The shortest text that reads back as the number. -/
def Binary64.toText : Binary64 → String
  | .finite negative significand exponent =>
    let cs :=
      if significand = 0 then ['0', '.', '0']
      else (Number.shortest significand exponent).write .plain
    String.ofList (if negative then '-' :: cs else cs)
  | .infinite negative => if negative then "-inf" else "inf"
  | .nan => "nan"

end IndexSync
