/-! Binary floating-point numbers of 64 bits, by value. -/
namespace IndexSync

/-- A finite number is `significand · 2^exponent` with a sign of its own. The significand has 53
bits, or fewer at the least exponent. -/
inductive Binary64
  | finite (negative : Bool) (significand : Nat) (exponent : Int)
  | infinite (negative : Bool)
  | nan
  deriving DecidableEq, Repr, Inhabited

namespace Binary64

def precision : Nat := 53
def leastExponent : Int := -1074
def greatestExponent : Int := 971

/-- `n · 2^e` as a quotient of naturals. -/
def scaled (n : Nat) (e : Int) : Nat × Nat :=
  if 0 ≤ e then (n * Nat.pow 2 e.toNat, 1) else (n, Nat.pow 2 (-e).toNat)

/-- The quotient to the nearest integer, a half to the even neighbour. -/
def divideEven (num den : Nat) : Nat :=
  let quotient := num / den
  let rest := 2 * (num % den)
  if den < rest || (rest = den && quotient % 2 = 1) then quotient + 1 else quotient

/-- The exponent at which a positive quotient fills the significand, or the least one. -/
def exponentFor (num den : Nat) : Int :=
  let guess : Int := (num.log2 : Int) - den.log2 - (precision - 1 : Nat)
  let fits (e : Int) : Bool :=
    let (n, d) := scaled den e
    n * Nat.pow 2 (precision - 1) ≤ num * d
  max leastExponent (if fits guess then guess else guess - 1)

/-- The number nearest to a quotient; beyond the greatest number stands infinity. -/
def ofRatio (negative : Bool) (num den : Nat) : Binary64 :=
  if num = 0 then finite negative 0 leastExponent
  else
    let e := exponentFor num den
    let (n, d) := scaled den e
    let significand := divideEven (num * d) n
    let (significand, e) :=
      if significand = Nat.pow 2 precision then (Nat.pow 2 (precision - 1), e + 1)
      else (significand, e)
    if greatestExponent < e then infinite negative else finite negative significand e

/-- The number nearest to `digits · 10^exponent`. -/
def ofDecimal (negative : Bool) (digits : Nat) (exponent : Int) : Binary64 :=
  let size := (Nat.toDigits 10 digits).length
  if digits = 0 || exponent + size < -340 then finite negative 0 leastExponent
  else if 320 < exponent + size then infinite negative
  else if 0 ≤ exponent then ofRatio negative (digits * Nat.pow 10 exponent.toNat) 1
  else ofRatio negative digits (Nat.pow 10 (-exponent).toNat)

def ofInt (n : Int) : Binary64 :=
  ofRatio (n < 0) n.natAbs 1

def ofRat (r : Rat) : Binary64 :=
  ofRatio (r < 0) r.num.natAbs r.den

/-- The exact value of a finite number. -/
def toRat? : Binary64 → Option Rat
  | finite negative significand exponent =>
    let (n, d) := scaled significand exponent
    some (mkRat (if negative then -n else n) d)
  | _ => none

/-- The sum of finite numbers, rounded. -/
def plus (x y : Binary64) : Binary64 := ofRat ((x.toRat?).getD 0 + (y.toRat?).getD 0)

/-- A multiple of a finite number, rounded. -/
def times (x : Binary64) (n : Nat) : Binary64 := ofRat ((x.toRat?).getD 0 * n)

/-- A finite number cut to an integer, toward zero. -/
def truncate? : Binary64 → Option Int
  | finite negative significand exponent =>
    let (n, d) := scaled significand exponent
    some (if negative then -(n / d : Nat) else (n / d : Nat))
  | _ => none

/-- Whether a finite number has no fractional part. -/
def isIntegral : Binary64 → Bool
  | finite _ significand exponent =>
    let (n, d) := scaled significand exponent
    n % d = 0
  | _ => false

/-- Whether the number is above zero; the undefined one is not. -/
def isPositive : Binary64 → Bool
  | finite negative significand _ => !negative && significand ≠ 0
  | infinite negative => !negative
  | nan => false

end Binary64
end IndexSync
