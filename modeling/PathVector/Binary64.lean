/-! Finite double-precision numbers as sign, mantissa and binary exponent. All arithmetic is on
exact quotients of naturals and rounds once, to the nearest number with ties to the even mantissa.
-/
namespace PathVector

/-- The number `mantissa * 2 ^ exponent` with a sign; zero has one too. -/
structure Binary64 where
  negative : Bool
  mantissa : Nat
  exponent : Int
deriving DecidableEq

namespace Binary64

/-- The quotient rounded to the nearest natural, ties to even. -/
def roundDiv (n d : Nat) : Nat :=
  let q := n/d
  let r := 2*(n%d)
  if r < d then q else if d < r then q+1 else q+q%2

/-- The least mantissa of a number that has all 53 bits. -/
def leastNormal : Nat := 1 <<< 52

def leastExponent : Int := -1074

def greatestExponent : Int := 971

/-- Numerator and denominator of `n / d * 2 ^ e`. -/
def scale (n d : Nat) (e : Int) : Nat × Nat := (n <<< e.toNat,d <<< (-e).toNat)

/-- The exponent under which `n / d` has a mantissa of 53 bits, or the least one. -/
def exponentFor (n d : Nat) : Int :=
  let e := max ((n.log2 : Int)-d.log2-53) leastExponent
  let (a,b) := scale n d (-e)
  if b <<< 53 ≤ a then e+1 else e

/-- The nearest number to `n / d`; none if that is too large. -/
def ofRatio? (negative : Bool) (n d : Nat) : Option Binary64 :=
  if n = 0 then some ⟨negative,0,leastExponent⟩
  else
    let e := exponentFor n d
    let (a,b) := scale n d (-e)
    let m := roundDiv a b
    let x : Binary64 := if m = 2*leastNormal then ⟨negative,leastNormal,e+1⟩ else ⟨negative,m,e⟩
    if x.exponent ≤ greatestExponent then some x else none

def ofNat? (n : Nat) : Option Binary64 := ofRatio? false n 1

def isZero (x : Binary64) : Bool := x.mantissa = 0

def neg (x : Binary64) : Binary64 := { x with negative := !x.negative }

def ratio (x : Binary64) : Nat × Nat := scale x.mantissa 1 x.exponent

def mul? (x y : Binary64) : Option Binary64 :=
  ofRatio? (x.negative != y.negative) (x.ratio.1*y.ratio.1) (x.ratio.2*y.ratio.2)

def div? (x y : Binary64) : Option Binary64 :=
  if y.isZero then none
  else ofRatio? (x.negative != y.negative) (x.ratio.1*y.ratio.2) (x.ratio.2*y.ratio.1)

/-- The largest power of ten that is not beyond all numbers. -/
def greatestTen : Nat := 308

def ten? (k : Nat) : Option Binary64 := ofNat? (Nat.pow 10 k)

/-- Scale by a power of ten, in steps of at most `greatestTen`, each rounded; none if the result is
too large. -/
def scaleTen? (x : Binary64) (e : Int) : Option Binary64 :=
  if e.natAbs ≤ greatestTen then
    (ten? e.natAbs).bind fun p => if 0 ≤ e then x.mul? p else x.div? p
  else if x.isZero then some x
  else if 0 ≤ e then none
  else ((ten? greatestTen).bind x.div?).bind fun y => y.scaleTen? (e+greatestTen)
termination_by e.natAbs
decreasing_by simp only [greatestTen] at *; omega

/-- The number that the decimal `s * 10 ^ e` stands for. -/
def ofDecimal? (s : Nat) (e : Int) : Option Binary64 := (ofNat? s).bind (·.scaleTen? e)

end Binary64
end PathVector
