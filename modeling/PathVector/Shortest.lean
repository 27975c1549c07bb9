import PathVector.Binary64
import PathVector.Decimal

/-! The shortest decimal that reads back as a given double-precision number, and its text.
A decimal reads back if it lies between the midpoints to the two neighbors of the number, ends
included when the mantissa is even. Of the decimals with the fewest digits the nearest is taken. -/
namespace PathVector
namespace Binary64

/-- A number between its two midpoints, in quarters of its last binary place. -/
structure Interval where
  low : Nat
  value : Nat
  high : Nat
  closed : Bool

def interval (x : Binary64) : Interval :=
  let m := 4*x.mantissa
  let atPower := x.mantissa = leastNormal ∧ leastExponent < x.exponent
  ⟨if atPower then m-1 else m-2,m,m+2,x.mantissa%2 = 0⟩

/-- The interval, with its ends times `unit`, contains `n`. -/
def Interval.covers (i : Interval) (unit n : Nat) : Bool :=
  if i.closed then i.low*unit ≤ n && n ≤ i.high*unit else i.low*unit < n && n < i.high*unit

/-- Digits before the decimal point of `n / d`, negative for leading zeros after it. -/
def pointOf (n d : Nat) : Int :=
  if d ≤ n then (Decimal.digits (n/d)).length
  else -(((List.range 400).find? fun z => d ≤ n*Nat.pow 10 (z+1)).getD 400 : Nat)

/-- The one or two neighbors of the value on the grid of `10 ^ g` that read back, nearest first. -/
def onGrid? (x : Binary64) (g : Int) : Option Nat :=
  let i := x.interval
  let (un,ud) := scale 1 4 x.exponent
  let a := Nat.pow 10 g.toNat*ud
  let b := Nat.pow 10 (-g).toNat*un
  let c := i.value*b/a
  let covers (k : Nat) := i.covers b (k*a)
  let below := i.value*b-c*a
  let above := (c+1)*a-i.value*b
  if covers c && (!covers (c+1) || below < above || (below = above && c%2 = 0)) then some c
  else if covers (c+1) then some (c+1)
  else none

/-- Digits and the place of the decimal point: `0.d₁d₂…` times ten to that power. Seventeen digits
always read back. -/
def shortest (x : Binary64) : List Char × Int :=
  let point := pointOf x.ratio.1 x.ratio.2
  let hit := (List.range' 1 17).findSome? fun n : Nat => (x.onGrid? (point-n)).map (·,n)
  match hit with
  | some (c,n) =>
    let ds := Decimal.digits c
    ((ds.reverse.dropWhile (· = '0')).reverse,point+(ds.length-n : Int))
  | none => (['0'],1)

/-- Positional from 1e-5 up to below 1e16, always with a point; else one digit before the point, and
a signed exponent. -/
def chars (x : Binary64) : List Char :=
  let sign := if x.negative then ['-'] else []
  if x.isZero then sign++"0.0".toList
  else
    let (ds,point) := x.shortest
    let n : Int := ds.length
    sign++
      if 0 < point ∧ point ≤ 16 then
        if n ≤ point then ds++List.replicate (point-n).toNat '0'++['.','0']
        else ds.take point.toNat ++ '.' :: ds.drop point.toNat
      else if -5 < point ∧ point ≤ 0 then
        '0' :: '.' :: List.replicate (-point).toNat '0'++ds
      else
        let e := point-1
        let mantissa := if ds.length = 1 then ds else ds.take 1 ++ '.' :: ds.drop 1
        mantissa ++ 'e' :: (if e < 0 then '-' else '+')::Decimal.digits e.natAbs

end Binary64
end PathVector
