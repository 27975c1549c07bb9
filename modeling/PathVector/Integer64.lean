/-! Decimal text of 64-bit integers. Text is read from the left and the first fault counts. -/
namespace PathVector

inductive IntegerFault where
  | empty
  | invalidDigit
  | tooLarge
  | tooSmall
deriving DecidableEq

namespace IntegerFault

def message : IntegerFault → String
  | empty => "cannot parse integer from empty string"
  | invalidDigit => "invalid digit found in string"
  | tooLarge => "number too large to fit in target type"
  | tooSmall => "number too small to fit in target type"

end IntegerFault

namespace Integer64

/-- Negative numbers reach down to minus this, the others stay below it. -/
def limit : Nat := 0x8000000000000000

/-- Append digits to a magnitude, which must not exceed `bound`. -/
def magnitude (bound : Nat) (tooBig : IntegerFault) : Nat → List Char → Except IntegerFault Nat
  | n, [] => .ok n
  | n, c::cs =>
    if c.isDigit then
      let m := n*10+(c.toNat - '0'.toNat)
      if m ≤ bound then magnitude bound tooBig m cs else .error tooBig
    else .error .invalidDigit

/-- An optional sign and at least one digit. -/
def parse (s : String) : Except IntegerFault Int :=
  match s.toList with
  | [] => .error .empty
  | ['+'] | ['-'] => .error .invalidDigit
  | '-'::ds => (fun n => -(n : Int)) <$> magnitude limit .tooSmall 0 ds
  | '+'::ds => (fun n => (n : Int)) <$> magnitude (limit-1) .tooLarge 0 ds
  | ds => (fun n => (n : Int)) <$> magnitude (limit-1) .tooLarge 0 ds

end Integer64
end PathVector
