import PathVector.Decimal

/-! Router addresses: 32-bit words, written as four decimal octets between dots. -/
namespace PathVector

structure Address where
  bits : BitVec 32
deriving DecidableEq, Inhabited

namespace Address

instance : Ord Address := ⟨compareOn (·.bits)⟩

instance : Std.TransOrd Address := inferInstanceAs (Std.TransCmp (compareOn Address.bits))

instance : Std.LawfulEqOrd Address where
  eq_of_compare {a b} h := by
    have := Std.LawfulEqOrd.eq_of_compare (α := BitVec 32) h
    cases a; cases b; simp_all

theorem compare_eq_lt {a b : Address} : compare a b = .lt ↔ a.bits < b.bits :=
  compareOfLessAndEq_eq_lt

def ofOctets (a b c d : Nat) : Address := ⟨.ofNat 32 (((a*256+b)*256+c)*256+d)⟩

def octets (a : Address) : List Nat :=
  let n := a.bits.toNat
  [n/16777216,n/65536%256,n/256%256,n%256]

/-- Neighbors reach the router at the address that ends in 1 on the link they share. -/
def gateway (a : Address) : Address := ⟨a.bits &&& 0xffffff00#32 ||| 1#32⟩

def chars (a : Address) : List Char :=
  ['.'].intercalate (a.octets.map Decimal.digits)

instance : ToString Address := ⟨fun a => String.ofList a.chars⟩

/-- An octet has no leading zero and is at most 255. -/
def octet? (cs : List Char) : Option Nat :=
  if cs.length ≤ 3 ∧ (cs.head? = some '0' → cs = ['0']) then
    (Decimal.ofDigits? cs).filter (· ≤ 255)
  else none

/-- Exactly four octets between dots. -/
def ofText? (s : String) : Option Address :=
  match s.toList.splitOn '.' with
  | [a,b,c,d] => do
    return ofOctets (← octet? a) (← octet? b) (← octet? c) (← octet? d)
  | _ => none

end Address
end PathVector
