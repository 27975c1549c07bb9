/-! Natural numbers written in decimal. Reading accepts every non-empty run of digits, so it undoes
writing and also takes leading zeros. -/
namespace PathVector
namespace Decimal

def digits (n : Nat) : List Char := Nat.toDigits 10 n

/-- The value of a non-empty run of ASCII digits. -/
def ofDigits? (cs : List Char) : Option Nat :=
  if cs ≠ [] ∧ cs.all Char.isDigit then some (Nat.ofDigitChars 10 cs 0) else none

@[simp] theorem digits_ne_nil (n : Nat) : digits n ≠ [] := Nat.toDigits_ne_nil

theorem isDigit_of_mem_digits {n : Nat} {c : Char} (h : c ∈ digits n) : c.isDigit = true :=
  Nat.isDigit_of_mem_toDigits (by decide) (by decide) h

@[simp] theorem ofDigits?_digits (n : Nat) : ofDigits? (digits n) = some n := by
  have h : (digits n).all Char.isDigit = true := List.all_eq_true.mpr fun _ => isDigit_of_mem_digits
  simp only [ofDigits?,ne_eq,digits_ne_nil,not_false_eq_true,h,and_self,if_true]
  exact congrArg some (Nat.ofDigitChars_ten_toDigits)

end Decimal
end PathVector
