import Mathlib.Tactic
import PathVector.Decimal

/-! The shape of decimal text: no zero stands in front, and small numbers are short. What reads as a
number is its decimal text after some zeros. -/
namespace PathVector
namespace Decimal

theorem digits_of_lt {n : Nat} (h : n < 10) : digits n = [Nat.digitChar n] :=
  Nat.toDigits_of_lt_base h

theorem digits_of_le {n : Nat} (h : 10 ≤ n) :
    digits n = digits (n/10)++[Nat.digitChar (n%10)] :=
  Nat.toDigits_of_base_le (by decide) h

theorem eq_zero_of_head?_digits {n : Nat} (h : (digits n).head? = some '0') : n = 0 := by
  induction n using Nat.strongRecOn with
  | ind n ih =>
    by_cases hn : n < 10
    · rw [digits_of_lt hn] at h
      simpa using h
    · have hd : (digits (n/10)).head? = some '0' := by
        rw [digits_of_le (by omega),List.head?_append_of_ne_nil _ (digits_ne_nil _)] at h
        exact h
      have := ih (n/10) (by omega) hd
      omega

theorem length_digits_le {n k : Nat} (hk : 0 < k) (h : n < 10^k) : (digits n).length ≤ k :=
  (Nat.length_toDigits_le_iff (by decide) hk).mpr h

theorem ofDigits?_eq_some {cs : List Char} {n : Nat} : ofDigits? cs = some n ↔
    cs ≠ [] ∧ (∀ c ∈ cs, c.isDigit = true) ∧ Nat.ofDigitChars 10 cs 0 = n := by
  rw [ofDigits?,Option.ite_none_right_eq_some,List.all_eq_true,and_assoc,Option.some.injEq]

theorem exists_eq_digitChar {c : Char} (h : c.isDigit = true) :
    ∃ d < 10, c = Nat.digitChar d ∧ c.toNat - '0'.toNat = d := by
  have hc : 48 ≤ c.toNat ∧ c.toNat ≤ 57 := Char.isDigit_iff_toNat.mp h
  refine ⟨c.toNat - '0'.toNat,by simp; omega,?_,rfl⟩
  have h10 : c.toNat - '0'.toNat < 10 := by simp; omega
  apply Char.toNat_inj.mp
  rw [Nat.toNat_digitChar_of_lt_ten h10]
  simp; omega

/-- Induction on the text from its end: one more digit makes the number ten times as large, and an
empty number in front of it only adds a zero. -/
theorem eq_zeros_append_digits {cs : List Char} {n : Nat} (h : ofDigits? cs = some n) :
    ∃ k, cs = List.replicate k '0'++digits n := by
  induction cs using List.reverseRecOn generalizing n with
  | nil => exact absurd rfl (ofDigits?_eq_some.mp h).1
  | append_singleton ds c ih =>
    obtain ⟨-,hd,rfl⟩ := ofDigits?_eq_some.mp h
    obtain ⟨d,hlt,hc,hv⟩ := exists_eq_digitChar (hd c (by simp))
    rw [Nat.ofDigitChars_append,Nat.ofDigitChars_cons,Nat.ofDigitChars_nil,hv,hc]
    rcases eq_or_ne ds [] with rfl | hne
    · exact ⟨0,by simp [digits_of_lt hlt]⟩
    · obtain ⟨k,hk⟩ := ih (ofDigits?_eq_some.mpr ⟨hne,fun c hc => hd c (by simp [hc]),rfl⟩)
      generalize Nat.ofDigitChars 10 ds 0 = m at hk ⊢
      rcases Nat.eq_zero_or_pos m with rfl | hm
      · refine ⟨k+1,?_⟩
        rw [hk,Nat.mul_zero,Nat.zero_add,digits_of_lt hlt,digits_of_lt (by decide : 0 < 10)]
        simp [List.replicate_succ']
      · refine ⟨k,?_⟩
        rw [hk,digits_of_le (by omega : 10 ≤ 10*m+d),List.append_assoc]
        congr <;> omega

end Decimal
end PathVector
