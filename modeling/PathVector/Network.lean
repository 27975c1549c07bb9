import PathVector.Mask

/-! Blocks of addresses: the addresses that agree with a base address on the bits under a mask. The
base may have bits outside the mask; they are kept and play no part in matching. -/
namespace PathVector

structure Network where
  base : Address
  mask : Mask
deriving DecidableEq, Inhabited

namespace Network

instance : Ord Network := ⟨compareLex (compareOn (·.base)) (compareOn (·.mask))⟩

instance : Std.TransOrd Network :=
  inferInstanceAs (Std.TransCmp (compareLex (compareOn Network.base) (compareOn Network.mask)))

instance : Std.LawfulEqOrd Network where
  eq_of_compare {a b} h := by
    obtain ⟨h₁,h₂⟩ := Ordering.then_eq_eq.mp h
    have h₁ := Std.LawfulEqOrd.eq_of_compare (α := Address) h₁
    have h₂ := Std.LawfulEqOrd.eq_of_compare (α := Mask) h₂
    cases a; cases b; simp_all

instance : ToString Network := ⟨fun n => s!"{n.base}/{n.mask.length}"⟩

/-- `d` agrees with the base on every bit under the mask. -/
def Contains (n : Network) (d : Address) : Prop :=
  n.base.bits >>> n.mask.shift = d.bits >>> n.mask.shift

instance (n : Network) (d : Address) : Decidable (n.Contains d) :=
  inferInstanceAs (Decidable (_ = _))

theorem contains_base (n : Network) : n.Contains n.base := rfl

end Network
end PathVector
