import Mathlib.Tactic
import PathVector.Network

/-! Blocks of addresses in arithmetic. Cutting off the bits outside a mask is division by a power of
two, so a network contains the addresses in the block of its base, and a block of twice the size has
two halves. -/
namespace PathVector

namespace Mask

theorem shift_parent {m : Mask} (h : m.length ≠ 0) : (ofLength (m.length-1)).shift = m.shift+1 := by
  have := m.length_le
  simp only [shift,length_ofLength]
  omega

theorem shift_lt {m : Mask} (h : m.length ≠ 0) : m.shift < 32 := by
  unfold shift
  omega

theorem eq_of_shift_eq {m m' : Mask} (h : m.shift = m'.shift) : m = m' := by
  obtain ⟨l,hl⟩ := m
  obtain ⟨l',hl'⟩ := m'
  simp only [shift] at h
  have : l = l' := by omega
  subst this
  rfl

/-- Keeping the bits under a mask rounds down to a multiple of the block size. -/
theorem toNat_and_address (v : BitVec 32) (m : Mask) :
    (v &&& m.address.bits).toNat = v.toNat/2^m.shift*2^m.shift := by
  have h : v &&& m.address.bits = (v >>> m.shift) <<< m.shift := by
    ext i hi
    simp only [address,BitVec.getElem_and,BitVec.getElem_shiftLeft,BitVec.getElem_allOnes,
      BitVec.getElem_ushiftRight]
    by_cases hs : i < m.shift
    · simp [hs]
    · have he : m.shift+(i-m.shift) = i := by omega
      simp [hs,he,BitVec.getLsbD_eq_getElem hi]
  have hle : v.toNat/2^m.shift*2^m.shift < 2^32 :=
    Nat.lt_of_le_of_lt (Nat.div_mul_le_self _ _) v.isLt
  rw [h,BitVec.toNat_shiftLeft,BitVec.toNat_ushiftRight,Nat.shiftRight_eq_div_pow,
    Nat.shiftLeft_eq,Nat.mod_eq_of_lt hle]

end Mask

/-- The number of the block of `2 ^ shift` addresses that holds the address. -/
def Address.blockIndex (a : Address) (shift : Nat) : Nat := a.bits.toNat/2^shift

theorem Address.blockIndex_succ (a : Address) (s : Nat) :
    a.blockIndex (s+1) = a.blockIndex s/2 := by
  rw [blockIndex,blockIndex,pow_succ,Nat.div_div_eq_div_mul]

theorem Address.ushiftRight_eq_iff (a b : Address) (s : Nat) :
    a.bits >>> s = b.bits >>> s ↔ a.blockIndex s = b.blockIndex s := by
  rw [← BitVec.toNat_inj,BitVec.toNat_ushiftRight,BitVec.toNat_ushiftRight,
    Nat.shiftRight_eq_div_pow,Nat.shiftRight_eq_div_pow]
  rfl

namespace Network

/-- No bit of the base lies outside the mask. -/
def Aligned (n : Network) : Prop := n.base.bits &&& n.mask.address.bits = n.base.bits

instance (n : Network) : Decidable n.Aligned := inferInstanceAs (Decidable (_ = _))

theorem aligned_iff (n : Network) :
    n.Aligned ↔ n.base.bits.toNat = n.base.blockIndex n.mask.shift*2^n.mask.shift := by
  unfold Aligned
  rw [← BitVec.toNat_inj,Mask.toNat_and_address]
  exact eq_comm

/-- A network contains the addresses in the block of its base. -/
theorem contains_iff (n : Network) (d : Address) :
    n.Contains d ↔ n.base.blockIndex n.mask.shift = d.blockIndex n.mask.shift :=
  Address.ushiftRight_eq_iff n.base d n.mask.shift

theorem eq_of_blockIndex_eq {n m : Network} (hn : n.Aligned) (hm : m.Aligned)
    (hmask : n.mask = m.mask)
    (h : n.base.blockIndex n.mask.shift = m.base.blockIndex n.mask.shift) : n = m := by
  rw [aligned_iff] at hn hm
  rw [← hmask,← h] at hm
  have hb : n.base.bits = m.base.bits := BitVec.eq_of_toNat_eq (hn.trans hm.symm)
  obtain ⟨⟨bits⟩,mask⟩ := n
  obtain ⟨⟨bits'⟩,mask'⟩ := m
  simp only at hb hmask
  subst hb hmask
  rfl

/-- A network and a larger one around it. -/
structure InParent (n p : Network) : Prop where
  shift : p.mask.shift = n.mask.shift+1
  index : p.base.blockIndex p.mask.shift = n.base.blockIndex p.mask.shift

theorem InParent.contains {n p : Network} (h : n.InParent p) {d : Address} (hd : n.Contains d) :
    p.Contains d := by
  have hs := h.shift
  have hi := h.index
  simp only [contains_iff,hs,Address.blockIndex_succ] at hi hd ⊢
  rw [hi,hd]

theorem InParent.contains_iff_or {n m p : Network} (hn : n.InParent p) (hm : m.InParent p)
    (h : n.base.blockIndex n.mask.shift ≠ m.base.blockIndex n.mask.shift) (d : Address) :
    p.Contains d ↔ n.Contains d ∨ m.Contains d := by
  have hs := hn.shift
  have hn := hn.index
  have hm' := hm.index
  have hms : m.mask.shift = n.mask.shift := by have := hm.shift; omega
  simp only [contains_iff,hms,hs,Address.blockIndex_succ] at hn hm' ⊢
  omega

/-- The network of the same size with which it makes up a larger block. -/
def sibling (n : Network) : Network := ⟨⟨n.base.bits ^^^ 1#32 <<< n.mask.shift⟩,n.mask⟩

theorem sibling_sibling (n : Network) : n.sibling.sibling = n := by
  unfold sibling
  simp only [BitVec.xor_assoc,BitVec.xor_self,BitVec.xor_zero]

section Sibling

variable {n : Network} (h : n.mask.length ≠ 0)

include h

theorem toNat_base_sibling : n.sibling.base.bits.toNat = n.base.bits.toNat ^^^ 2^n.mask.shift := by
  have hlt : 2^n.mask.shift < 2^32 := Nat.pow_lt_pow_right (by decide) (Mask.shift_lt h)
  simp only [sibling]
  rw [BitVec.toNat_xor,BitVec.toNat_shiftLeft,BitVec.toNat_ofNat,Nat.shiftLeft_eq,Nat.one_mod,
    one_mul,Nat.mod_eq_of_lt hlt]

theorem blockIndex_sibling :
    n.sibling.base.blockIndex n.mask.shift = n.base.blockIndex n.mask.shift ^^^ 1 := by
  rw [Address.blockIndex,toNat_base_sibling h,Nat.xor_div_two_pow,
    Nat.div_self (Nat.two_pow_pos _)]
  rfl

/-- The two have different blocks in one block of twice the size. -/
theorem sibling_index :
    n.sibling.base.blockIndex n.mask.shift/2 = n.base.blockIndex n.mask.shift/2 ∧
      n.sibling.base.blockIndex n.mask.shift ≠ n.base.blockIndex n.mask.shift := by
  have hmod := @Nat.xor_mod_two_pow (n.base.blockIndex n.mask.shift) 1 1
  rw [blockIndex_sibling h]
  refine ⟨by simp [Nat.xor_div_two],fun he => ?_⟩
  rw [he] at hmod
  rcases Nat.mod_two_eq_zero_or_one (n.base.blockIndex n.mask.shift) with hi | hi <;>
    simp [hi] at hmod

end Sibling

theorem Aligned.sibling {n : Network} (ha : n.Aligned) (h : n.mask.length ≠ 0) :
    n.sibling.Aligned := by
  rw [aligned_iff] at ha ⊢
  have hm : n.sibling.mask = n.mask := rfl
  rw [hm,blockIndex_sibling h,toNat_base_sibling h,← Nat.shiftLeft_eq,
    Nat.shiftLeft_xor_distrib,Nat.one_shiftLeft,Nat.shiftLeft_eq,← ha]

theorem aligned_iff_dvd (n : Network) : n.Aligned ↔ 2^n.mask.shift ∣ n.base.bits.toNat :=
  (aligned_iff n).trans ⟨fun h => ⟨_,h.trans (Nat.mul_comm _ _)⟩,
    fun h => (Nat.div_mul_cancel h).symm⟩

theorem InParent.mask_eq {n m p : Network} (hn : n.InParent p) (hm : m.InParent p) :
    n.mask = m.mask := by
  have := hn.shift
  have := hm.shift
  exact Mask.eq_of_shift_eq (by omega)

theorem InParent.eq_or_eq {n m k p : Network} (hn : n.InParent p) (hm : m.InParent p)
    (hk : k.InParent p) (h : n.base.blockIndex n.mask.shift ≠ m.base.blockIndex n.mask.shift)
    (hna : n.Aligned) (hma : m.Aligned) (hka : k.Aligned) : k = n ∨ k = m := by
  have hp : p.Contains k.base := (contains_iff p k.base).mpr hk.index
  rcases (hn.contains_iff_or hm h k.base).mp hp with hc | hc
  · exact .inl (eq_of_blockIndex_eq hna hka (hn.mask_eq hk) ((contains_iff n k.base).mp hc)).symm
  · exact .inr (eq_of_blockIndex_eq hma hka (hm.mask_eq hk) ((contains_iff m k.base).mp hc)).symm

theorem InParent.unique {n p q : Network} (hp : n.InParent p) (hq : n.InParent q)
    (hpa : p.Aligned) (hqa : q.Aligned) : p = q := by
  have hs : p.mask.shift = q.mask.shift := hp.shift.trans hq.shift.symm
  exact eq_of_blockIndex_eq hpa hqa (Mask.eq_of_shift_eq hs)
    (hp.index.trans (hs ▸ hq.index.symm))

theorem InParent.of_sibling {n p : Network} (hp : n.InParent p) (h : n.mask.length ≠ 0) :
    n.sibling.InParent p := by
  have hs := hp.shift
  have hi := hp.index
  refine ⟨hs,?_⟩
  rw [hs,Address.blockIndex_succ] at hi ⊢
  rw [Address.blockIndex_succ,(sibling_index h).1,hi,Address.blockIndex_succ]

/-- The half with the base of the network, and the other one. -/
def lowerHalf (n : Network) : Network := { n with mask := .ofLength (n.mask.length+1) }

def upperHalf (n : Network) : Network := n.lowerHalf.sibling

section Halves

variable {n : Network} (h : n.mask.length < 32)

include h

theorem length_lowerHalf : n.lowerHalf.mask.length = n.mask.length+1 := Nat.min_eq_left h

theorem lowerHalf_inParent : n.lowerHalf.InParent n := by
  refine ⟨?_,rfl⟩
  unfold Mask.shift
  rw [length_lowerHalf h]
  omega

theorem upperHalf_inParent : n.upperHalf.InParent n :=
  (lowerHalf_inParent h).of_sibling (by rw [length_lowerHalf h]; omega)

theorem Aligned.lowerHalf (ha : n.Aligned) : n.lowerHalf.Aligned := by
  rw [aligned_iff_dvd] at ha ⊢
  have hs := (lowerHalf_inParent h).shift
  exact (Nat.pow_dvd_pow 2 (by omega)).trans ha

theorem Aligned.upperHalf (ha : n.Aligned) : n.upperHalf.Aligned :=
  (ha.lowerHalf h).sibling (by rw [length_lowerHalf h]; omega)

end Halves

theorem InParent.sibling {n p : Network} (hp : n.InParent p) (h : n.mask.length ≠ 0) :
    p.Contains n.sibling.base ∧ ¬ n.Contains n.sibling.base := by
  have hs := hp.shift
  have hi := hp.index
  obtain ⟨hdiv,hne⟩ := sibling_index h
  simp only [contains_iff,hs,Address.blockIndex_succ] at hi ⊢
  exact ⟨hi.trans hdiv.symm,hne.symm⟩

end Network
end PathVector
