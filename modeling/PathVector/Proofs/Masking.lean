import PathVector.Proofs.Address
import PathVector.Proofs.Block
import PathVector.Route

/-! Matching as masking. An address is a mask if it is a run of ones followed by zeros, and a route
matches the addresses that agree with its base under its mask. So two networks that have an address
in common lie one in the other, and the one with the longer mask lies inside. -/
namespace PathVector

namespace Address

/-- The bits of an address from the highest to the lowest. -/
def bitList (a : Address) : List Bool := (List.range 32).map a.bits.getMsbD

theorem length_bitList (a : Address) : a.bitList.length = 32 := by simp [bitList]

theorem eq_of_bitList_eq {a b : Address} (h : a.bitList = b.bitList) : a = b := by
  apply congrArg Address.mk
  apply BitVec.eq_of_getMsbD_eq
  intro i hi
  exact List.map_inj_left.mp h i (List.mem_range.mpr hi)

theorem blockIndex_eq_of_le {a b : Address} {s t : Nat} (hst : s ≤ t)
    (h : a.blockIndex s = b.blockIndex s) : a.blockIndex t = b.blockIndex t := by
  induction t,hst using Nat.le_induction with
  | base => exact h
  | succ t _ ih => rw [blockIndex_succ,blockIndex_succ,ih]

end Address

namespace Mask

theorem bitList_address (m : Mask) :
    m.address.bitList = List.replicate m.length true++List.replicate m.shift false := by
  have hl := m.length_le
  apply List.ext_getElem
  · simp [Address.bitList,shift,hl]
  · intro i hi _
    simp only [Address.bitList,List.getElem_map,List.getElem_range,getMsbD_address,
      List.getElem_append,List.length_replicate,List.getElem_replicate]
    by_cases h : i < m.length <;> simp [h]

/-- An address is a mask if its bits are ones followed by zeros. -/
theorem exists_ofAddress?_iff (a : Address) : (∃ m, ofAddress? a = some m) ↔
    ∃ ones zeros, a.bitList = List.replicate ones true++List.replicate zeros false := by
  constructor
  · rintro ⟨m,hm⟩
    exact ⟨m.length,m.shift,address_of_ofAddress? hm ▸ m.bitList_address⟩
  · rintro ⟨ones,zeros,hbits⟩
    have hsum : ones+zeros = 32 := by
      rw [← a.length_bitList,hbits,List.length_append,List.length_replicate,List.length_replicate]
    have hones : (ofLength ones).length = ones := Nat.min_eq_left (by omega)
    have hzeros : (ofLength ones).shift = zeros := by
      rw [shift,hones]
      omega
    have ha : (ofLength ones).address = a := by
      apply Address.eq_of_bitList_eq
      rw [bitList_address,hones,hzeros,hbits]
    exact ⟨ofLength ones,ha ▸ ofAddress?_address _⟩

example : Mask.ofAddress? (.ofOctets 255 0 255 0) = none := by decide

theorem count_bitList_address (m : Mask) :
    m.address.bitList.count true = m.length ∧ m.address.bitList.count false = m.shift := by
  rw [bitList_address]
  simp [List.count_replicate]

end Mask

namespace Network

/-- A network contains the addresses that agree with its base under its mask. -/
theorem contains_iff_and (n : Network) (d : Address) : n.Contains d ↔
    d.bits &&& n.mask.address.bits = n.base.bits &&& n.mask.address.bits := by
  rw [contains_iff,← BitVec.toNat_inj,Mask.toNat_and_address,Mask.toNat_and_address,
    Nat.mul_left_inj (Nat.two_pow_pos _).ne']
  exact eq_comm

theorem Contains.of_longer {n m : Network} {d e : Address} (hn : n.Contains d) (hm : m.Contains d)
    (hl : m.mask.length ≤ n.mask.length) (he : n.Contains e) : m.Contains e := by
  have hs : n.mask.shift ≤ m.mask.shift := Nat.sub_le_sub_left hl 32
  rw [contains_iff] at hn hm he ⊢
  have hde : d.blockIndex n.mask.shift = e.blockIndex n.mask.shift := hn.symm.trans he
  exact hm.trans (Address.blockIndex_eq_of_le hs hde)

end Network

namespace Route

/-- The masks among all addresses are those of which the bits are ones followed by zeros; length and
shift count them, and the length alone makes the mask again. A route matches an address, by the
length of its mask, exactly if the two agree under the mask. Of two routes that match one address,
the one with the longer mask matches no address that the other does not. -/
theorem matching_is_masking :
    (∀ a : Address, (∃ m, Mask.ofAddress? a = some m) ↔
      ∃ ones zeros, a.bitList = List.replicate ones true++List.replicate zeros false) ∧
    (∀ a m, Mask.ofAddress? a = some m →
      m.length = a.bitList.count true ∧ m.shift = a.bitList.count false ∧
      (Mask.ofLength m.length).address = a) ∧
    (∀ m : Mask, Mask.ofAddress? m.address = some m) ∧
    (∀ (r : Route) (d : Address), r.matchLength? d =
      if d.bits &&& r.mask.address.bits = r.network.base.bits &&& r.mask.address.bits
      then some r.mask.length else none) ∧
    (∀ (r s : Route) (d : Address) (l k : Nat),
      r.matchLength? d = some l → s.matchLength? d = some k → k ≤ l →
      ∀ e, r.matchLength? e = some l → s.matchLength? e = some k) := by
  refine ⟨Mask.exists_ofAddress?_iff,fun a m hm => ?_,Mask.ofAddress?_address,fun r d => ?_,
    fun r s d l k hr hs hkl e he => ?_⟩
  · have ha := Mask.address_of_ofAddress? hm
    obtain ⟨hones,hzeros⟩ := m.count_bitList_address
    rw [Mask.ofLength_length,← ha]
    exact ⟨hones.symm,hzeros.symm,rfl⟩
  · simp only [matchLength?,r.network.contains_iff_and d]
  · rw [matchLength?_eq_some_iff] at hr hs he ⊢
    obtain ⟨hr,hl⟩ := hr
    obtain ⟨hs,hk⟩ := hs
    have hle : s.mask.length ≤ r.mask.length := by omega
    exact ⟨hr.of_longer hs hle he.1,hk⟩

end Route
end PathVector
