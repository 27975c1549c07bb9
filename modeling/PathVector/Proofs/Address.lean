import PathVector.Network
import PathVector.Proofs.Decimal

/-! Addresses and masks read back from their text. -/
namespace PathVector

namespace Address

theorem octet?_digits {n : Nat} (h : n ≤ 255) : octet? (Decimal.digits n) = some n := by
  have hl : (Decimal.digits n).length ≤ 3 := Decimal.length_digits_le (by decide) (by omega)
  have hz : (Decimal.digits n).head? = some '0' → Decimal.digits n = ['0'] := fun hd => by
    rw [Decimal.eq_zero_of_head?_digits hd]
    rfl
  rw [octet?,if_pos ⟨hl,hz⟩,Decimal.ofDigits?_digits]
  simp [h]

theorem octet?_eq_some {cs : List Char} {n : Nat} :
    octet? cs = some n ↔ n ≤ 255 ∧ cs = Decimal.digits n := by
  constructor
  · intro h
    rw [octet?,Option.ite_none_right_eq_some,Option.filter_eq_some_iff,decide_eq_true_eq] at h
    obtain ⟨⟨-,hz⟩,hv,hn⟩ := h
    refine ⟨hn,?_⟩
    obtain ⟨k,hk⟩ := Decimal.eq_zeros_append_digits hv
    cases k with
    | zero => exact hk
    | succ k =>
      -- A zero in front is the whole text, so it is the text of zero.
      have hc : cs = Decimal.digits 0 := hz (by rw [hk,List.replicate_succ]; rfl)
      rw [hc,Decimal.ofDigits?_digits,Option.some.injEq] at hv
      rw [hc,hv]
  · rintro ⟨hn,rfl⟩
    exact octet?_digits hn

theorem splitOn_digits {ns : List Nat} (h : ns ≠ []) :
    (['.'].intercalate (ns.map Decimal.digits)).splitOn '.' = ns.map Decimal.digits := by
  refine List.splitOn_intercalate '.' (fun cs hcs hd => ?_) (by simpa using h)
  obtain ⟨n,-,rfl⟩ := List.mem_map.mp hcs
  exact absurd (Decimal.isDigit_of_mem_digits hd) (by decide)

theorem ofText?_eq_some {s : String} {a : Address} : ofText? s = some a ↔
    ∃ w x y z, (w ≤ 255 ∧ x ≤ 255 ∧ y ≤ 255 ∧ z ≤ 255) ∧ a = ofOctets w x y z ∧
      s.toList = ['.'].intercalate ([w,x,y,z].map Decimal.digits) := by
  constructor
  · intro h
    rw [ofText?] at h
    split at h
    · rename_i cw cx cy cz hs
      simp only [Option.bind_eq_bind,Option.bind_eq_some_iff,octet?_eq_some] at h
      obtain ⟨w,⟨hw,rfl⟩,x,⟨hx,rfl⟩,y,⟨hy,rfl⟩,z,⟨hz,rfl⟩,ha⟩ := h
      refine ⟨w,x,y,z,⟨hw,hx,hy,hz⟩,(Option.some.inj ha).symm,?_⟩
      have hi : ['.'].intercalate (s.toList.splitOn '.') = s.toList := List.intercalate_splitOn '.'
      rw [← hi,hs]
      rfl
    · cases h
  · rintro ⟨w,x,y,z,⟨hw,hx,hy,hz⟩,rfl,hs⟩
    rw [ofText?,hs,splitOn_digits (by simp)]
    simp only [List.map_cons,List.map_nil]
    rw [octet?_digits hw,octet?_digits hx,octet?_digits hy,octet?_digits hz]
    rfl

theorem toList_toString (a : Address) : (toString a).toList = a.chars := String.toList_ofList

theorem ofText?_toString (a : Address) : ofText? (toString a) = some a := by
  have hn := a.bits.isLt
  have hv : ((a.bits.toNat/16777216*256+a.bits.toNat/65536%256)*256+a.bits.toNat/256%256)*256+
      a.bits.toNat%256 = a.bits.toNat := by omega
  refine ofText?_eq_some.mpr ⟨a.bits.toNat/16777216,a.bits.toNat/65536%256,a.bits.toNat/256%256,
    a.bits.toNat%256,by omega,?_,a.toList_toString⟩
  rw [ofOctets,hv,BitVec.ofNat_toNat,BitVec.setWidth_eq]

/-- An address has one text: no octet can be written in two ways. -/
theorem toString_of_ofText? {s : String} {a : Address} (h : ofText? s = some a) :
    toString a = s := by
  obtain ⟨w,x,y,z,⟨hw,hx,hy,hz⟩,rfl,hs⟩ := ofText?_eq_some.mp h
  have hn : (((w*256+x)*256+y)*256+z)%2^32 = ((w*256+x)*256+y)*256+z :=
    Nat.mod_eq_of_lt (by omega)
  have ho : (ofOctets w x y z).octets = [w,x,y,z] := by
    simp only [octets,ofOctets,BitVec.toNat_ofNat,hn,List.cons.injEq,and_true]
    omega
  apply String.toList_inj.mp
  rw [hs,← ho,toList_toString,chars]

end Address

namespace Mask

theorem takeWhile_lt_range {k n : Nat} (h : k ≤ n) :
    (List.range n).takeWhile (fun i => decide (i < k)) = List.range k := by
  obtain ⟨m,rfl⟩ := Nat.exists_eq_add_of_le h
  rw [List.range_add,List.takeWhile_append_of_pos (by simp)]
  cases m with
  | zero => simp
  | succ m => simp [List.range_succ_eq_map]

theorem getMsbD_address (m : Mask) (i : Nat) :
    m.address.bits.getMsbD i = decide (i < m.length) := by
  have hl := m.length_le
  rw [address,BitVec.getMsbD_shiftLeft,BitVec.getMsbD_allOnes,decide_eq_decide,shift]
  omega

theorem leadingOnes_address (m : Mask) : leadingOnes m.address.bits = m.length := by
  have hb : (fun i => m.address.bits.getMsbD i) = fun i => decide (i < m.length) :=
    funext m.getMsbD_address
  rw [leadingOnes,hb,takeWhile_lt_range m.length_le,List.length_range]

theorem ofAddress?_address (m : Mask) : ofAddress? m.address = some m := by
  unfold ofAddress?
  rw [leadingOnes_address,ofLength_length]
  exact if_pos rfl

end Mask

end PathVector
