import PathVector.Aggregate
import PathVector.Proofs.Block

/-! Merging two routes. The result leads to the block around both with the attributes of both. If no
bit of the two networks lies outside their masks, they are the halves of that block, and so nothing
is added. In general they need not be: what makes two routes mergeable is that their bases differ. -/
namespace PathVector
namespace Route

theorem isLE_compare_iff {a b : Route} (h : a.network.base ≠ b.network.base) :
    (compare a b).isLE = true ↔ a.network.base.bits.toNat ≤ b.network.base.bits.toNat := by
  have hbits : a.network.base.bits ≠ b.network.base.bits := fun hb => h (congrArg Address.mk hb)
  have hc : compare a b = compare a.network.base.bits b.network.base.bits := by
    change ((compare a.network.base.bits b.network.base.bits).then _).then _ = _
    cases hc : compare a.network.base.bits b.network.base.bits with
    | eq => exact absurd (Std.LawfulEqOrd.eq_of_compare hc) hbits
    | lt => rfl
    | gt => rfl
  rw [hc]
  exact isLE_compareOfLessAndEq BitVec.le_antisymm BitVec.not_le BitVec.le_total

/-- `p` leads to the block around the networks of `a` and `b`. -/
structure Merges (a b p : Route) : Prop where
  left : a.network.InParent p.network
  right : b.network.InParent p.network
  attributes_left : p.attributes = a.attributes
  attributes_right : p.attributes = b.attributes
  base : p.network.base.bits.toNat =
    min a.network.base.bits.toNat b.network.base.bits.toNat

theorem mergeable_of_find? {head r : Route} {pending : List Route}
    (h : pending.find? (head.Mergeable ·) = some r) : head.Mergeable r :=
  of_decide_eq_true (List.find?_some (p := (decide <| head.Mergeable ·)) h)

/-- Mergeable routes have a merger. -/
theorem Mergeable.exists_merges {a b : Route} (h : a.Mergeable b) :
    ∃ p, a.merge? b = some p ∧ a.Merges b p := by
  have hm : a.network.mask = b.network.mask := h.1
  have hl : a.network.mask.length ≠ 0 := h.2.1
  have hle := isLE_compare_iff h.2.2.1
  have ha : a.attributes = b.attributes := h.2.2.2.1
  have hp : a.network.base.blockIndex (a.network.mask.shift+1) =
      b.network.base.blockIndex (a.network.mask.shift+1) :=
    (Address.ushiftRight_eq_iff _ _ _).mp h.2.2.2.2
  unfold merge? Mask.parent?
  by_cases hc : (compare a b).isLE = true
  · have hmin := hle.mp hc
    have hs := Mask.shift_parent hl
    refine ⟨{ a with network.mask := Mask.ofLength (a.network.mask.length-1) },
      by simp [hc,hl],⟨hs,rfl⟩,⟨hm ▸ hs,?_⟩,rfl,ha,(Nat.min_eq_left hmin).symm⟩
    simpa only [hs] using hp
  · have hmin := Nat.le_of_not_le fun h => hc (hle.mpr h)
    rw [hm] at hl hp
    have hs := Mask.shift_parent hl
    refine ⟨{ b with network.mask := Mask.ofLength (b.network.mask.length-1) },
      by simp [hc,hl],⟨hm ▸ hs,?_⟩,⟨hs,rfl⟩,ha.symm,rfl,(Nat.min_eq_right hmin).symm⟩
    simpa only [hs] using hp.symm

theorem Mergeable.merges {a b p : Route} (h : a.Mergeable b) (hp : a.merge? b = some p) :
    a.Merges b p := by
  obtain ⟨q,hq,hm⟩ := h.exists_merges
  exact Option.some.inj (hq.symm.trans hp) ▸ hm

theorem Mergeable.blockIndex_ne {a b : Route} (h : a.Mergeable b) (ha : a.network.Aligned)
    (hb : b.network.Aligned) :
    a.network.base.blockIndex a.network.mask.shift ≠
      b.network.base.blockIndex a.network.mask.shift := by
  obtain ⟨hm,-,hne,-⟩ := h
  exact fun hi => hne (congrArg Network.base (Network.eq_of_blockIndex_eq ha hb hm hi))

/-- The merger of aligned routes leads to what either of them leads to, and to nothing else. -/
theorem Mergeable.contains_iff {a b p : Route} (h : a.Mergeable b) (ha : a.network.Aligned)
    (hb : b.network.Aligned) (hp : a.merge? b = some p) (d : Address) :
    p.network.Contains d ↔ a.network.Contains d ∨ b.network.Contains d :=
  (h.merges hp).left.contains_iff_or (h.merges hp).right (h.blockIndex_ne ha hb) d

/-- The merger of aligned routes is aligned: its base is that of the lower half. -/
theorem Mergeable.aligned {a b p : Route} (h : a.Mergeable b) (ha : a.network.Aligned)
    (hb : b.network.Aligned) (hp : a.merge? b = some p) : p.network.Aligned := by
  have hne := h.blockIndex_ne ha hb
  have hm : a.network.mask = b.network.mask := h.1
  obtain ⟨⟨hs,hi⟩,⟨-,hj⟩,-,-,hmin⟩ := h.merges hp
  rw [Network.aligned_iff] at ha hb ⊢
  rw [← hm] at hb
  simp only [hs,Address.blockIndex_succ] at hi hj ⊢
  rw [ha,hb,Nat.mul_min_mul_right] at hmin
  -- The lower of the two indices is twice the index of the block around them.
  have hk : min (a.network.base.blockIndex a.network.mask.shift)
      (b.network.base.blockIndex a.network.mask.shift) =
        p.network.base.blockIndex a.network.mask.shift/2*2 := by omega
  rw [hmin,hk,pow_succ,Nat.mul_assoc,Nat.mul_comm 2]

section

variable {a b p : Route} (h : a.Mergeable b)

include h

theorem Mergeable.length_eq (hp : a.Merges b p) : p.mask.length+1 = a.mask.length := by
  have hl : a.mask.length ≠ 0 := h.2.1
  have hs : p.mask.shift = a.mask.shift+1 := hp.left.shift
  have := a.mask.length_le
  have := p.mask.length_le
  unfold Mask.shift at hs
  omega

theorem Mergeable.contains_congr (hc : a.network.Contains b.network.base) (d : Address) :
    b.network.Contains d ↔ a.network.Contains d := by
  have hm : a.network.mask = b.network.mask := h.1
  rw [Network.contains_iff] at hc ⊢
  rw [Network.contains_iff,← hm,hc]

/-- The two routes are the two halves of the merger exactly if they lead to different blocks.
Mergeable routes need only have different bases, and these may differ outside the mask; then the
two have all addresses in common and the merger has others besides. -/
theorem Mergeable.exactly_one_iff : ∃ p, a.merge? b = some p ∧
    p.attributes = a.attributes ∧ p.attributes = b.attributes ∧ p.mask.length+1 = a.mask.length ∧
    ((∀ d, p.network.Contains d ↔ Xor (a.network.Contains d) (b.network.Contains d)) ↔
      ¬ a.network.Contains b.network.base) ∧
    (a.network.Contains b.network.base →
      (∀ d, b.network.Contains d ↔ a.network.Contains d) ∧
      ∃ d, p.network.Contains d ∧ ¬ a.network.Contains d) := by
  obtain ⟨p,hp,hm⟩ := h.exists_merges
  refine ⟨p,hp,hm.attributes_left,hm.attributes_right,h.length_eq hm,⟨fun hx hc => ?_,
    fun hc d => ?_⟩,fun hc => ⟨h.contains_congr hc,_,hm.left.sibling h.2.1⟩⟩
  · -- The base of `a` is in the merger, but in both routes.
    have hpa : p.network.Contains a.network.base :=
      (Network.contains_iff _ _).mpr hm.left.index
    have ha : a.network.Contains a.network.base := a.network.contains_base
    have hb : b.network.Contains a.network.base := (h.contains_congr hc _).mpr ha
    rcases (hx _).mp hpa with ⟨-,hn⟩ | ⟨-,hn⟩
    · exact hn hb
    · exact hn ha
  · have hne := mt (Network.contains_iff _ _).mpr hc
    have hboth : ¬ (a.network.Contains d ∧ b.network.Contains d) := by
      have hmask : a.network.mask = b.network.mask := h.1
      rw [Network.contains_iff,Network.contains_iff,← hmask]
      exact fun hd => hne (hd.1.trans hd.2.symm)
    rw [hm.left.contains_iff_or hm.right hne]
    unfold Xor
    tauto

end

/-- A network in 10.0.0.0/16. -/
private def inTen (c d length : Nat) : Route :=
  ⟨⟨.ofOctets 10 0 c d,.ofLength length⟩,⟨[1],100,true,.exterior⟩⟩

/-- Bases outside the masks do no harm to routes that lead to different blocks. -/
theorem exactly_one_of_two_blocks :
    (inTen 0 9 24).Mergeable (inTen 1 3 24) ∧
      ∃ p, (inTen 0 9 24).merge? (inTen 1 3 24) = some p ∧
        ∀ d, p.network.Contains d ↔
          Xor ((inTen 0 9 24).network.Contains d) ((inTen 1 3 24).network.Contains d) := by
  have h : (inTen 0 9 24).Mergeable (inTen 1 3 24) := by decide
  obtain ⟨p,hp,-,-,-,hx,-⟩ := h.exactly_one_iff
  exact ⟨h,p,hp,hx.mpr (by decide)⟩

/-- Two routes to 10.0.0.0/24 are merged into one to 10.0.0.0/23. -/
theorem not_exactly_one_of_one_block :
    (inTen 0 1 24).Mergeable (inTen 0 2 24) ∧
      (inTen 0 1 24).merge? (inTen 0 2 24) = some (inTen 0 1 23) ∧
      ¬ ∀ d, (inTen 0 1 23).network.Contains d ↔
        Xor ((inTen 0 1 24).network.Contains d) ((inTen 0 2 24).network.Contains d) := by
  refine ⟨by decide,by decide,fun h => ?_⟩
  have hd := (h (.ofOctets 10 0 1 0)).mp (by decide)
  revert hd
  unfold Xor
  decide

end Route
end PathVector
