import PathVector.Proofs.Settled

/-! The result of aggregation in closed form. Merge from the longest masks upwards: then a route is
there as often as it is listed, and once more for each time that both its halves are there. What is
left of it is what its sibling does not use up. No merge changes these differences, so any order of
merging leads to the same routes. -/
namespace PathVector
namespace Route

def sibling (r : Route) : Route := { r with network := r.network.sibling }

def lowerHalf (r : Route) : Route := { r with network := r.network.lowerHalf }

def upperHalf (r : Route) : Route := { r with network := r.network.upperHalf }

@[simp] theorem sibling_sibling (r : Route) : r.sibling.sibling = r := by
  unfold sibling
  rw [Network.sibling_sibling]

/-- How often a route is there once everything below it is merged. -/
def tally (rs : List Route) (r : Route) : Nat :=
  rs.count r+
    if _h : r.mask.length < 32 then min (tally rs r.lowerHalf) (tally rs r.upperHalf) else 0
termination_by r.mask.shift
decreasing_by
  · have := (Network.lowerHalf_inParent _h).shift
    change r.network.lowerHalf.mask.shift < r.network.mask.shift
    omega
  · have := (Network.upperHalf_inParent _h).shift
    change r.network.upperHalf.mask.shift < r.network.mask.shift
    omega

/-- The route is there more often than its sibling, so not all of it is merged away. -/
def Remains (rs : List Route) (r : Route) : Prop :=
  if r.mask.length = 0 then 0 < tally rs r else tally rs r.sibling < tally rs r

instance (rs : List Route) (r : Route) : Decidable (Remains rs r) := by
  unfold Remains; infer_instance

theorem tally_of_lt {r : Route} (h : r.mask.length < 32) (rs : List Route) :
    tally rs r = rs.count r+min (tally rs r.lowerHalf) (tally rs r.upperHalf) := by
  rw [tally,dif_pos h]

theorem tally_of_le {r : Route} (h : 32 ≤ r.mask.length) (rs : List Route) :
    tally rs r = rs.count r := by
  rw [tally,dif_neg (Nat.not_lt.mpr h),Nat.add_zero]

theorem tally_perm {rs ss : List Route} (h : rs.Perm ss) (r : Route) :
    tally rs r = tally ss r := by
  induction r using tally.induct with
  | case1 r ih₁ ih₂ =>
    by_cases hr : r.mask.length < 32
    · rw [tally_of_lt hr,tally_of_lt hr,h.count_eq,ih₁ hr,ih₂ hr]
    · rw [tally_of_le (Nat.not_lt.mp hr),tally_of_le (Nat.not_lt.mp hr),h.count_eq]

theorem remains_perm {rs ss : List Route} (h : rs.Perm ss) (r : Route) :
    Remains rs r ↔ Remains ss r := by
  unfold Remains
  rw [tally_perm h,tally_perm h]

/-- `a` leads to a half of the block of `p`, with the attributes of `p`. -/
structure Half (a p : Route) : Prop where
  inside : a.network.InParent p.network
  attributes : a.attributes = p.attributes

theorem Half.unique {a p q : Route} (hp : a.Half p) (hq : a.Half q) (hpa : p.network.Aligned)
    (hqa : q.network.Aligned) : p = q := by
  have hn := hp.inside.unique hq.inside hpa hqa
  have hattr := hp.attributes.symm.trans hq.attributes
  cases p; cases q
  exact congr (congrArg Route.mk hn) hattr

theorem Merges.half_left {a b p : Route} (h : a.Merges b p) : a.Half p :=
  ⟨h.left,h.attributes_left.symm⟩

theorem Merges.half_right {a b p : Route} (h : a.Merges b p) : b.Half p :=
  ⟨h.right,h.attributes_right.symm⟩

section Halves

variable {r : Route} (hl : r.mask.length < 32)

include hl

theorem half_lowerHalf : r.lowerHalf.Half r := ⟨Network.lowerHalf_inParent hl,rfl⟩

theorem half_upperHalf : r.upperHalf.Half r := ⟨Network.upperHalf_inParent hl,rfl⟩

theorem length_lowerHalf : r.lowerHalf.mask.length ≠ 0 := by
  have : r.lowerHalf.mask.length = r.mask.length+1 := Network.length_lowerHalf hl
  omega

theorem Half.eq_or_eq {a : Route} (h : a.Half r) (ha : a.network.Aligned)
    (hr : r.network.Aligned) : a = r.lowerHalf ∨ a = r.upperHalf := by
  have hn : a.network = r.network.lowerHalf ∨ a.network = r.network.upperHalf :=
    (Network.lowerHalf_inParent hl).eq_or_eq (Network.upperHalf_inParent hl) h.inside
      (Network.sibling_index (length_lowerHalf hl)).2.symm (hr.lowerHalf hl) (hr.upperHalf hl) ha
  have hattr := h.attributes
  cases a
  rcases hn with rfl | rfl
  · exact .inl (congrArg _ hattr)
  · exact .inr (congrArg _ hattr)

end Halves

theorem mergeable_sibling {r : Route} (h : r.mask.length ≠ 0) : r.Mergeable r.sibling := by
  obtain ⟨hdiv,hne⟩ := Network.sibling_index h
  refine ⟨rfl,h,fun he => hne (he ▸ rfl),rfl,(Address.ushiftRight_eq_iff _ _ _).mpr ?_⟩
  rw [Address.blockIndex_succ,Address.blockIndex_succ]
  exact hdiv.symm

theorem count_pair {a b : Route} (h : a ≠ b) (rs : List Route) (r : Route) :
    (a::b::rs).count r = rs.count r+if r = a ∨ r = b then 1 else 0 := by
  by_cases ha : r = a
  · rw [ha,List.count_cons_self,List.count_cons_of_ne h.symm,if_pos (.inl rfl)]
  · rw [List.count_cons_of_ne (Ne.symm ha)]
    by_cases hb : r = b
    · rw [hb,List.count_cons_self,if_pos (.inr rfl)]
    · rw [List.count_cons_of_ne (Ne.symm hb),if_neg (by tauto),Nat.add_zero]

theorem Mergeable.length_of_mem {a b r : Route} (h : a.Mergeable b) (hr : r = a ∨ r = b) :
    r.mask.length = a.mask.length := by
  rcases hr with rfl | rfl
  · rfl
  · exact congrArg Mask.length h.1.symm

section Merge

variable {a b p : Route} (h : a.Mergeable b) (ha : a.network.Aligned) (hb : b.network.Aligned)

include h ha hb

/-- The sibling is the only route that an aligned one can be merged with. -/
theorem Mergeable.eq_sibling : b = a.sibling := by
  obtain ⟨p,-,hm⟩ := h.exists_merges
  have hl : a.network.mask.length ≠ 0 := h.2.1
  have hn : b.network = a.network ∨ b.network = a.network.sibling :=
    hm.left.eq_or_eq (hm.left.of_sibling hl) hm.right (Network.sibling_index hl).2.symm ha
      (ha.sibling hl) hb
  have hattr : a.attributes = b.attributes := h.2.2.2.1
  rcases hn with hn | hn
  · exact absurd (congrArg Network.base hn.symm) h.2.2.1
  · cases b
    exact congr (congrArg Route.mk hn) hattr.symm

variable (hp : a.merge? b = some p)

include hp

theorem Mergeable.halves (hl : p.mask.length < 32) :
    p.lowerHalf = a ∧ p.upperHalf = b ∨ p.lowerHalf = b ∧ p.upperHalf = a := by
  have hm := h.merges hp
  have hpa := h.aligned ha hb hp
  have hne : a ≠ b := fun he => h.2.2.1 (he ▸ rfl)
  rcases hm.half_left.eq_or_eq hl ha hpa with hal | hau
  · rcases hm.half_right.eq_or_eq hl hb hpa with hbl | hbu
    · exact absurd (hal.trans hbl.symm) hne
    · exact .inl ⟨hal.symm,hbu.symm⟩
  · rcases hm.half_right.eq_or_eq hl hb hpa with hbl | hbu
    · exact .inr ⟨hbl.symm,hau.symm⟩
    · exact absurd (hau.trans hbu.symm) hne

theorem Mergeable.eq_of_half {q x : Route} (hx : x.Half q) (hxab : x = a ∨ x = b)
    (hq : q.network.Aligned) : q = p := by
  have hm := h.merges hp
  have hpa := h.aligned ha hb hp
  rcases hxab with rfl | rfl
  · exact hx.unique hm.half_left hq hpa
  · exact hx.unique hm.half_right hq hpa

/-- Merging takes one away from the two routes, and leaves the others as often as they are: the
merger is listed once more, and its halves are both there once less. -/
theorem tally_merge (ss : List Route) {r : Route} (hr : r.network.Aligned) :
    tally (a::b::ss) r = tally (p::ss) r+if r = a ∨ r = b then 1 else 0 := by
  have hne : a ≠ b := fun he => h.2.2.1 (he ▸ rfl)
  have hlen := h.length_eq (h.merges hp)
  have hpl : p.mask.length < 32 := by have := a.mask.length_le; omega
  induction r using tally.induct with
  | case1 r ih₁ ih₂ =>
    by_cases hl : r.mask.length < 32
    · have hlower := ih₁ hl (hr.lowerHalf hl)
      have hupper := ih₂ hl (hr.upperHalf hl)
      rw [tally_of_lt hl,tally_of_lt hl,hlower,hupper,count_pair hne]
      by_cases he : r = p
      · -- Both halves were there once more, and so was the lesser of them.
        subst he
        have hra : ¬ (r = a ∨ r = b) := fun hx => by
          have := h.length_of_mem hx
          omega
        rw [List.count_cons_self,if_neg hra]
        rcases h.halves ha hb hp hl with ⟨h₁,h₂⟩ | ⟨h₁,h₂⟩
        · rw [h₁,h₂,if_pos (.inl rfl),if_pos (.inr rfl)]
          omega
        · rw [h₁,h₂,if_pos (.inr rfl),if_pos (.inl rfl)]
          omega
      · have h₁ := mt (fun hx => h.eq_of_half ha hb hp (half_lowerHalf hl) hx hr) he
        have h₂ := mt (fun hx => h.eq_of_half ha hb hp (half_upperHalf hl) hx hr) he
        rw [List.count_cons_of_ne (Ne.symm he),if_neg h₁,if_neg h₂]
        omega
    · have he : p ≠ r := fun he => hl (he ▸ hpl)
      rw [tally_of_le (Nat.not_lt.mp hl),tally_of_le (Nat.not_lt.mp hl),count_pair hne,
        List.count_cons_of_ne he]

/-- A route and its sibling become fewer together. -/
theorem remains_merge (ss : List Route) {r : Route} (hr : r.network.Aligned) :
    Remains (a::b::ss) r ↔ Remains (p::ss) r := by
  have hl : a.mask.length ≠ 0 := h.2.1
  unfold Remains
  by_cases hz : r.mask.length = 0
  · have hra : ¬ (r = a ∨ r = b) := fun hx => hl ((h.length_of_mem hx).symm.trans hz)
    rw [if_pos hz,if_pos hz,tally_merge h ha hb hp ss hr,if_neg hra,Nat.add_zero]
  · have hs : r.sibling = a ∨ r.sibling = b ↔ r = a ∨ r = b := by
      have hab := h.eq_sibling ha hb
      constructor
      · rintro (he | he)
        · exact .inr (by rw [hab,← he,sibling_sibling])
        · exact .inl (by rw [← sibling_sibling r,he,hab,sibling_sibling])
      · rintro (rfl | rfl)
        · exact .inr hab.symm
        · exact .inl (by rw [hab,sibling_sibling])
    rw [if_neg hz,if_neg hz,tally_merge h ha hb hp ss hr,tally_merge h ha hb hp ss (hr.sibling hz),
      if_congr hs rfl rfl,Nat.add_lt_add_iff_right]

end Merge

/-- Aligned routes of which just the routes `target` remain. -/
structure Balanced (target : Route → Prop) (rs : List Route) : Prop where
  aligned : ∀ r ∈ rs, r.network.Aligned
  remains : ∀ r, r.network.Aligned → (Remains rs r ↔ target r)

theorem preserved_balanced (target : Route → Prop) : Preserved (Balanced target) where
  perm hp h := ⟨preserved_aligned.perm hp h.aligned,
    fun r hr => (remains_perm hp.symm r).trans (h.remains r hr)⟩
  merge {a b p rs} hm hp h := by
    have ha := h.aligned a List.mem_cons_self
    have hb := h.aligned b (List.mem_cons_of_mem _ List.mem_cons_self)
    exact ⟨preserved_aligned.merge hm hp h.aligned,
      fun r hr => (remains_merge hm ha hb hp rs hr).symm.trans (h.remains r hr)⟩

section Settled

variable {ts : List Route} (h : Settled ts)

include h

theorem Settled.tally_eq {r : Route} (hr : r.network.Aligned) : tally ts r = ts.count r := by
  induction r using tally.induct with
  | case1 r ih₁ ih₂ =>
    by_cases hl : r.mask.length < 32
    · rw [tally_of_lt hl,ih₁ hl (hr.lowerHalf hl),ih₂ hl (hr.upperHalf hl)]
      have hm : r.lowerHalf.Mergeable r.upperHalf := mergeable_sibling (length_lowerHalf hl)
      by_cases hmem : r.lowerHalf ∈ ts
      · have hn : r.upperHalf ∉ ts := fun hu => h _ hmem _ hu hm
        rw [List.count_eq_zero_of_not_mem hn,Nat.min_zero,Nat.add_zero]
      · rw [List.count_eq_zero_of_not_mem hmem,Nat.zero_min,Nat.add_zero]
    · exact tally_of_le (Nat.not_lt.mp hl) ts

theorem Settled.remains_iff {r : Route} (hr : r.network.Aligned) : Remains ts r ↔ r ∈ ts := by
  unfold Remains
  by_cases hz : r.mask.length = 0
  · rw [if_pos hz,h.tally_eq hr,List.count_pos_iff]
  · rw [if_neg hz,h.tally_eq hr,h.tally_eq (hr.sibling hz)]
    constructor
    · exact fun hlt => List.count_pos_iff.mp (Nat.zero_lt_of_lt hlt)
    · intro hmem
      have hn : r.sibling ∉ ts := fun hs => h _ hmem _ hs (mergeable_sibling hz)
      rw [List.count_eq_zero_of_not_mem hn]
      exact List.count_pos_iff.mpr hmem

end Settled

/-- Wherever merging ends, the same routes are left. -/
theorem Folds.mem_iff {rs ts : List Route} (hf : Folds rs ts) (hs : Settled ts)
    (h : ∀ r ∈ rs, r.network.Aligned) (r : Route) : r ∈ ts ↔ r.network.Aligned ∧ Remains rs r := by
  have hb : Balanced (Remains rs) ts :=
    (preserved_balanced _).folds hf ⟨h,fun _ _ => Iff.rfl⟩
  constructor
  · intro hr
    have ha := hb.aligned r hr
    exact ⟨ha,(hb.remains r ha).mp ((hs.remains_iff ha).mpr hr)⟩
  · rintro ⟨ha,hr⟩
    exact (hs.remains_iff ha).mp ((hb.remains r ha).mpr hr)

/-- The routes that remain, in ascending order, are the result of aggregation. Merging in any other
order, as long as two can be merged, has the same result. -/
theorem aggregate_closed_form {rs : List Route} (h : ∀ r ∈ rs, r.network.Aligned) :
    (aggregate rs).Pairwise (compare · · = .lt) ∧
    (∀ r, r ∈ aggregate rs ↔ r.network.Aligned ∧ Remains rs r) ∧
    (∃ ts, Folds rs ts ∧ Settled ts ∧ aggregate rs = Table.distinct ts) ∧
    ∀ ts, Folds rs ts → Settled ts → Table.distinct ts = aggregate rs := by
  have hmem := (run_folds rs).mem_iff (run_settled rs) h
  refine ⟨Table.ascending_distinct _,fun r => Table.mem_distinct.trans (hmem r),
    ⟨_,run_folds rs,run_settled rs,rfl⟩,fun ts hf hs => ?_⟩
  exact Table.distinct_congr fun r => (hf.mem_iff hs h r).trans (hmem r).symm

private def lone (n length : Nat) : Route :=
  ⟨⟨.ofOctets 10 0 0 n,.ofLength length⟩,⟨[],100,true,.interior⟩⟩

/-- Of a route listed twice, one copy is merged and the other stays. -/
theorem aggregate_listed_twice :
    (∀ r ∈ [lone 1 32,lone 0 32,lone 0 32], r.network.Aligned) ∧
      lone 1 32 ∉ aggregate [lone 1 32,lone 0 32,lone 0 32] ∧
      aggregate [lone 1 32,lone 0 32,lone 0 32] = [lone 0 31,lone 0 32] := by
  have h : ∀ r ∈ [lone 1 32,lone 0 32,lone 0 32], r.network.Aligned := by decide
  obtain ⟨-,hmem,-,hany⟩ := aggregate_closed_form h
  have hf : Folds [lone 1 32,lone 0 32,lone 0 32] [lone 0 31,lone 0 32] :=
    .merge .refl (by decide) (by decide)
  have hs : Settled [lone 0 31,lone 0 32] := by unfold Settled; decide
  have hd : Table.distinct [lone 0 31,lone 0 32] = [lone 0 31,lone 0 32] := by decide
  exact ⟨h,fun hr => absurd ((hmem _).mp hr) (by decide +kernel),(hany _ hf hs).symm.trans hd⟩

end Route
end PathVector
