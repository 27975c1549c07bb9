import PathVector.Proofs.Block
import PathVector.Proofs.Fixpoint

/-! What aggregated routes are made of. Each route on the worklist stands for some of the routes
listed at first, and each of these has one on the worklist that stands for it: a merger stands for
what its two routes stood for. The blocks of these are together as large as its own block, though
they can overlap if bits lie outside the masks. -/
namespace PathVector
namespace Route

/-- How many addresses the routes lead to, an address counted for each route that leads to it. -/
def extent (rs : List Route) : Nat := (rs.map fun r => 2^(32-r.mask.length)).sum

theorem extent_append (rs ss : List Route) : extent (rs++ss) = extent rs+extent ss := by
  simp [extent]

@[simp] theorem extent_singleton (r : Route) : extent [r] = 2^(32-r.mask.length) := by
  simp [extent]

/-- `p` stands for the routes `rs`. -/
structure StandsFor (p : Route) (rs : List Route) : Prop where
  nonempty : rs ≠ []
  attributes : ∀ r ∈ rs, r.attributes = p.attributes
  base_mem : ∃ r ∈ rs, r.network.base = p.network.base
  base_le : ∀ r ∈ rs, p.network.base.bits.toNat ≤ r.network.base.bits.toNat
  contains : ∀ r ∈ rs, ∀ d, r.network.Contains d → p.network.Contains d
  extent : extent rs = 2^(32-p.mask.length)

theorem standsFor_self (r : Route) : r.StandsFor [r] where
  nonempty := List.cons_ne_nil _ _
  attributes := by simp
  base_mem := by simp
  base_le := by simp
  contains := by simp
  extent := extent_singleton r

theorem Merges.base_eq_or {a b p : Route} (h : a.Merges b p) :
    p.network.base = a.network.base ∨ p.network.base = b.network.base := by
  have hb := h.base
  have heq (x y : Address) (hxy : x.bits.toNat = y.bits.toNat) : x = y :=
    congrArg Address.mk (BitVec.eq_of_toNat_eq hxy)
  rcases Nat.le_total a.network.base.bits.toNat b.network.base.bits.toNat with hle | hle
  · exact .inl (heq _ _ (hb.trans (Nat.min_eq_left hle)))
  · exact .inr (heq _ _ (hb.trans (Nat.min_eq_right hle)))

theorem Merges.extent {a b p : Route} (h : a.Merges b p) :
    2^(32-p.mask.length) = 2^(32-a.mask.length)+2^(32-b.mask.length) := by
  have ha : 32-p.mask.length = 32-a.mask.length+1 := h.left.shift
  have hb : 32-p.mask.length = 32-b.mask.length+1 := h.right.shift
  have hab : 32-b.mask.length = 32-a.mask.length := by omega
  rw [ha,hab,pow_succ]
  omega

/-- A merger stands for what its two routes stood for. -/
theorem StandsFor.merge {a b p : Route} {rs ss : List Route} (ha : a.StandsFor rs)
    (hb : b.StandsFor ss) (h : a.Merges b p) : p.StandsFor (rs++ss) where
  nonempty := List.append_ne_nil_of_left_ne_nil ha.nonempty ss
  attributes r hr := by
    rcases List.mem_append.mp hr with hr | hr
    · exact (ha.attributes r hr).trans h.attributes_left.symm
    · exact (hb.attributes r hr).trans h.attributes_right.symm
  base_mem := by
    rcases h.base_eq_or with hp | hp
    · obtain ⟨r,hr,he⟩ := ha.base_mem
      exact ⟨r,List.mem_append_left _ hr,he.trans hp.symm⟩
    · obtain ⟨r,hr,he⟩ := hb.base_mem
      exact ⟨r,List.mem_append_right _ hr,he.trans hp.symm⟩
  base_le r hr := by
    rw [h.base]
    rcases List.mem_append.mp hr with hr | hr
    · exact (Nat.min_le_left _ _).trans (ha.base_le r hr)
    · exact (Nat.min_le_right _ _).trans (hb.base_le r hr)
  contains r hr d hd := by
    rcases List.mem_append.mp hr with hr | hr
    · exact h.left.contains (ha.contains r hr d hd)
    · exact h.right.contains (hb.contains r hr d hd)
  extent := by rw [extent_append,ha.extent,hb.extent,h.extent]

/-- The routes `rs`, each as often as it is listed, can be divided up among the routes `ts`. -/
def Accounts (ts rs : List Route) : Prop :=
  ∃ classes : List (List Route), classes.flatten.Perm rs ∧ List.Forall₂ StandsFor ts classes

theorem accounts_self (rs : List Route) : Accounts rs rs := by
  refine ⟨rs.map fun r => [r],?_,?_⟩
  · rw [← List.flatMap_def,List.flatMap_singleton']
  · rw [List.forall₂_map_right_iff,List.forall₂_same]
    exact fun r _ => standsFor_self r

theorem preserved_accounts (rs : List Route) : Preserved (Accounts · rs) where
  perm := by
    rintro ss ts hp ⟨classes,hperm,hs⟩
    obtain ⟨moved,hm,hmoved⟩ := List.perm_comp_forall₂ hp.symm hs
    exact ⟨moved,hmoved.flatten.trans hperm,hm⟩
  merge := by
    rintro a b p ts hab hp ⟨classes,hperm,hs⟩
    obtain ⟨as,more,ha,hmore,rfl⟩ := List.forall₂_cons_left_iff.mp hs
    obtain ⟨bs,others,hb,hothers,rfl⟩ := List.forall₂_cons_left_iff.mp hmore
    refine ⟨(as++bs)::others,?_,.cons (ha.merge hb (hab.merges hp)) hothers⟩
    simpa only [List.flatten_cons,List.append_assoc] using hperm

/-- Whatever is merged, all routes stay accounted for. -/
theorem Folds.accounts {rs ts : List Route} (h : Folds rs ts) : Accounts ts rs :=
  (preserved_accounts rs).folds h (accounts_self rs)

theorem Accounts.exists_standsFor {ts rs : List Route} (h : Accounts ts rs) {r : Route}
    (hr : r ∈ rs) : ∃ p ∈ ts, ∃ ss, p.StandsFor ss ∧ r ∈ ss := by
  obtain ⟨classes,hperm,hs⟩ := h
  obtain ⟨ss,hss,hr⟩ := List.mem_flatten.mp (hperm.mem_iff.mpr hr)
  clear hperm
  induction hs with
  | nil => cases hss
  | @cons p cs ts classes hp _ ih =>
    rcases List.mem_cons.mp hss with rfl | hss
    · exact ⟨p,List.mem_cons_self,_,hp,hr⟩
    · obtain ⟨q,hq,hrest⟩ := ih hss
      exact ⟨q,List.mem_cons_of_mem _ hq,hrest⟩

/-- The routes left on the worklist account for the routes listed, none of which is lost or counted
twice, and no two of them can be merged. They are the result of aggregation, so every address that a
route leads to is kept. -/
theorem aggregate_accounts (rs : List Route) :
    let left := Worklist.run ⟨sort rs,0⟩
    (∃ classes : List (List Route), classes.flatten.Perm rs ∧
      List.Forall₂ StandsFor left classes) ∧
    Settled left ∧
    ((aggregate rs).Pairwise (compare · · = .lt) ∧ ∀ p, p ∈ aggregate rs ↔ p ∈ left) ∧
    ∀ r ∈ rs, ∀ d, r.network.Contains d → Covers (aggregate rs) r.attributes d := by
  intro left
  have h : Accounts left rs := (run_folds rs).accounts
  refine ⟨h,run_settled rs,⟨aggregate_ascending rs,fun p => mem_aggregate⟩,fun r hr d hd => ?_⟩
  obtain ⟨p,hp,ss,hs,hr⟩ := h.exists_standsFor hr
  exact ⟨p,mem_aggregate.mpr hp,(hs.attributes r hr).symm,hs.contains r hr d hd⟩

end Route
end PathVector
