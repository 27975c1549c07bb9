import PathVector.Proofs.Settled

/-! Aggregated routes aggregated again. Merging leads to routes of which no two can be merged, and
such routes only change places on the worklist, so a second aggregation changes nothing. With bits
outside the masks the result can depend on the order of merging; as the routes are sorted first, it
does not depend on the order in which they were listed. -/
namespace PathVector
namespace Route

theorem Folds.length_le {rs ts : List Route} (h : Folds rs ts) : ts.length ≤ rs.length := by
  induction h with
  | refl => exact Nat.le_refl _
  | perm _ hp ih => exact hp.length_eq ▸ ih
  | merge _ _ _ ih =>
    simp only [List.length_cons] at ih ⊢
    omega

/-- Where nothing can be merged, routes can only change places. -/
theorem Settled.perm_of_folds {rs ts : List Route} (hs : Settled rs) (h : Folds rs ts) :
    rs.Perm ts := by
  induction h with
  | refl => exact .refl _
  | perm _ hp ih => exact ih.trans hp
  | @merge a b p ss _ hm _ ih =>
    have ha : a ∈ rs := ih.mem_iff.mpr List.mem_cons_self
    have hb : b ∈ rs := ih.mem_iff.mpr (List.mem_cons_of_mem _ List.mem_cons_self)
    exact absurd hm (hs a ha b hb)

theorem sort_sorted (rs : List Route) : (sort rs).Pairwise fun a b => (compare a b).isLE = true :=
  Table.sorted_mergeSort id rs

theorem sort_congr {rs ss : List Route} (h : rs.Perm ss) : sort rs = sort ss := by
  have hp : (sort rs).Perm (sort ss) := (sort_perm rs).trans (h.trans (sort_perm ss).symm)
  refine hp.eq_of_pairwise (fun a b _ _ hab hba => ?_) (sort_sorted rs) (sort_sorted ss)
  exact Std.LawfulEqOrd.eq_of_compare (Std.OrientedCmp.isLE_antisymm hab hba)

theorem aggregate_congr {rs ss : List Route} (h : rs.Perm ss) : aggregate rs = aggregate ss := by
  unfold aggregate
  rw [sort_congr h]

theorem aggregate_ascending (rs : List Route) : (aggregate rs).Pairwise (compare · · = .lt) :=
  Table.ascending_distinct _

theorem mem_aggregate {rs : List Route} {r : Route} :
    r ∈ aggregate rs ↔ r ∈ Worklist.run ⟨sort rs,0⟩ := Table.mem_distinct

theorem settled_aggregate (rs : List Route) : Settled (aggregate rs) :=
  fun a ha b hb => run_settled rs a (mem_aggregate.mp ha) b (mem_aggregate.mp hb)

theorem length_aggregate_le (rs : List Route) : (aggregate rs).length ≤ rs.length :=
  (Table.length_distinct_le _).trans (run_folds rs).length_le

theorem Settled.aggregate_eq {rs : List Route} (h : Settled rs) :
    aggregate rs = Table.distinct rs :=
  Table.distinct_congr fun _ => (h.perm_of_folds (run_folds rs)).symm.mem_iff

/-- The result of aggregation is a normal form of the routes. It is reached by merging, ascends
strictly, is no longer than the list of routes, depends on these but not on their order, holds no
two that can be merged, and is its own result. -/
theorem aggregate_normal_form (rs : List Route) :
    (∃ ts, Folds rs ts ∧ aggregate rs = Table.distinct ts) ∧
    (aggregate rs).Pairwise (compare · · = .lt) ∧
    Settled (aggregate rs) ∧
    (aggregate rs).length ≤ rs.length ∧
    (∀ ss, ss.Perm rs → aggregate ss = aggregate rs) ∧
    aggregate (aggregate rs) = aggregate rs := by
  have hs := settled_aggregate rs
  have ha := aggregate_ascending rs
  refine ⟨⟨_,run_folds rs,rfl⟩,ha,hs,length_aggregate_le rs,fun ss hp => aggregate_congr hp,?_⟩
  calc
    aggregate (aggregate rs) = Table.distinct (aggregate rs) := hs.aggregate_eq
    _ = aggregate rs := Table.distinct_eq_self ha

end Route
end PathVector
