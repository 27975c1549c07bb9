import PathVector.Proofs.Withdrawal

/-! A withdrawal as one filter. The table is searched once for each network that is named, and
routes are taken out in between, but no search misses or repeats a route for that: a network named
again finds nothing, and the routes to one network stand in the table in their order. -/
namespace PathVector

namespace Withdrawal

/-- The routes to a network that a neighbor announced, in the order of the table. -/
def taken (rib : Rib) (n : Address) (network : Network) : List Route :=
  (rib.entries.filter fun e => e.2 = n && e.1.network = network).map (·.1)

theorem mem_taken {rib : Rib} {n : Address} {network : Network} {r : Route} :
    r ∈ taken rib n network ↔ rib.get? r = some n ∧ r.network = network :=
  mem_found_iff { rib } n network r

theorem taken_ascending (rib : Rib) (n : Address) (network : Network) :
    (taken rib n network).Pairwise (compare · · = .lt) :=
  List.pairwise_map.mpr (rib.ascending.filter _)

theorem removed_step (w : Withdrawal) (n : Address) (network : Network) :
    (w.step n network).removed = w.removed++taken w.rib n network := by
  unfold step
  dsimp only
  split
  · rename_i h
    simp [taken,List.isEmpty_iff.mp h]
  · rfl

/-- Two withdrawals one after the other. -/
def andThen (v w : Withdrawal) : Withdrawal := ⟨w.rib,v.removed++w.removed,v.events++w.events⟩

theorem andThen_step (v w : Withdrawal) (n : Address) (network : Network) :
    (v.andThen w).step n network = v.andThen (w.step n network) := by
  unfold step
  by_cases h : (w.rib.entries.filter fun e => e.2 = n && e.1.network = network).isEmpty = true <;>
    simp only [andThen,h,if_true,if_false,Bool.false_eq_true,List.append_assoc]

theorem foldl_andThen (v w : Withdrawal) (n : Address) (networks : List Network) :
    networks.foldl (step n) (v.andThen w) = v.andThen (networks.foldl (step n) w) := by
  induction networks generalizing w with
  | nil => rfl
  | cons network networks ih => rw [List.foldl_cons,List.foldl_cons,andThen_step,ih]

theorem run_append (rib : Rib) (n : Address) (networks more : List Network) :
    run rib n (networks++more) =
      (run rib n networks).andThen (run (run rib n networks).rib n more) := by
  have hs : (run rib n networks).andThen { rib := (run rib n networks).rib } =
      run rib n networks := by
    simp only [andThen,List.append_nil]
  calc
    run rib n (networks++more) = more.foldl (step n) (run rib n networks) := List.foldl_append
    _ = more.foldl (step n)
        ((run rib n networks).andThen { rib := (run rib n networks).rib }) := by rw [hs]
    _ = _ := foldl_andThen _ _ n more

theorem removed_run_concat (rib : Rib) (n : Address) (networks : List Network)
    (network : Network) :
    (run rib n (networks++[network])).removed =
      (run rib n networks).removed++taken (run rib n networks).rib n network := by
  rw [run,List.foldl_append]
  exact removed_step _ n network

theorem mem_taken_run {rib : Rib} {n : Address} {networks : List Network} {network : Network}
    {r : Route} : r ∈ taken (run rib n networks).rib n network ↔
      (rib.get? r = some n ∧ r.network ∉ networks) ∧ r.network = network := by
  rw [mem_taken,get?_run]
  by_cases hr : rib.get? r = some n ∧ r.network ∈ networks
  · simp [hr]
  · rw [if_neg hr]
    tauto

theorem mem_removed_run {rib : Rib} {n : Address} {networks : List Network} {r : Route} :
    r ∈ (run rib n networks).removed ↔ rib.get? r = some n ∧ r.network ∈ networks := by
  induction networks using List.reverseRecOn with
  | nil => simp [run]
  | append_singleton networks network ih =>
    rw [removed_run_concat,List.mem_append,ih,mem_taken_run,List.mem_append,List.mem_singleton]
    tauto

/-- The network of `r` is named first, or it is that of `s` and `r` is the smaller route. -/
def Before (networks : List Network) (r s : Route) : Prop :=
  networks.idxOf r.network < networks.idxOf s.network ∨
    r.network = s.network ∧ compare r s = .lt

theorem Before.asymm {networks : List Network} {r s : Route} (h : Before networks r s) :
    ¬ Before networks s r := by
  rintro (hsr | ⟨hsr,hlt⟩)
  · rcases h with hrs | ⟨hrs,-⟩
    · omega
    · simp [hrs] at hsr
  · rcases h with hrs | ⟨-,hrs⟩
    · simp [hsr] at hrs
    · exact Table.lt_asymm hrs hlt

theorem removed_run_ordered (rib : Rib) (n : Address) (networks : List Network) :
    (run rib n networks).removed.Pairwise (Before networks) := by
  induction networks using List.reverseRecOn with
  | nil => exact .nil
  | append_singleton networks network ih =>
    rw [removed_run_concat,List.pairwise_append]
    refine ⟨ih.imp_of_mem fun {r s} hr hs h => ?_,
      (taken_ascending _ n network).imp_of_mem fun {r s} hr hs h => ?_,fun r hr s hs => ?_⟩
    · have hr := (mem_removed_run.mp hr).2
      have hs := (mem_removed_run.mp hs).2
      rw [Before,List.idxOf_append_of_mem hr,List.idxOf_append_of_mem hs]
      exact h
    · exact .inr ⟨(mem_taken.mp hr).2.trans (mem_taken.mp hs).2.symm,h⟩
    · -- The network of `s` is new, so it comes after all that were named before.
      have hr := (mem_removed_run.mp hr).2
      have hs := (mem_taken_run.mp hs).1.2
      have hlt := List.idxOf_lt_length_iff.mpr hr
      rw [Before,List.idxOf_append_of_mem hr,List.idxOf_append_of_notMem hs]
      exact .inl (by omega)

/-- The routes taken out depend on the routes of the neighbor only. -/
theorem removed_run_congr {rib other : Rib} {n : Address}
    (h : ∀ r, rib.get? r = some n ↔ other.get? r = some n) (networks : List Network) :
    (run rib n networks).removed = (run other n networks).removed :=
  Table.eq_of_mem_iff Before.asymm (removed_run_ordered rib n networks)
    (removed_run_ordered other n networks) fun r => by rw [mem_removed_run,mem_removed_run,h]

end Withdrawal

namespace Database

theorem withdraw_rib (db : Database) (n : Address) (networks : List Network) :
    (db.withdraw n networks).rib =
      db.rib.filter fun r nexthop => ¬ (nexthop = n ∧ r.network ∈ networks) := by
  refine Table.ext_get? fun r => ?_
  have hr : (db.withdraw n networks).rib.get? r =
      if db.rib.get? r = some n ∧ r.network ∈ networks then none else db.rib.get? r :=
    db.nexthop?_withdraw n networks r
  rw [Table.get?_filter,hr]
  cases hg : db.rib.get? r with
  | none => simp
  | some nexthop =>
    by_cases h : nexthop = n ∧ r.network ∈ networks
    · simp [Option.filter,h]
    · simp [Option.filter,h]

theorem withdraw_congr (db : Database) (n : Address) {networks others : List Network}
    (h : ∀ p, p ∈ networks ↔ p ∈ others) : db.withdraw n networks = db.withdraw n others := by
  have hset (s : NetworkSet) : networks.foldl (fun s p => s.insert p ()) s =
      others.foldl (fun s p => s.insert p ()) s :=
    Table.ext_contains fun p => by
      rw [Table.contains_foldl_insert,Table.contains_foldl_insert,h]
  refine ext_lookup (fun r => ?_) fun m => ?_
  · simp only [nexthop?_withdraw,h]
  · simp only [revoked?_withdraw,hset]

theorem withdraw_append (db : Database) (n : Address) (networks more : List Network) :
    db.withdraw n (networks++more) = (db.withdraw n networks).withdraw n more := by
  refine ext_lookup (fun r => ?_) fun m => ?_
  · simp only [nexthop?,withdraw,Withdrawal.run_append,Withdrawal.andThen]
  · simp only [revoked?_withdraw,List.foldl_append]
    by_cases h : n = m <;> simp [h]

theorem withdraw_withdraw (db : Database) (n : Address) (networks : List Network) :
    (db.withdraw n networks).withdraw n networks = db.withdraw n networks := by
  rw [← withdraw_append]
  exact db.withdraw_congr n fun p => by rw [List.mem_append,or_self]

theorem withdraw_comm (db : Database) {n m : Address} (h : m ≠ n)
    (networks others : List Network) :
    (db.withdraw n networks).withdraw m others = (db.withdraw m others).withdraw n networks := by
  refine ext_lookup (fun r => ?_) fun k => ?_
  · simp only [nexthop?_withdraw]
    by_cases hn : db.nexthop? r = some n
    · by_cases hr : r.network ∈ networks <;> simp [hn,hr,h.symm]
    · by_cases hm : db.nexthop? r = some m ∧ r.network ∈ others <;> simp [hn,hm]
  · simp only [revoked?_withdraw]
    by_cases hn : n = k
    · have hm : m ≠ k := fun hm => h (hm.trans hn.symm)
      simp [hn,hm]
    · simp [hn,h.symm]

/-- The routes taken out are those that the neighbor announced last, to the networks named. -/
theorem mem_removed_withdrawal {db : Database} {n : Address} {networks : List Network} {r : Route} :
    r ∈ (db.withdrawal n networks).removed ↔ db.nexthop? r = some n ∧ r.network ∈ networks :=
  Withdrawal.mem_removed_run

theorem removed_withdrawal_again (db : Database) (n : Address) (networks : List Network) :
    ((db.withdraw n networks).withdrawal n networks).removed = [] := by
  refine List.eq_nil_iff_forall_not_mem.mpr fun r hr => ?_
  obtain ⟨hn,hr⟩ := mem_removed_withdrawal.mp hr
  rw [nexthop?_withdraw] at hn
  by_cases h : db.nexthop? r = some n
  · simp [h,hr] at hn
  · simp [h] at hn

theorem nexthop?_withdraw_of_ne (db : Database) {n m : Address} (h : m ≠ n)
    (networks : List Network) (r : Route) :
    (db.withdraw m networks).nexthop? r = some n ↔ db.nexthop? r = some n := by
  rw [nexthop?_withdraw]
  by_cases hm : db.nexthop? r = some m ∧ r.network ∈ networks
  · simp [hm,h]
  · rw [if_neg hm]

/-- A withdrawal is one filter on the table, whatever the list of networks. It takes out the routes
of the neighbor to the networks named, each once, in the order in which the networks are first named
and of the routes to a network. Only the set of the networks counts; two withdrawals of a neighbor
are one; and what other neighbors withdraw makes no difference. -/
theorem withdraw_filter (db : Database) (n : Address) (networks : List Network) :
    ((db.withdraw n networks).rib =
      db.rib.filter fun r nexthop => ¬ (nexthop = n ∧ r.network ∈ networks)) ∧
    ((∀ r, r ∈ (db.withdrawal n networks).removed ↔
        db.nexthop? r = some n ∧ r.network ∈ networks) ∧
      (db.withdrawal n networks).removed.Nodup ∧
      (db.withdrawal n networks).removed.Pairwise (Withdrawal.Before networks)) ∧
    (∀ others, (∀ p, p ∈ networks ↔ p ∈ others) →
      db.withdraw n networks = db.withdraw n others) ∧
    (∀ more, db.withdraw n (networks++more) = (db.withdraw n networks).withdraw n more ∧
      (db.withdrawal n (networks++more)).removed =
        (db.withdrawal n networks).removed++((db.withdraw n networks).withdrawal n more).removed) ∧
    ((db.withdraw n networks).withdraw n networks = db.withdraw n networks ∧
      ((db.withdraw n networks).withdrawal n networks).removed = []) ∧
    ∀ m others, m ≠ n →
      (db.withdraw n networks).withdraw m others = (db.withdraw m others).withdraw n networks ∧
      ((db.withdraw m others).withdrawal n networks).removed =
        (db.withdrawal n networks).removed := by
  refine ⟨db.withdraw_rib n networks,⟨fun r => mem_removed_withdrawal,
    Table.nodup_of_pairwise Withdrawal.Before.asymm (Withdrawal.removed_run_ordered _ n networks),
    Withdrawal.removed_run_ordered _ n networks⟩,
    fun others => db.withdraw_congr n,fun more => ⟨db.withdraw_append n networks more,?_⟩,
    ⟨db.withdraw_withdraw n networks,db.removed_withdrawal_again n networks⟩,
    fun m others h => ⟨db.withdraw_comm h networks others,?_⟩⟩
  · exact congrArg Withdrawal.removed (Withdrawal.run_append db.rib n networks more)
  · exact Withdrawal.removed_run_congr (db.nexthop?_withdraw_of_ne h others) networks

end Database
end PathVector
