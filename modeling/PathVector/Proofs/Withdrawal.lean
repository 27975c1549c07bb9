import PathVector.Database
import PathVector.Proofs.Table

/-! What a withdrawal does to a database. The routes taken out are those of the withdrawing neighbor
to the withdrawn networks, whatever the order in which the networks are named; the networks are added
to what the neighbor has withdrawn before. -/
namespace PathVector

namespace Withdrawal

theorem mem_found_iff (w : Withdrawal) (n : Address) (network : Network) (r : Route) :
    r ∈ (w.rib.entries.filter fun e => e.2 = n && e.1.network = network).map (·.1) ↔
      w.rib.get? r = some n ∧ r.network = network := by
  simp only [List.mem_map,List.mem_filter,Bool.and_eq_true,decide_eq_true_eq,Prod.exists,
    exists_and_right,exists_eq_right,Table.get?_eq_some_iff]
  constructor
  · rintro ⟨a,hm,rfl,hn⟩
    exact ⟨hm,hn⟩
  · rintro ⟨hm,hn⟩
    exact ⟨n,hm,rfl,hn⟩

theorem get?_step (w : Withdrawal) (n : Address) (network : Network) (r : Route) :
    (w.step n network).rib.get? r =
      if w.rib.get? r = some n ∧ r.network = network then none else w.rib.get? r := by
  unfold step
  dsimp only
  split
  · rename_i h
    have hr : ¬ (w.rib.get? r = some n ∧ r.network = network) := by
      rw [← mem_found_iff w n network r,List.isEmpty_iff.mp h]
      simp
    rw [if_neg hr]
  · simp only [Table.get?_foldl_erase,mem_found_iff]

/-- The steps taken together: a filter on the table. -/
theorem get?_run (rib : Rib) (n : Address) (networks : List Network) (r : Route) :
    (run rib n networks).rib.get? r =
      if rib.get? r = some n ∧ r.network ∈ networks then none else rib.get? r := by
  have h (w : Withdrawal) : (networks.foldl (step n) w).rib.get? r =
      if w.rib.get? r = some n ∧ r.network ∈ networks then none else w.rib.get? r := by
    induction networks generalizing w with
    | nil => simp
    | cons a as ih =>
      rw [List.foldl_cons,ih,get?_step]
      by_cases hn : w.rib.get? r = some n
      · by_cases ha : r.network = a <;> simp [hn,ha]
      · simp [hn]
  exact h { rib }

theorem of_mem_events (rib : Rib) (n : Address) (networks : List Network) :
    ∀ e ∈ (run rib n networks).events,
      ∃ routes network, e = .table routes n (.nothingToWithdraw network) := by
  have h (w : Withdrawal) (hw : ∀ e ∈ w.events, ∃ routes network,
      e = .table routes n (.nothingToWithdraw network)) :
      ∀ e ∈ (networks.foldl (step n) w).events, ∃ routes network,
        e = .table routes n (.nothingToWithdraw network) := by
    induction networks generalizing w with
    | nil => exact hw
    | cons network networks ih =>
      apply ih
      intro e he
      dsimp only [step] at he
      split at he
      · rcases List.mem_append.mp he with he | he
        · exact hw e he
        · exact ⟨_,network,List.mem_singleton.mp he⟩
      · exact hw e he
  exact h { rib } (by simp)

end Withdrawal

namespace Database

theorem ext_lookup {db other : Database} (hn : ∀ route, db.nexthop? route = other.nexthop? route)
    (hr : ∀ n, db.revoked? n = other.revoked? n) : db = other := by
  have hrib : db.rib = other.rib := Table.ext_get? hn
  have hrevoked : db.revoked = other.revoked := Table.ext_get? hr
  cases db
  cases other
  simp_all

theorem nexthop?_withdraw (db : Database) (n : Address) (networks : List Network) (r : Route) :
    (db.withdraw n networks).nexthop? r =
      if db.nexthop? r = some n ∧ r.network ∈ networks then none else db.nexthop? r :=
  Withdrawal.get?_run db.rib n networks r

/-- `neighbor` has withdrawn `network` at some time. -/
def Revoked (db : Database) (neighbor : Address) (network : Network) : Prop :=
  ∃ s, db.revoked? neighbor = some s ∧ s.contains network = true

theorem revoked?_insert (db : Database) (r : Route) (n m : Address) :
    (db.insert r n).revoked? m = db.revoked? m := rfl

theorem revoked?_withdraw (db : Database) (n : Address) (networks : List Network) (m : Address) :
    (db.withdraw n networks).revoked? m =
      if n = m then
        some (networks.foldl (fun s p => s.insert p ()) ((db.revoked? n).getD .empty))
      else db.revoked? m :=
  Table.get?_insert db.revoked n m _

theorem revoked_withdraw (db : Database) (n : Address) (networks : List Network) (m : Address)
    (p : Network) :
    (db.withdraw n networks).Revoked m p ↔ (n = m ∧ p ∈ networks) ∨ db.Revoked m p := by
  unfold Revoked
  rw [revoked?_withdraw]
  by_cases h : n = m
  · subst h
    simp only [if_true,Option.some.injEq,exists_eq_left',Table.contains_foldl_insert,true_and]
    cases db.revoked? n <;> simp [Table.contains]
  · simp [h]

end Database
end PathVector
