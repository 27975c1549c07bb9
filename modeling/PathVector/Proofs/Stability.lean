import PathVector.Proofs.Preference
import PathVector.Proofs.Withdrawal

/-! Selection when the table changes. A selected entry stays selected as long as it stays in the
table, whatever else is taken out; and the only entry that can take its place is one that comes in.
-/
namespace PathVector

open Std

namespace Rib

/-- Entries other than the best one may go. -/
theorem IsBest.of_subset {rib other : Rib} {d : Address} {e : Route × Address}
    (h : rib.IsBest d e) (he : e ∈ other.entries) (hs : ∀ x ∈ other.entries, x ∈ rib.entries) :
    other.IsBest d e :=
  ⟨he,h.2.1,fun x hx => h.2.2 x (hs x hx)⟩

theorem bestPath?_of_get? {rib other : Rib} {d : Address} {r : Route} {n : Address}
    (h : rib.bestPath? d = some (r,n)) (hr : other.get? r = rib.get? r)
    (hs : ∀ s m, other.get? s = some m → rib.get? s = some m) :
    other.bestPath? d = some (r,n) := by
  have hb := isBest_of_bestPath? h
  have hn : rib.get? r = some n := (Table.get?_eq_some_iff rib r n).mpr hb.1
  have he : (r,n) ∈ other.entries := (Table.get?_eq_some_iff other r n).mp (hr.trans hn)
  refine bestPath?_eq_some_iff.mpr (hb.of_subset he fun x hx => ?_)
  exact (Table.get?_eq_some_iff rib x.1 x.2).mp
    (hs x.1 x.2 ((Table.get?_eq_some_iff other x.1 x.2).mpr hx))

theorem preference_ne_eq {a b : Route × Address} (h : a.1 ≠ b.1) : preference a b ≠ .eq := by
  rw [preference_eq]
  intro he
  exact h (LawfulEqOrd.eq_of_compare (Ordering.then_eq_eq.mp he).2)

/-- A new entry is selected if it contains `d` and is preferred to the one selected before, which
otherwise stays. -/
theorem bestPath?_insert {rib : Rib} {d : Address} {e : Route × Address}
    (h : rib.bestPath? d = some e) {r : Route} (hr : rib.get? r = none) (n : Address) :
    bestPath? (rib.insert r n) d =
      if r.network.Contains d ∧ preference (r,n) e = .lt then some (r,n) else some e := by
  have hb := isBest_of_bestPath? h
  split
  · rename_i hnew
    refine bestPath?_eq_some_iff.mpr ⟨(Table.mem_entries_insert hr).mpr (.inl rfl),hnew.1,
      fun x hx hd hne => ?_⟩
    have hx := ((Table.mem_entries_insert hr).mp hx).resolve_left hne
    by_cases hxe : x = e
    · exact hxe ▸ hnew.2
    · exact TransCmp.lt_trans hnew.2 (hb.2.2 x hx hd hxe)
  · rename_i hold
    refine bestPath?_eq_some_iff.mpr ⟨(Table.mem_entries_insert hr).mpr (.inr hb.1),hb.2.1,
      fun x hx hd hne => ?_⟩
    rcases (Table.mem_entries_insert hr).mp hx with rfl | hx
    · have hre : e.1 ≠ r := fun he => by
        rw [← he,(Table.get?_eq_some_iff rib e.1 e.2).mpr hb.1] at hr
        cases hr
      cases hp : preference e (r,n) with
      | lt => rfl
      | eq => exact absurd hp (preference_ne_eq hre)
      | gt => exact absurd ⟨hd,OrientedCmp.lt_of_gt hp⟩ hold
    · exact hb.2.2 x hx hd hne

end Rib

namespace Database

theorem nexthop?_foldl_remove (db : Database) (rs : List Route) (s : Route) :
    (rs.foldl remove db).nexthop? s = if s ∈ rs then none else db.nexthop? s := by
  induction rs generalizing db with
  | nil => simp
  | cons r rs ih =>
    rw [List.foldl_cons,ih,nexthop?_remove]
    by_cases hr : r = s
    · simp [hr]
    · simp [hr,Ne.symm hr]

/-- A selected route stays selected when other routes are removed and when a neighbor withdraws,
unless it is the next hop and names the route's network. When a route is inserted that was not in
the table, that very entry is selected if it contains the destination and comes first in the order
of preference, and otherwise the selection stays. -/
theorem bestPath?_stable (db : Database) (d : Address) (r : Route) (n : Address)
    (h : db.bestPath? d = some (r,n)) :
    (∀ rs : List Route, r ∉ rs → (rs.foldl remove db).bestPath? d = some (r,n)) ∧
    (∀ m networks, m ≠ n ∨ r.network ∉ networks →
      (db.withdraw m networks).bestPath? d = some (r,n)) ∧
    ∀ s m, db.nexthop? s = none → (db.insert s m).bestPath? d =
      if s.network.Contains d ∧ Rib.preference (s,m) (r,n) = .lt then some (s,m)
      else some (r,n) := by
  have hn : db.nexthop? r = some n :=
    (Table.get?_eq_some_iff db.rib r n).mpr (Rib.isBest_of_bestPath? h).1
  refine ⟨fun rs hr => ?_,fun m networks hm => ?_,fun s m hs => Rib.bestPath?_insert h hs m⟩
  · refine Rib.bestPath?_of_get? h ?_ fun s m hs => ?_
    · exact (db.nexthop?_foldl_remove rs r).trans (if_neg hr)
    · have hs : (rs.foldl remove db).nexthop? s = some m := hs
      rw [nexthop?_foldl_remove] at hs
      split at hs
      · cases hs
      · exact hs
  · refine Rib.bestPath?_of_get? h ?_ fun s k hs => ?_
    · refine (db.nexthop?_withdraw m networks r).trans (if_neg ?_)
      rw [hn]
      rintro ⟨he,hr⟩
      exact hm.elim (fun hm => hm (Option.some.inj he).symm) fun hm => hm hr
    · have hs : (db.withdraw m networks).nexthop? s = some k := hs
      rw [nexthop?_withdraw] at hs
      split at hs
      · cases hs
      · exact hs

private def near : Address := .ofOctets 10 0 0 2

private def far : Address := .ofOctets 192 168 0 2

private def viaFar : Route := ⟨⟨.ofOctets 172 16 0 0,.ofLength 16⟩,⟨[3,4],200,false,.unknown⟩⟩

private def viaNear : Route := ⟨⟨.ofOctets 172 16 0 0,.ofLength 16⟩,⟨[3],100,true,.interior⟩⟩

private def narrow : Route := ⟨⟨.ofOctets 172 16 5 0,.ofLength 24⟩,⟨[8,9,3],100,false,.unknown⟩⟩

/-- Two neighbors lead to one network. The withdrawal of one leaves the other selected; a narrower
network takes its place. -/
theorem bestPath?_stable_shared :
    let db := (insert {} viaNear near).insert viaFar far
    let d : Address := .ofOctets 172 16 5 9
    db.bestPath? d = some (viaFar,far) ∧
      (db.withdraw near [viaFar.network]).bestPath? d = some (viaFar,far) ∧
      (db.remove viaNear).bestPath? d = some (viaFar,far) ∧
      (db.insert narrow near).bestPath? d = some (narrow,near) := by
  intro db d
  have h : db.bestPath? d = some (viaFar,far) := by decide
  obtain ⟨hremove,hwithdraw,hinsert⟩ := bestPath?_stable db d viaFar far h
  refine ⟨h,hwithdraw near _ (.inl (by decide)),hremove [viaNear] (by decide),?_⟩
  exact (hinsert narrow near (by decide)).trans (if_pos (by decide))

end Database
end PathVector
