import PathVector.Proofs.Fixpoint
import PathVector.Proofs.Snapshot

/-! The table as it is shown, neighbor by neighbor. The entries ascend strictly, by peer and then by
route, and a list that ascends strictly is told by its members. So neither the order of the groups
matters nor, for the entries of one neighbor, what leads to other neighbors. -/
namespace PathVector

namespace TableEntry

/-- By peer, and the entries of one peer by route. -/
instance : Ord TableEntry := ⟨compareLex (compareOn (·.peer)) (compareOn (·.route))⟩

instance : Std.TransOrd TableEntry :=
  inferInstanceAs (Std.TransCmp (compareLex (compareOn TableEntry.peer)
    (compareOn TableEntry.route)))

theorem compare_eq_lt_of_peer {e f : TableEntry} (h : compare e.peer f.peer = .lt) :
    compare e f = .lt := by
  change (compare e.peer f.peer).then _ = _
  rw [h]
  rfl

theorem compare_of_peer_eq (peer : Address) (r s : Route) :
    compare (⟨r,peer⟩ : TableEntry) ⟨s,peer⟩ = compare r s := by
  have hp : compare peer peer = .eq := Std.ReflCmp.compare_self
  change (compare peer peer).then (compare r s) = _
  rw [hp]
  rfl

end TableEntry

namespace Rib

theorem ascending_flatMap {α : Type} (peer : α → Address) (routes : α → List Route) {xs : List α}
    (h : xs.Pairwise fun x y => compare (peer x) (peer y) = .lt) :
    (xs.flatMap fun x => (Route.aggregate (routes x)).map fun r =>
      (⟨r,peer x⟩ : TableEntry)).Pairwise (compare · · = .lt) := by
  refine List.pairwise_flatMap.mpr ⟨fun x _ => ?_,h.imp fun hxy e he f hf => ?_⟩
  · rw [List.pairwise_map]
    refine (Route.aggregate_ascending (routes x)).imp fun hrs => ?_
    rw [TableEntry.compare_of_peer_eq,hrs]
  · obtain ⟨r,-,rfl⟩ := List.mem_map.mp he
    obtain ⟨s,-,rfl⟩ := List.mem_map.mp hf
    exact TableEntry.compare_eq_lt_of_peer hxy

section Grouped

variable {es : List (Route × Address)} {gs : List (Address × List Route)} (h : Grouped es gs)

include h

theorem Grouped.perm {hs : List (Address × List Route)} (hp : hs.Perm gs) : Grouped es hs where
  nodup := (hp.map _).nodup_iff.mpr h.nodup
  mem_iff g := hp.mem_iff.trans (h.mem_iff g)

theorem Grouped.ascending_entriesOf : (entriesOf gs).Pairwise (compare · · = .lt) := by
  let sorted := gs.mergeSort fun g h => (compare g.1 h.1).isLE
  have hle : sorted.Pairwise fun g h => (compare g.1 h.1).isLE = true := Table.sorted_mergeSort _ gs
  have hne : sorted.Pairwise fun g h => g.1 ≠ h.1 :=
    List.pairwise_map.mp (h.perm (List.mergeSort_perm gs _)).nodup
  refine ascending_flatMap Prod.fst Prod.snd ((hle.and hne).imp fun {g h} ⟨hle,hne⟩ => ?_)
  rcases Ordering.isLE_iff_eq_lt_or_eq_eq.mp hle with hlt | heq
  · exact hlt
  · exact absurd (Std.LawfulEqOrd.eq_of_compare heq) hne

/-- The groups of a table make the same entries in whatever order they come. -/
theorem Grouped.entriesOf_eq {hs : List (Address × List Route)} (hh : Grouped es hs) :
    entriesOf gs = entriesOf hs :=
  Table.eq_of_ascending h.ascending_entriesOf hh.ascending_entriesOf fun e => by
    rw [h.mem_entriesOf,hh.mem_entriesOf]

end Grouped

theorem snapshot_ascending (rib : Rib) : rib.snapshot.Pairwise (compare · · = .lt) :=
  (grouped_groups rib).ascending_entriesOf

/-- The entries for one neighbor: the aggregated routes that lead to it. -/
def shownFor (rib : Rib) (peer : Address) : List TableEntry :=
  (Route.aggregate (routesTo rib.entries peer)).map fun r => ⟨r,peer⟩

theorem mem_shownFor {rib : Rib} {peer : Address} {e : TableEntry} :
    e ∈ rib.shownFor peer ↔ e.peer = peer ∧ e ∈ rib.snapshot := by
  rw [mem_snapshot,shownFor,List.mem_map]
  constructor
  · rintro ⟨r,hr,rfl⟩
    exact ⟨rfl,hr⟩
  · rintro ⟨rfl,hr⟩
    exact ⟨e.route,hr,rfl⟩

/-- Neighbors in ascending order. -/
def peers (rib : Rib) : List Address := Table.distinct (rib.entries.map (·.2))

theorem mem_peers_of_mem_snapshot {rib : Rib} {e : TableEntry} (h : e ∈ rib.snapshot) :
    e.peer ∈ rib.peers := by
  rw [mem_snapshot] at h
  have hne : routesTo rib.entries e.peer ≠ [] := fun hn => by simp [hn] at h
  obtain ⟨r,hr⟩ := List.exists_mem_of_ne_nil _ hne
  exact Table.mem_distinct.mpr (List.mem_map.mpr ⟨_,mem_routesTo.mp hr,rfl⟩)

theorem snapshot_eq_flatMap (rib : Rib) : rib.snapshot = rib.peers.flatMap rib.shownFor := by
  have ha : (rib.peers.flatMap rib.shownFor).Pairwise (compare · · = .lt) :=
    ascending_flatMap id (routesTo rib.entries) (Table.ascending_distinct _)
  refine Table.eq_of_ascending rib.snapshot_ascending ha fun e => ?_
  simp only [List.mem_flatMap,mem_shownFor]
  constructor
  · exact fun h => ⟨e.peer,mem_peers_of_mem_snapshot h,rfl,h⟩
  · rintro ⟨peer,-,-,h⟩
    exact h

theorem filter_snapshot (rib : Rib) (peer : Address) :
    (rib.snapshot.filter fun e => e.peer = peer) = rib.shownFor peer := by
  have ha : (rib.shownFor peer).Pairwise (compare · · = .lt) := by
    have h := ascending_flatMap id (routesTo rib.entries) (List.pairwise_singleton _ peer)
    rwa [List.flatMap_singleton] at h
  refine Table.eq_of_ascending (rib.snapshot_ascending.filter _) ha fun e => ?_
  rw [List.mem_filter,mem_shownFor,decide_eq_true_eq,and_comm]

theorem routesTo_congr {rib other : Rib} {peer : Address}
    (h : ∀ r, rib.get? r = some peer ↔ other.get? r = some peer) :
    routesTo rib.entries peer = routesTo other.entries peer := by
  have ha (t : Rib) : (routesTo t.entries peer).Pairwise (compare · · = .lt) :=
    List.pairwise_map.mpr (t.ascending.filter _)
  refine Table.eq_of_ascending (ha rib) (ha other) fun r => ?_
  rw [mem_routesTo,mem_routesTo,← Table.get?_eq_some_iff,← Table.get?_eq_some_iff,h]

/-- The table is shown neighbor by neighbor: in ascending order of the neighbors the aggregated
routes that lead to each, in whatever order the groups of the neighbors come. What is shown for one
neighbor depends on the routes that lead to it and on no others. -/
theorem snapshot_by_neighbor (rib : Rib) :
    (∀ gs, gs.Perm rib.groups → entriesOf gs = rib.snapshot) ∧
    rib.snapshot = rib.peers.flatMap rib.shownFor ∧
    rib.snapshot.Pairwise (compare · · = .lt) ∧
    ∀ (other : Rib) (peer : Address),
      (∀ r, rib.get? r = some peer ↔ other.get? r = some peer) →
      (rib.snapshot.filter fun e => e.peer = peer) =
        other.snapshot.filter fun e => e.peer = peer := by
  have hg := grouped_groups rib
  refine ⟨fun gs hp => (hg.perm hp).entriesOf_eq hg,rib.snapshot_eq_flatMap,
    rib.snapshot_ascending,fun other peer h => ?_⟩
  rw [filter_snapshot,filter_snapshot,shownFor,shownFor,routesTo_congr h]

end Rib
end PathVector
