import PathVector.Proofs.Worklist

/-! The table as it is shown: for each neighbor the aggregated routes that lead to it. -/
namespace PathVector
namespace Rib

/-- The routes that lead to a neighbor, in the order of the table. -/
def routesTo (es : List (Route × Address)) (peer : Address) : List Route :=
  (es.filter fun e => e.2 = peer).map (·.1)

theorem mem_routesTo {es : List (Route × Address)} {peer : Address} {r : Route} :
    r ∈ routesTo es peer ↔ (r,peer) ∈ es := by
  simp [routesTo]

theorem routesTo_append (es : List (Route × Address)) (e : Route × Address) (peer : Address) :
    routesTo (es++[e]) peer =
      if e.2 = peer then routesTo es peer++[e.1] else routesTo es peer := by
  by_cases h : e.2 = peer <;> simp [routesTo,h]

theorem keys_addToGroup (peer : Address) (r : Route) (gs : List (Address × List Route)) :
    (addToGroup peer r gs).map (·.1) =
      if peer ∈ gs.map (·.1) then gs.map (·.1) else gs.map (·.1)++[peer] := by
  induction gs with
  | nil => simp [addToGroup]
  | cons g gs ih =>
    unfold addToGroup
    by_cases h : g.1 = peer
    · simp [h]
    · have h' : ¬ peer = g.1 := fun e => h e.symm
      simp only [h,if_false,List.map_cons,ih,List.mem_cons,h',false_or]
      split <;> rfl

theorem mem_addToGroup_of_ne {peer : Address} {g : Address × List Route} (h : g.1 ≠ peer)
    (r : Route) (gs : List (Address × List Route)) : g ∈ addToGroup peer r gs ↔ g ∈ gs := by
  induction gs with
  | nil => simpa [addToGroup] using fun e => h (congrArg Prod.fst e)
  | cons a gs ih =>
    unfold addToGroup
    by_cases ha : a.1 = peer
    · have hg : g ≠ (peer,a.2++[r]) := fun e => h (congrArg Prod.fst e)
      have hg' : g ≠ a := fun e => h (e ▸ ha)
      simp only [ha,if_true,List.mem_cons,hg,hg',false_or]
    · simp only [ha,if_false,List.mem_cons,ih]

/-- The group of a neighbor, empty if there is none. -/
def groupOf (gs : List (Address × List Route)) (peer : Address) : List Route :=
  ((gs.find? fun g => g.1 = peer).map (·.2)).getD []

theorem mem_addToGroup_self {gs : List (Address × List Route)} (hn : (gs.map (·.1)).Nodup)
    (peer : Address) (r : Route) (rs : List Route) :
    (peer,rs) ∈ addToGroup peer r gs ↔ rs = groupOf gs peer++[r] := by
  induction gs with
  | nil => simp [addToGroup,groupOf]
  | cons g gs ih =>
    obtain ⟨hg,hn⟩ := List.nodup_cons.mp hn
    have ih := ih hn
    unfold addToGroup
    by_cases h : g.1 = peer
    · have hm : (peer,rs) ∉ gs := fun hm => hg (List.mem_map.mpr ⟨(peer,rs),hm,h.symm⟩)
      simp [h,groupOf,hm]
    · have hne : (peer,rs) ≠ g := fun e => h (congrArg Prod.fst e).symm
      simp only [h,if_false,List.mem_cons,hne,false_or,ih]
      simp [groupOf,h]

/-- Each neighbor that routes lead to has one group, which holds these routes. -/
structure Grouped (es : List (Route × Address)) (gs : List (Address × List Route)) : Prop where
  nodup : (gs.map (·.1)).Nodup
  mem_iff : ∀ g, g ∈ gs ↔ g.2 = routesTo es g.1 ∧ g.2 ≠ []

theorem Grouped.groupOf_eq {es : List (Route × Address)} {gs : List (Address × List Route)}
    (h : Grouped es gs) (peer : Address) : groupOf gs peer = routesTo es peer := by
  unfold groupOf
  cases hf : gs.find? fun g => g.1 = peer with
  | some g =>
    have hp : g.1 = peer := by simpa using List.find?_some hf
    exact hp ▸ ((h.mem_iff g).mp (List.mem_of_find?_eq_some hf)).1
  | none =>
    by_contra hne
    have hm : (peer,routesTo es peer) ∈ gs := (h.mem_iff _).mpr ⟨rfl,fun e => hne e.symm⟩
    simpa using List.find?_eq_none.mp hf _ hm

theorem Grouped.addToGroup {es : List (Route × Address)} {gs : List (Address × List Route)}
    (h : Grouped es gs) (e : Route × Address) : Grouped (es++[e]) (addToGroup e.2 e.1 gs) where
  nodup := by
    rw [keys_addToGroup]
    split
    · exact h.nodup
    · rename_i hn
      exact List.Nodup.append h.nodup (List.nodup_singleton _) (List.disjoint_singleton.mpr hn)
  mem_iff g := by
    by_cases hg : g.1 = e.2
    · obtain ⟨peer,rs⟩ := g
      obtain rfl : peer = e.2 := hg
      rw [mem_addToGroup_self h.nodup,h.groupOf_eq,routesTo_append,if_pos rfl]
      constructor
      · rintro rfl
        simp
      · exact And.left
    · rw [mem_addToGroup_of_ne hg,h.mem_iff,routesTo_append,if_neg (Ne.symm hg)]

theorem grouped_groups (rib : Rib) : Grouped rib.entries rib.groups := by
  unfold groups
  generalize rib.entries = es
  induction es using List.reverseRecOn with
  | nil => exact ⟨by simp,by simp [routesTo]⟩
  | append_singleton es e ih =>
    rw [List.foldl_append]
    exact ih.addToGroup e

theorem Grouped.mem_entriesOf {es : List (Route × Address)} {gs : List (Address × List Route)}
    (h : Grouped es gs) (e : TableEntry) :
    e ∈ entriesOf gs ↔ e.route ∈ Route.aggregate (routesTo es e.peer) := by
  obtain ⟨r,peer⟩ := e
  simp only [entriesOf,List.mem_flatMap,List.mem_mergeSort,List.mem_map,TableEntry.mk.injEq]
  constructor
  · rintro ⟨g,hm,s,hs,rfl,rfl⟩
    exact ((h.mem_iff g).mp hm).1 ▸ hs
  · intro hr
    refine ⟨(peer,routesTo es peer),(h.mem_iff _).mpr ⟨rfl,fun hn => ?_⟩,r,hr,rfl,rfl⟩
    simp [show routesTo es peer = [] from hn] at hr

/-- What is shown for a neighbor are the aggregated routes that lead to it. -/
theorem mem_snapshot (rib : Rib) (e : TableEntry) :
    e ∈ rib.snapshot ↔ e.route ∈ Route.aggregate (routesTo rib.entries e.peer) :=
  (grouped_groups rib).mem_entriesOf e

theorem isSome_matchLength? (r : Route) (d : Address) :
    (r.matchLength? d).isSome = true ↔ r.network.Contains d := by
  simp [Option.isSome_iff_exists,Route.matchLength?_eq_some_iff]

/-- If no network of the table has bits outside its mask, then the table as it is shown leads to an
address, by a neighbor and with some attributes, exactly if the table itself does. -/
theorem snapshot_matches_iff (rib : Rib) (h : ∀ e ∈ rib.entries, e.1.network.Aligned)
    (peer : Address) (attributes : Attributes) (d : Address) :
    (∃ e ∈ rib.snapshot, e.peer = peer ∧ e.route.attributes = attributes ∧
        (e.route.matchLength? d).isSome = true) ↔
      ∃ e ∈ rib.entries, e.2 = peer ∧ e.1.attributes = attributes ∧
        (e.1.matchLength? d).isSome = true := by
  have ha : ∀ r ∈ routesTo rib.entries peer, r.network.Aligned :=
    fun r hr => h (r,peer) (mem_routesTo.mp hr)
  simp only [isSome_matchLength?]
  calc
    _ ↔ Route.Covers (Route.aggregate (routesTo rib.entries peer)) attributes d := by
      constructor
      · rintro ⟨e,he,rfl,hm⟩
        exact ⟨e.route,(mem_snapshot rib e).mp he,hm⟩
      · rintro ⟨r,hr,hm⟩
        exact ⟨⟨r,peer⟩,(mem_snapshot rib _).mpr hr,rfl,hm⟩
    _ ↔ Route.Covers (routesTo rib.entries peer) attributes d :=
      Route.covers_aggregate ha attributes d
    _ ↔ _ := by
      constructor
      · rintro ⟨r,hr,hm⟩
        exact ⟨(r,peer),mem_routesTo.mp hr,rfl,hm⟩
      · rintro ⟨e,he,rfl,hm⟩
        exact ⟨e.1,mem_routesTo.mpr he,hm⟩

private def plain : Attributes := ⟨[7],100,false,.unknown⟩

/-- Both halves of all addresses, and two neighboring hosts, by way of one neighbor. -/
private def halves (peer : Address) : Rib :=
  .ofList [(⟨⟨.ofOctets 0 0 0 0,.ofLength 1⟩,plain⟩,peer),
    (⟨⟨.ofOctets 10 0 0 0,.ofLength 32⟩,plain⟩,peer),
    (⟨⟨.ofOctets 10 0 0 1,.ofLength 32⟩,plain⟩,peer),
    (⟨⟨.ofOctets 128 0 0 0,.ofLength 1⟩,plain⟩,peer)]

theorem snapshot_matches_halves :
    (∀ e ∈ (halves (.ofOctets 10 0 0 2)).entries, e.1.network.Aligned) ∧
      ∃ e ∈ (halves (.ofOctets 10 0 0 2)).snapshot, e.peer = .ofOctets 10 0 0 2 ∧
        e.route.attributes = plain ∧ (e.route.matchLength? (.ofOctets 200 0 0 9)).isSome = true := by
  have h : ∀ e ∈ (halves (.ofOctets 10 0 0 2)).entries, e.1.network.Aligned := by decide
  exact ⟨h,(snapshot_matches_iff _ h _ _ _).mpr (by decide)⟩

end Rib
end PathVector
