import PathVector.Proofs.History

/-! What a withdrawal leaves. Equal routes share one entry of the table, which belongs to the neighbor
that announced the route last. A route that a neighbor announces and has not withdrawn is therefore
still there, unless another neighbor has announced the very same route later and has withdrawn it. -/
namespace PathVector

theorem exists_last {α : Type} {p : α → Prop} {xs : List α} {x : α} (h : x ∈ xs) (hp : p x) :
    ∃ before y later, xs = before++y::later ∧ p y ∧ ∀ z ∈ later, ¬ p z := by
  induction xs using List.reverseRecOn with
  | nil => cases h
  | append_singleton xs a ih =>
    by_cases ha : p a
    · exact ⟨xs,a,[],rfl,ha,by simp⟩
    · have hx : x ∈ xs := by
        rcases List.mem_append.mp h with h | h
        · exact h
        · exact absurd (List.mem_singleton.mp h ▸ hp) ha
      obtain ⟨before,y,later,rfl,hy,hl⟩ := ih hx
      refine ⟨before,y,later++[a],by simp,hy,fun z hz => ?_⟩
      rcases List.mem_append.mp hz with hz | hz
      · exact hl z hz
      · exact List.mem_singleton.mp hz ▸ ha

theorem announcedBy_of_last {neighbors : List Address} {before later : List Arrival} {b : Arrival}
    {route : Route} (hs : b.sender ∈ neighbors) (hi : b.Installs route)
    (hl : ∀ c ∈ later, ¬ (c.sender ∈ neighbors ∧ c.Installs route)) (n : Address) :
    AnnouncedBy neighbors (before++b::later) route n ↔
      b.sender = n ∧ ∀ c ∈ later, ¬ (c.sender = n ∧ c.Withdraws route.network) := by
  induction later using List.reverseRecOn with
  | nil =>
    rw [announcedBy_append]
    simp [hs,hi]
  | append_singleton later c ih =>
    have hc := hl c (by simp)
    have ih := ih fun d hd => hl d (List.mem_append_left _ hd)
    have he : before++b::(later++[c]) = (before++b::later)++[c] := by simp
    rw [he,announcedBy_append,ih]
    simp only [List.forall_mem_append,List.forall_mem_singleton]
    tauto

namespace Router

/-- The entry of a route after the last announcement of it. -/
theorem nexthop?_of_last (asn : UInt32) (neighbors : List (Address × Relationship))
    {before later : List Arrival} {b : Arrival} {route : Route}
    (hs : b.sender ∈ neighbors.map (·.1)) (hi : b.Installs route)
    (hl : ∀ c ∈ later, ¬ (c.sender ∈ neighbors.map (·.1) ∧ c.Installs route)) :
    ((configured asn neighbors).handleAll (before++b::later)).db.nexthop? route = none ↔
      ∃ c ∈ later, c.sender = b.sender ∧ c.Withdraws route.network := by
  have h (n : Address) := (nexthop?_handleAll asn neighbors (before++b::later) route n).trans
    (announcedBy_of_last hs hi hl n)
  rw [Option.eq_none_iff_forall_ne_some]
  constructor
  · intro hn
    by_contra hc
    exact hn b.sender ((h b.sender).mpr ⟨rfl,fun c hm hw => hc ⟨c,hm,hw⟩⟩)
  · rintro ⟨c,hm,hw⟩ n hn
    obtain ⟨rfl,hc⟩ := (h n).mp hn
    exact hc c hm hw

theorem nexthop?_handle_of_ne (r : Router) {c : Arrival} (h : c.IsWithdrawal) {route : Route}
    {n : Address} (hn : r.db.nexthop? route = some n) (hc : c.sender ≠ n) :
    (r.handle c.faults c.sender c.envelope).router.db.nexthop? route = some n := by
  obtain ⟨networks,hm⟩ := h
  rw [router_handle]
  split
  · refine (nexthop?_learn r.db c route n).mpr (.inr ⟨hn,?_,fun hw => hc hw.1⟩)
    rintro ⟨u,hu,-⟩
    rw [hm] at hu
    cases hu
  · exact hn

/-- What became of a route that the neighbor `a.sender` has announced and not withdrawn since. It is
gone exactly if the last to announce it was another neighbor that has withdrawn it since; else it
leads to a neighbor that still announces it. A withdrawal touches only entries that lead to its
sender. -/
theorem withdrawn_by_other_iff (asn : UInt32) (neighbors : List (Address × Relationship))
    (before later : List Arrival) (a : Arrival) (route : Route)
    (hs : a.sender ∈ neighbors.map (·.1)) (hi : a.Installs route)
    (hw : ∀ b ∈ later, ¬ (b.sender = a.sender ∧ b.Withdraws route.network)) :
    let senders := neighbors.map (·.1)
    let r := (configured asn neighbors).handleAll (before++a::later)
    (r.db.nexthop? route = none ↔ ∃ passed b rest, later = passed++b::rest ∧
      b.sender ∈ senders ∧ b.sender ≠ a.sender ∧ b.Installs route ∧
      (∀ c ∈ rest, ¬ (c.sender ∈ senders ∧ c.Installs route)) ∧
      ∃ c ∈ rest, c.sender = b.sender ∧ c.Withdraws route.network) ∧
    (∀ n, r.db.nexthop? route = some n → AnnouncedBy senders (a::later) route n) ∧
    ∀ c : Arrival, c.IsWithdrawal → ∀ s n, r.db.nexthop? s = some n → c.sender ≠ n →
      (r.handle c.faults c.sender c.envelope).router.db.nexthop? s = some n := by
  intro senders r
  obtain ⟨passed,b,rest,he,⟨hbs,hbi⟩,hl⟩ :=
    exists_last (p := fun b : Arrival => b.sender ∈ senders ∧ b.Installs route)
      (List.mem_cons_self (a := a) (l := later)) ⟨hs,hi⟩
  have hr : r = (configured asn neighbors).handleAll ((before++passed)++b::rest) :=
    congrArg (configured asn neighbors).handleAll (by rw [he,List.append_assoc])
  refine ⟨⟨fun hn => ?_,?_⟩,fun n hn => ?_,fun c hc s n hn => nexthop?_handle_of_ne r hc hn⟩
  · rw [hr,nexthop?_of_last asn neighbors hbs hbi hl] at hn
    obtain ⟨c,hc,hcs,hcw⟩ := hn
    -- The last announcement is not the one of `a`, for its sender has withdrawn the route.
    cases passed with
    | nil =>
      obtain ⟨rfl,rfl⟩ := List.cons.inj he
      exact absurd ⟨hcs,hcw⟩ (hw c hc)
    | cons x passed =>
      obtain ⟨rfl,rfl⟩ := List.cons.inj he
      refine ⟨passed,b,rest,rfl,hbs,fun hba => ?_,hbi,hl,c,hc,hcs,hcw⟩
      exact hw c (by simp [hc]) ⟨hcs.trans hba,hcw⟩
  · rintro ⟨passed,b,rest,rfl,hbs,-,hbi,hl,hc⟩
    have hr : r = (configured asn neighbors).handleAll ((before++a::passed)++b::rest) :=
      congrArg (configured asn neighbors).handleAll (by simp)
    rw [hr]
    exact (nexthop?_of_last asn neighbors hbs hbi hl).mpr hc
  · rw [hr,nexthop?_handleAll,announcedBy_of_last hbs hbi hl] at hn
    rw [he]
    exact (announcedBy_of_last hbs hbi hl n).mpr hn

private def owner : Address := .ofOctets 192 168 0 2

private def copier : Address := .ofOctets 10 0 0 2

private def shared : Update :=
  ⟨⟨.ofOctets 10 1 0 0,.ofLength 16⟩,[4],some 100,some true,some .exterior⟩

/-- The announcement of the shared route by a neighbor. -/
private def announcement (n : Address) : Arrival where
  sender := n
  envelope := ⟨n,n.gateway,.update shared⟩

private def retreat : Arrival where
  sender := copier
  envelope := ⟨copier,copier.gateway,.withdraw [shared.network]⟩

private def couple : List (Address × Relationship) := [(owner,.customer),(copier,.provider)]

private theorem owner_keeps {later : List Arrival} (h : ∀ b ∈ later, b.sender = copier) (b : Arrival)
    (hb : b ∈ later) : ¬ (b.sender = owner ∧ b.Withdraws shared.route.network) := by
  rw [h b hb]
  exact fun hc => absurd hc.1 (by decide)

/-- The route stays if the copy was announced first and is withdrawn. -/
theorem withdrawn_by_other_kept :
    let r := (configured 7 couple).handleAll [announcement copier,announcement owner,retreat]
    owner ∈ couple.map (·.1) ∧ (announcement owner).Installs shared.route ∧
      (∀ b ∈ [retreat], ¬ (b.sender = owner ∧ b.Withdraws shared.route.network)) ∧
      r.db.nexthop? shared.route ≠ none := by
  intro r
  have hs : owner ∈ couple.map (·.1) := by decide
  have hi : (announcement owner).Installs shared.route := ⟨shared,rfl,rfl⟩
  have hw : ∀ b ∈ [retreat], ¬ (b.sender = owner ∧ b.Withdraws shared.route.network) :=
    owner_keeps (by simp [retreat])
  refine ⟨hs,hi,hw,fun hn => ?_⟩
  obtain ⟨passed,b,rest,hl,-,-,⟨u,hu,-⟩,-⟩ := (withdrawn_by_other_iff 7 couple
    [announcement copier] [retreat] (announcement owner) shared.route hs hi hw).1.mp hn
  have hb : b ∈ [retreat] := hl ▸ by simp
  rw [List.mem_singleton.mp hb] at hu
  cases hu

/-- The route is lost though its owner still announces it, for the copy was announced last. -/
theorem withdrawn_by_other_lost :
    let r := (configured 7 couple).handleAll [announcement owner,announcement copier,retreat]
    owner ∈ couple.map (·.1) ∧ (announcement owner).Installs shared.route ∧
      (∀ b ∈ [announcement copier,retreat],
        ¬ (b.sender = owner ∧ b.Withdraws shared.route.network)) ∧
      r.db.nexthop? shared.route = none := by
  exact ⟨by decide,⟨shared,rfl,rfl⟩,owner_keeps (by simp [retreat,announcement]),by decide⟩

end Router
end PathVector
