import PathVector.Proofs.Relay

/-! What is announced and what is carried. Whether a route is announced to a neighbor is decided
when the update comes in; whether the data of the neighbor is carried along it is decided when the
data comes in, by another rule and from the other side. The two decisions agree in every run, for
the route still leads to the neighbor whose update installed it, and relationships stay as they are.
-/
namespace PathVector

/-- `x` is the last update in a history by which `f` installed the route. -/
structure LatestUpdate (history : List Arrival) (f : Address) (route : Route)
    (before : List Arrival) (x : Arrival) (later : List Arrival) : Prop where
  split : history = before++x::later
  sender : x.sender = f
  installs : x.Installs route
  last : ∀ y ∈ later, ¬ (y.sender = f ∧ y.Installs route)

theorem AnnouncedBy.exists_latest {neighbors : List Address} {history : List Arrival}
    {route : Route} {f : Address} (h : AnnouncedBy neighbors history route f) :
    ∃ before x later, LatestUpdate history f route before x later := by
  have hf : f ∈ neighbors := h.mem
  obtain ⟨before,x,later,hsplit,-,hx,hi,hl⟩ := h
  refine ⟨before,x,later,hsplit,hx,hi,fun y hy hc => ?_⟩
  exact (hl y hy).1 ⟨hc.1 ▸ hf,hc.2⟩

namespace Router

theorem asn_configured (asn : UInt32) (neighbors : List (Address × Relationship)) :
    (configured asn neighbors).asn = asn := by
  apply after_induction (p := fun r => r.asn = asn) rfl
  intro r op hr
  cases op with
  | add n s => exact (asn_addNeighbor r n s).trans hr
  | receive a => exact (asn_handleAll r [a]).trans hr

theorem relationship_handleAll (r : Router) (history : List Arrival) (n : Address) :
    (r.handleAll history).relationship n = r.relationship n := by
  simp only [relationship,neighbors_handleAll]

theorem relayed?_of_installs (r : Router) {a : Arrival} {route : Route} (h : a.Installs route) :
    r.relayed? a.envelope.msg =
      some (.update ⟨route.network,r.asn::route.asPath,none,none,none⟩) := by
  obtain ⟨u,hu,rfl⟩ := h
  rw [hu]
  rfl

theorem mem_exports_of_installs {r : Router} {a : Arrival} {route : Route} {n : Address}
    {source target : Relationship} (h : a.Installs route)
    (hs : r.relationship a.sender = .ok source) (ht : r.relationship n = .ok target)
    (hn : n ≠ a.sender) :
    (n,envelopeTo n (.update ⟨route.network,r.asn::route.asPath,none,none,none⟩)) ∈ r.exports a ↔
      source = .customer ∨ target = .customer := by
  rw [mem_exports_iff]
  constructor
  · rintro ⟨source',target',msg,hs',ht',-,hc,-,-⟩
    rw [hs] at hs'
    rw [ht] at ht'
    cases hs'
    cases ht'
    exact hc
  · intro hc
    exact ⟨source,target,_,hs,ht,hn,hc,relayed?_of_installs r h,rfl⟩

/-- Let `(route, f)` be the best entry for `d` after any history of a router that was given its
neighbors first, and `n` another neighbor. Data for `d` from `n` goes to `f` exactly if the latest
update by which `f` installed the route was passed on to `n` when it was handled; else `n` is told
that there is no route. What goes to a link is sent unless the link has a fault for it. -/
theorem forwarded_iff_exported (asn : UInt32) (neighbors : List (Address × Relationship))
    (history : List Arrival) {d n f : Address} {route : Route}
    (hb : ((configured asn neighbors).handleAll history).db.bestPath? d = some (route,f))
    (hn : n ∈ neighbors.map (·.1)) (hne : n ≠ f) :
    let r := (configured asn neighbors).handleAll history
    (∃ before x later, LatestUpdate history f route before x later) ∧
    ∀ before x later, LatestUpdate history f route before x later →
      let u := ((configured asn neighbors).handleAll before).handle x.faults f x.envelope
      let news : Envelope := ⟨n.gateway,n,.update
        { network := route.network, asPath := asn::route.asPath, localPref := none,
          selfOriginated := none, origin := none }⟩
      let exported := (n,news) ∈ u.attempts
      ((n,news) ∈ u.sent ↔ exported ∧ x.faults n news = none) ∧
      ∀ faults src payload,
        let o := r.handle faults n ⟨src,d,.data payload⟩
        let onward : Envelope := ⟨f.gateway,d,.data payload⟩
        let refusal : Envelope := ⟨n.gateway,n,.noRoute (.object [])⟩
        (o.attempts = [(f,onward)] ↔ exported) ∧
        (o.attempts = [(n,refusal)] ↔ ¬ exported) ∧
        (o.sent = [(f,onward)] ↔ exported ∧ faults f onward = none) ∧
        (o.sent = [(n,refusal)] ↔ ¬ exported ∧ faults n refusal = none) := by
  intro r
  have hentry : r.db.nexthop? route = some f :=
    (Table.get?_eq_some_iff r.db.rib route f).mpr (Rib.mem_entries_of_bestPath? hb)
  have ha := (nexthop?_handleAll asn neighbors history route f).mp hentry
  obtain ⟨source,hs⟩ := relationship_of_contains ((contains_configured asn neighbors n).mpr hn)
  obtain ⟨target,ht⟩ := relationship_of_contains ((contains_configured asn neighbors f).mpr ha.mem)
  refine ⟨ha.exists_latest,fun before x later hx => ?_⟩
  intro u news exported
  refine ⟨mem_sent_handle,fun faults src payload => ?_⟩
  intro o onward refusal
  have hexported : exported ↔ source = .customer ∨ target = .customer := by
    have hcontrol :=
      isControl_of_relayed? (relayed?_of_installs (configured asn neighbors) hx.installs)
    have hattempts := attempts_handle_of_isControl ((configured asn neighbors).handleAll before)
      hcontrol
    rw [hx.sender,exports_handleAll] at hattempts
    change _ ∈ _ ↔ _
    rw [hattempts,or_comm]
    have hm := mem_exports_of_installs hx.installs (hx.sender ▸ ht) hs (hx.sender ▸ hne)
    rwa [asn_configured] at hm
  have ho : o.attempts = if source = .customer ∨ target = .customer then [(f,onward)]
      else [(n,refusal)] :=
    attempts_handleData_of_some ((relationship_handleAll _ history n).trans hs) faults d payload hb
      ((relationship_handleAll _ history f).trans ht)
  have hsent : o.sent = o.attempts.filter fun m => (faults m.1 m.2).isNone :=
    sent_handle r faults n _
  rw [hsent,ho,hexported]
  by_cases hc : source = .customer ∨ target = .customer
  · cases hf : faults f onward <;> simp [hc,hf,Ne.symm hne]
  · cases hf : faults n refusal <;> simp [hc,hf,hne]

private def above : Address := .ofOctets 10 0 0 2

private def beside : Address := .ofOctets 172 168 0 2

private def below : Address := .ofOctets 192 168 0 2

private def circle : List (Address × Relationship) :=
  [(below,.customer),(beside,.peer),(above,.provider)]

private def offered : Update := ⟨⟨.ofOctets 172 169 0 0,.ofLength 16⟩,[2],some 200,none,none⟩

private def offer (n : Address) : Arrival where
  sender := n
  envelope := ⟨n,n.gateway,.update offered⟩

private def goal : Address := .ofOctets 172 169 0 25

/-- The provider and then the peer announce the same route. The customer, who was told by the peer's
update, is carried along it; the provider was not told and is refused. -/
theorem forwarded_iff_exported_overwritten :
    let history := [offer above,offer beside]
    let r := (configured 7 circle).handleAll history
    let carried := r.handle (fun _ _ => none) below ⟨below,goal,.data .null⟩
    let refused := r.handle (fun _ _ => none) above ⟨above,goal,.data .null⟩
    r.db.bestPath? goal = some (offered.route,beside) ∧
      below ∈ circle.map (·.1) ∧ below ≠ beside ∧ above ∈ circle.map (·.1) ∧ above ≠ beside ∧
      LatestUpdate history beside offered.route [offer above] (offer beside) [] ∧
      carried.attempts = [(beside,⟨beside.gateway,goal,.data .null⟩)] ∧
      carried.sent = [(beside,⟨beside.gateway,goal,.data .null⟩)] ∧
      refused.attempts = [(above,⟨above.gateway,above,.noRoute (.object [])⟩)] ∧
      refused.sent = [(above,⟨above.gateway,above,.noRoute (.object [])⟩)] := by
  intro history r carried refused
  have hb : r.db.bestPath? goal = some (offered.route,beside) := by decide
  have hbelow : below ∈ circle.map (·.1) := by decide
  have habove : above ∈ circle.map (·.1) := by decide
  have hne : below ≠ beside := by decide
  have hne' : above ≠ beside := by decide
  have hl : LatestUpdate history beside offered.route [offer above] (offer beside) [] :=
    ⟨rfl,rfl,⟨offered,rfl,rfl⟩,by simp⟩
  have hout : (((configured 7 circle).handleAll [offer above]).handle (offer beside).faults beside
      (offer beside).envelope).attempts =
        [(below,⟨below.gateway,below,.update ⟨offered.network,[7,2],none,none,none⟩⟩)] := rfl
  obtain ⟨-,hdown⟩ := forwarded_iff_exported 7 circle history hb hbelow hne
  obtain ⟨-,hup⟩ := forwarded_iff_exported 7 circle history hb habove hne'
  obtain ⟨hdown,-,hdownSent,-⟩ := (hdown _ _ _ hl).2 (fun _ _ => none) below .null
  obtain ⟨-,hup,-,hupSent⟩ := (hup _ _ _ hl).2 (fun _ _ => none) above .null
  rw [hout] at hdown hdownSent hup hupSent
  have hnot (e f : Envelope) : (above,e) ∉ [(below,f)] := by
    have ha : above ≠ below := by decide
    rw [List.mem_singleton]
    exact fun he => ha (congrArg Prod.fst he)
  refine ⟨hb,hbelow,hne,habove,hne',hl,hdown.mpr ?_,hdownSent.mpr ⟨?_,rfl⟩,
    hup.mpr (hnot _ _),hupSent.mpr ⟨hnot _ _,rfl⟩⟩
  · exact List.mem_singleton.mpr rfl
  · exact List.mem_singleton.mpr rfl

end Router
end PathVector
