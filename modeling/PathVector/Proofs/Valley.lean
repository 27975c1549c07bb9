import PathVector.Proofs.Internet

/-! The way that messages about routes take. A router passes on what a customer tells to everybody
and what others tell to customers only; so a message goes up from customers to providers, crosses
from a peer to a peer at most once, and then goes down from providers to customers. The path of an
update says which way it took. -/
namespace PathVector

variable {ι : Type}

/-- The router calls the neighbor at the port so. -/
def Port.Is (x : Port ι) (routers : ι → Router) (s : Relationship) : Prop :=
  x.relationship routers = .ok s

theorem Port.Is.unique {x : Port ι} {routers : ι → Router} {s t : Relationship}
    (hs : x.Is routers s) (ht : x.Is routers t) : s = t :=
  Except.ok.inj (hs.symm.trans ht)

/-- The ports lead from one router to the next, starting where the message entered. The last one
comes first. -/
inductive Wiring.Path (w : Wiring ι) (entry : Port ι) : List (Port ι) → Prop where
  | nil : Path w entry []
  | cons {x inlet : Port ι} {xs : List (Port ι)} (arrives : w.inlet? entry xs = some inlet)
      (leaves : x.router = inlet.router) : Path w entry xs → Path w entry (x::xs)

/-- Last first: downwards to customers, before that across to a peer at most once, before that
upwards to providers. -/
def ValleyFree (routers : ι → Router) (exits : List (Port ι)) : Prop :=
  ∃ down across up, exits = down++across++up ∧ (∀ x ∈ up, x.Is routers .provider) ∧
    across.length ≤ 1 ∧ (∀ x ∈ across, x.Is routers .peer) ∧ ∀ x ∈ down, x.Is routers .customer

namespace ValleyFree

variable {routers : ι → Router} {exits : List (Port ι)}

theorem nil : ValleyFree routers [] := ⟨[],[],[],by simp⟩

theorem all_of_provider {x : Port ι} (h : ValleyFree routers (x::exits))
    (hx : x.Is routers .provider) : ∀ y ∈ x::exits, y.Is routers .provider := by
  obtain ⟨down,across,up,he,hup,-,hacross,hdown⟩ := h
  cases down with
  | cons y ys =>
    obtain ⟨rfl,-⟩ := List.cons.inj he
    exact absurd (hx.unique (hdown x List.mem_cons_self)) (by decide)
  | nil =>
    cases across with
    | cons y ys =>
      obtain ⟨rfl,-⟩ := List.cons.inj he
      exact absurd (hx.unique (hacross x List.mem_cons_self)) (by decide)
    | nil => exact he ▸ hup

/-- One may go down at any time, and anywhere from the top. -/
theorem cons {x : Port ι} {s : Relationship} (h : ValleyFree routers exits) (hx : x.Is routers s)
    (hs : s = .customer ∨ ∀ y ∈ exits, y.Is routers .provider) : ValleyFree routers (x::exits) := by
  obtain ⟨down,across,up,he,hup,hlength,hacross,hdown⟩ := h
  cases s with
  | customer =>
    refine ⟨x::down,across,up,by simp [he],hup,hlength,hacross,?_⟩
    exact List.forall_mem_cons.mpr ⟨hx,hdown⟩
  | peer =>
    have hall := hs.resolve_left (by decide)
    exact ⟨[],[x],exits,rfl,hall,le_rfl,by simpa using hx,by simp⟩
  | provider =>
    have hall := hs.resolve_left (by decide)
    exact ⟨[],[],x::exits,rfl,List.forall_mem_cons.mpr ⟨hx,hall⟩,by simp⟩

end ValleyFree

/-- What is under way came in from a neighbor outside whom the router knows, took a valley-free way,
and is what came in; only the path of an update has grown by the routers on the way. -/
structure Packet.Regular (w : Wiring ι) (routers : ι → Router) (p : Packet ι) : Prop where
  outside : w.far? p.entry = none
  known : (routers p.entry.router).neighbors.contains p.entry.neighbor = true
  path : w.Path p.entry p.exits
  valley : ValleyFree routers p.exits
  content : (∃ u v, p.injected = .update u ∧ p.envelope.msg = .update v ∧ v.network = u.network ∧
      v.asPath = p.exits.map (fun x => (routers x.router).asn)++u.asPath) ∨
    ∃ networks, p.injected = .withdraw networks ∧ p.envelope.msg = .withdraw networks

namespace Packet.Regular

variable {w : Wiring ι} {routers : ι → Router} {p : Packet ι}

/-- Where a message comes in the router knows the neighbor, and it knows it as a customer only if
the message has only gone up so far. -/
theorem exists_source (h : p.Regular w routers) (hw : w.Consistent routers) {x : Port ι}
    (hx : w.inlet? p.entry p.exits = some x) :
    ∃ s, x.Is routers s ∧ (s = .customer → ∀ y ∈ p.exits, y.Is routers .provider) := by
  cases he : p.exits with
  | nil =>
    rw [he,Wiring.inlet?,Option.some.injEq] at hx
    subst hx
    obtain ⟨s,hs⟩ := Router.relationship_of_contains h.known
    exact ⟨s,hs,by simp⟩
  | cons y ys =>
    rw [he,Wiring.inlet?] at hx
    obtain ⟨s,hy,hx⟩ := hw y x hx
    refine ⟨s.mirror,hx,fun hs => (he ▸ h.valley).all_of_provider ?_⟩
    cases s with
    | provider => exact hy
    | customer => cases hs
    | peer => cases hs

/-- What a router passes on is regular again. -/
theorem passOn (h : p.Regular w routers) (hw : w.Consistent routers) {x : Port ι}
    (hx : w.inlet? p.entry p.exits = some x) {faults : LinkFaults} {m : Address × Envelope}
    (hm : m ∈ (routers x.router).exports ⟨x.neighbor,p.envelope,faults⟩) :
    (Internet.passOn p x m).Regular w routers := by
  obtain ⟨n,e⟩ := m
  obtain ⟨source,target,msg,hs,ht,-,hc,hmsg,rfl⟩ := Router.mem_exports_iff.mp hm
  obtain ⟨s,hxs,hup⟩ := h.exists_source hw hx
  obtain rfl : source = s := Except.ok.inj (hs.symm.trans hxs)
  refine ⟨h.outside,h.known,.cons hx rfl h.path,?_,?_⟩
  · refine h.valley.cons (x := ⟨x.router,n⟩) ht ?_
    exact hc.symm.imp id hup
  · rcases h.content with ⟨u,v,hu,hv,hn,hp⟩ | ⟨networks,hi,hn⟩
    · simp only [hv,Router.relayed?,Option.some.injEq] at hmsg
      subst hmsg
      exact .inl ⟨u,_,hu,rfl,hn,congrArg ((routers x.router).asn::·) hp⟩
    · simp only [hn,Router.relayed?,Option.some.injEq] at hmsg
      subst hmsg
      exact .inr ⟨networks,hi,rfl⟩

theorem isControl (h : p.Regular w routers) (n : Address) (faults : LinkFaults) :
    Arrival.isControl ⟨n,p.envelope,faults⟩ = true := by
  rcases h.content with ⟨u,v,-,hv,-⟩ | ⟨networks,-,hn⟩
  · simp [Arrival.isControl,hv]
  · simp [Arrival.isControl,hn]

end Packet.Regular

namespace Internet

variable [DecidableEq ι] {w : Wiring ι} {start : ι → Router}

theorem sublist_exports {net : Internet ι} {acts : List (Act ι)}
    (h : Steps w ⟨start,[]⟩ acts net) {p : Packet ι} (hp : p.Regular w start) (x : Port ι)
    (faults : LinkFaults) :
    ((net.routers x.router).handle faults x.neighbor p.envelope).sent.Sublist
      ((start x.router).exports ⟨x.neighbor,p.envelope,faults⟩) := by
  have ha := (net.routers x.router).attempts_handle_of_isControl (hp.isControl x.neighbor faults)
  obtain ⟨hasn,hneighbors⟩ := h.kept x.router
  rw [Router.sent_handle,ha,Router.exports_congr hasn hneighbors]
  exact List.filter_sublist

theorem Steps.regular (hw : w.Consistent start) {net : Internet ι} {acts : List (Act ι)}
    (h : Steps w ⟨start,[]⟩ acts net) : ∀ p ∈ net.underway, p.Regular w start := by
  induction h with
  | refl => simp
  | tail hbefore hstep ih =>
    cases hstep with
    | inject x e outside known control =>
      refine List.forall_mem_cons.mpr ⟨⟨outside,?_,.nil,.nil,?_⟩,ih⟩
      · rw [(hbefore.kept x.router).2] at known
        exact known
      · obtain ⟨src,dst,msg⟩ := e
        cases msg with
        | update u => exact .inl ⟨u,u,rfl,rfl,rfl,rfl⟩
        | withdraw networks => exact .inr ⟨networks,rfl,rfl⟩
        | _ => rcases control with hc | hc <;> cases hc
    | deliver before after p x faults pending arrived =>
      -- The others stay as they are; what comes of `p` has gone one port further.
      rw [pending] at ih
      obtain ⟨hb,hpa⟩ := List.forall_mem_append.mp ih
      obtain ⟨hp,ha⟩ := List.forall_mem_cons.mp hpa
      refine List.forall_mem_append.mpr ⟨List.forall_mem_append.mpr ⟨hb,ha⟩,?_⟩
      refine List.forall_mem_map.mpr fun m hm => ?_
      exact hp.passOn hw arrived ((sublist_exports hbefore hp x faults).subset hm)

end Internet
end PathVector
