import PathVector.Proofs.Links
import PathVector.Proofs.Preference

/-! Traffic of users. Data goes to the next hop of the best route, or back goes the word that there is
no way, or nothing is sent at all; nothing else changes. Whatever was learned and whoever sends, data
is handed from one neighbor to another only if one of the two is a customer. -/
namespace PathVector
namespace Router

theorem Closed.exists_relationship {r : Router} (h : r.Closed) {route : Route} {n : Address}
    (he : (route,n) ∈ r.db.rib.entries) : ∃ target, r.relationship n = .ok target :=
  relationship_of_contains (h.nexthop route n ((Table.get?_eq_some_iff r.db.rib route n).mpr he))

section Data

variable {r : Router} {sender : Address} {source : Relationship}
  (h : r.relationship sender = .ok source) (faults : LinkFaults) (dst : Address) (payload : Json)

include h

theorem attempts_handleData_of_none (hb : r.db.bestPath? dst = none) :
    (r.handleData faults sender dst payload).attempts = [] := by
  simp only [handleData,h,hb]
  rfl

theorem attempts_handleData_of_some {route : Route} {n : Address} {target : Relationship}
    (hb : r.db.bestPath? dst = some (route,n)) (ht : r.relationship n = .ok target) :
    (r.handleData faults sender dst payload).attempts =
      if source = .customer ∨ target = .customer then [(n,⟨n.gateway,dst,.data payload⟩)]
      else [(sender,envelopeTo sender (.noRoute emptyObject))] := by
  simp only [handleData_eq h hb ht,← Relationship.forwards_iff]
  split
  all_goals
    rw [Outcome.attempts,List.filterMap_cons_none rfl]
    exact attempts_deliver r faults _ _

end Data

theorem attempts_handle_of_stranger {r : Router} {sender : Address} {error : Error}
    (h : r.relationship sender = .error error) (faults : LinkFaults) (e : Envelope) :
    (r.handle faults sender e).attempts = [] := by
  unfold handle
  cases e.msg with
  | update u => simp only [handleUpdate,h]; rfl
  | withdraw networks => simp only [handleWithdraw,h]; rfl
  | data payload => simp only [handleData,h]; rfl
  | dump => simp only [handleDump,send,h]; rfl
  | _ => rfl

/-- All that a router can try to send on a message: nothing, what a neighbor told it to the audience,
data to the next hop of the best route, or an answer to the sender. -/
inductive Response (r : Router) (sender : Address) (e : Envelope) :
    List (Address × Envelope) → Prop where
  | silence : Response r sender e []
  | propagation {source msg} : r.relationship sender = .ok source →
      msg.kind = .update ∨ msg.kind = .withdraw → e.msg.kind = msg.kind →
      Response r sender e ((r.audience sender source).map fun n => (n,envelopeTo n msg))
  | forward {source target route n payload} : r.relationship sender = .ok source →
      e.msg = .data payload → r.db.bestPath? e.dst = some (route,n) →
      r.relationship n = .ok target → source = .customer ∨ target = .customer →
      Response r sender e [(n,⟨n.gateway,e.dst,.data payload⟩)]
  | answer {msg} : msg.kind = .noRoute ∨ msg.kind = .table →
      Response r sender e [(sender,envelopeTo sender msg)]

theorem response_handle (r : Router) (faults : LinkFaults) (sender : Address) (e : Envelope) :
    Response r sender e (r.handle faults sender e).attempts := by
  unfold Outcome.attempts
  cases r.handling sender e with
  | failed events _ _ _ h =>
    rw [h,attempts_told]
    exact .silence
  | told _ _ h =>
    rw [h]
    exact .silence
  | forward _ hs hm hb ht hp h =>
    rw [h,List.filterMap_cons_none rfl,attempts_deliver]
    exact .forward hs hm hb ht (Relationship.forwards_iff _ _ |>.mp hp)
  | answer _ _ _ hk h =>
    rw [h,List.filterMap_cons_none rfl,attempts_deliver]
    exact .answer hk
  | spread events _ hs hk hm _ h =>
    rw [h,List.filterMap_append,attempts_told,attempts_propagation]
    exact .propagation hs hk hm

/-- Data is sent only in answer to the same data from a neighbor, and the policy allows it. -/
theorem forwards_of_mem_attempts {r : Router} {faults : LinkFaults} {sender n : Address}
    {e x : Envelope} {payload : Json} (h : (n,x) ∈ (r.handle faults sender e).attempts)
    (hx : x.msg = .data payload) :
    e.msg = .data payload ∧ x.dst = e.dst ∧ ∃ source target, r.relationship sender = .ok source ∧
      r.relationship n = .ok target ∧ (source = .customer ∨ target = .customer) := by
  have hr := response_handle r faults sender e
  generalize (r.handle faults sender e).attempts = ms at h hr
  cases hr with
  | silence => cases h
  | @propagation source msg _ hk _ =>
    obtain ⟨m,-,he⟩ := List.mem_map.mp h
    cases he
    obtain rfl : msg = .data payload := hx
    simp [Message.kind] at hk
  | forward hs hm hb ht hc =>
    cases List.mem_singleton.mp h
    cases hx
    exact ⟨hm,rfl,_,_,hs,ht,hc⟩
  | @answer msg hk =>
    cases List.mem_singleton.mp h
    obtain rfl : msg = .data payload := hx
    simp [Message.kind] at hk

theorem attempts_addNeighbor (r : Router) (n : Address) (s : Relationship) :
    (r.addNeighbor n s).attempts = [] := by
  unfold addNeighbor
  split <;> rfl

theorem Closed.attempts_data {r : Router} (hr : r.Closed) {sender : Address}
    {source : Relationship} (h : r.relationship sender = .ok source) (faults : LinkFaults)
    (dst : Address) (payload : Json) :
    let o := r.handleData faults sender dst payload
    (o.attempts = [] ∧ ∀ e ∈ r.db.rib.entries, ¬ e.1.network.Contains dst) ∨
    ∃ route n target, r.db.rib.IsBest dst (route,n) ∧ r.relationship n = .ok target ∧
      o.attempts = if source = .customer ∨ target = .customer then
          [(n,⟨n.gateway,dst,.data payload⟩)]
        else [(sender,envelopeTo sender (.noRoute emptyObject))] := by
  intro o
  cases hb : r.db.bestPath? dst with
  | none =>
    exact .inl ⟨attempts_handleData_of_none h faults dst payload hb,
      Rib.bestPath?_eq_none_iff.mp hb⟩
  | some p =>
    obtain ⟨route,n⟩ := p
    have hbest := Rib.isBest_of_bestPath? hb
    obtain ⟨target,ht⟩ := hr.exists_relationship hbest.1
    exact .inr ⟨route,n,target,hbest,ht,attempts_handleData_of_some h faults dst payload hb ht⟩

theorem forwards_of_mem_perform {r : Router} {op : Operation} {n : Address} {e : Envelope}
    {payload : Json} (h : (n,e) ∈ (r.perform op).attempts) (he : e.msg = .data payload) :
    ∃ a source target, op = .receive a ∧ a.envelope.msg = .data payload ∧
      e.dst = a.envelope.dst ∧ r.relationship a.sender = .ok source ∧
      r.relationship n = .ok target ∧ (source = .customer ∨ target = .customer) := by
  cases op with
  | add m s =>
    rw [perform,attempts_addNeighbor] at h
    cases h
  | receive a =>
    obtain ⟨hm,hd,source,target,hs,ht,hp⟩ := forwards_of_mem_attempts h he
    exact ⟨a,source,target,rfl,hm,hd,hs,ht,hp⟩

/-- Traffic in every run of a router that was started empty. Data from a neighbor changes nothing and
is answered by at most one message: none if no route matches, else the data itself to the next hop of
the best route or a refusal to the sender. The message is sent unless its link has a fault. Therefore
all data that is ever tried or sent came from a neighbor, and that neighbor or the receiver is a
customer. -/
theorem data_outcome (asn : UInt32) (ops : List Operation) :
    let r := Router.after { asn } ops
    (∀ faults sender source src dst payload, r.relationship sender = .ok source →
      let o := r.handle faults sender ⟨src,dst,.data payload⟩
      o.router = r ∧ o.error = none ∧ o.attempts.length ≤ 1 ∧
      o.sent = o.attempts.filter (fun m => (faults m.1 m.2).isNone) ∧
      (o.attempts = [] ↔ ∀ e ∈ r.db.rib.entries, ¬ e.1.network.Contains dst) ∧
      ((∃ e ∈ r.db.rib.entries, e.1.network.Contains dst) → ∃ route n target,
        r.db.rib.IsBest dst (route,n) ∧ r.relationship n = .ok target ∧
        o.attempts = if source = .customer ∨ target = .customer then
            [(n,⟨n.gateway,dst,.data payload⟩)]
          else [(sender,⟨sender.gateway,sender,.noRoute (.object [])⟩)])) ∧
    ∀ before op later, ops = before++op::later →
      let o := (Router.after { asn } before).perform op
      o.sent ⊆ o.attempts ∧ ∀ n e payload, (n,e) ∈ o.attempts → e.msg = .data payload →
      ∃ a source target, op = .receive a ∧ a.envelope.msg = .data payload ∧
        e.dst = a.envelope.dst ∧ r.relationship a.sender = .ok source ∧
        r.relationship n = .ok target ∧ (source = .customer ∨ target = .customer) := by
  intro r
  have hr : r.Closed := (closed_start asn).after ops
  refine ⟨fun faults sender source src dst payload hs => ?_,
    fun before op later ho => ⟨Outcome.sent_subset _,fun n e payload hn he => ?_⟩⟩
  · intro o
    have hsent : o.sent = o.attempts.filter fun m => (faults m.1 m.2).isNone :=
      sent_handle r faults sender _
    have hc : r.neighbors.contains sender = true :=
      Table.contains_iff.mpr ⟨source,relationship_eq_ok_iff.mp hs⟩
    have herror : o.error = none := by
      rw [hr.error_handle,if_neg]
      exact fun hn => hn.1 hc
    have hrouter : o.router = r := (router_handle r faults sender _).trans (ite_self r)
    rcases hr.attempts_data hs faults dst payload with ⟨ha,hn⟩ | ⟨route,n,target,hb,ht,ha⟩
    · have ha : o.attempts = [] := ha
      refine ⟨hrouter,herror,by simp [ha],hsent,by simpa [ha] using hn,?_⟩
      rintro ⟨e,he,hd⟩
      exact absurd hd (hn e he)
    · have hlen : o.attempts.length = 1 := by
        rw [show o.attempts = _ from ha]
        split <;> rfl
      refine ⟨hrouter,herror,hlen.le,hsent,
        ⟨fun hnil => ?_,fun hn => absurd hb.2.1 (hn _ hb.1)⟩,fun _ => ⟨route,n,target,hb,ht,ha⟩⟩
      rw [hnil] at hlen
      cases hlen
  · obtain ⟨a,source,target,ha,hm,hd,hs,ht,hp⟩ := forwards_of_mem_perform hn he
    have hr : r = (Router.after { asn } before).after (op::later) := by
      rw [← after_append,← ho]
    refine ⟨a,source,target,ha,hm,hd,?_,?_,hp⟩
    · rw [hr]
      exact relationship_after hs _
    · rw [hr]
      exact relationship_after ht _

private def uplink : Address := .ofOctets 10 0 0 2

private def sidelink : Address := .ofOctets 172 168 0 2

private def downlink : Address := .ofOctets 192 168 0 2

private def sideRoute : Update := ⟨⟨.ofOctets 172 168 0 0,.ofLength 24⟩,[2],none,none,none⟩

private def host : Address := .ofOctets 172 168 0 25

/-- The peer announces a network. -/
private def learned : List Operation :=
  [.add downlink .customer,.add sidelink .peer,.add uplink .provider,
    .receive { sender := sidelink, envelope := ⟨sidelink,sidelink.gateway,.update sideRoute⟩ }]

/-- The customer sends data to it. -/
private def carried : Arrival where
  sender := downlink
  envelope := ⟨downlink,host,.data .null⟩

/-- A peer's network is reached by the customer and refused to the provider. -/
theorem data_outcome_peer :
    let r := after { asn := 7 } (learned++[.receive carried])
    let o := r.handle (fun _ _ => none) uplink ⟨uplink,host,.data .null⟩
    let p := (after { asn := 7 } learned).perform (.receive carried)
    let toPeer : Envelope := ⟨sidelink.gateway,host,.data .null⟩
    (r.relationship uplink = .ok .provider ∧
      (∃ e ∈ r.db.rib.entries, e.1.network.Contains host) ∧
      o.attempts = [(uplink,⟨uplink.gateway,uplink,.noRoute (.object [])⟩)] ∧
      o.sent = [(uplink,⟨uplink.gateway,uplink,.noRoute (.object [])⟩)]) ∧
    (sidelink,toPeer) ∈ p.sent ∧ r.relationship downlink = .ok .customer := by
  intro r o p toPeer
  have hs : r.relationship uplink = .ok .provider := rfl
  have he : ∃ e ∈ r.db.rib.entries, e.1.network.Contains host := by decide
  have hb : r.db.bestPath? host = some (sideRoute.route,sidelink) := by decide
  have hp : (sidelink,toPeer) ∈ p.sent := List.mem_singleton.mpr rfl
  obtain ⟨hd,ht⟩ := data_outcome 7 (learned++[.receive carried])
  obtain ⟨-,-,-,hsent,-,ha⟩ := hd (fun _ _ => none) _ _ uplink host .null hs
  obtain ⟨route,n,target,hbest,htarget,ha⟩ := ha he
  obtain ⟨rfl,rfl⟩ := Prod.mk.inj (hbest.unique (Rib.isBest_of_bestPath? hb))
  cases htarget
  obtain ⟨hsub,ht⟩ := ht learned (.receive carried) [] rfl
  obtain ⟨a,source,target,ho,-,-,hsource,htarget,hc⟩ := ht sidelink toPeer .null (hsub hp) rfl
  cases ho
  cases htarget
  refine ⟨⟨hs,he,ha,?_⟩,hp,by simpa using hc.resolve_right (by decide) ▸ hsource⟩
  rw [hsent,ha]
  rfl

end Router
end PathVector
