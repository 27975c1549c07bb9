import PathVector.Proofs.Run

/-! What a router passes on of what it learns. Each announcement and each withdrawal of a neighbor
goes once to every other neighbor that the policy allows, in the order of their addresses, and to
nobody else; of an announcement only the network and the path are passed on. -/
namespace PathVector

/-- The messages that were given to links, taken or not, in their order. -/
def Outcome.attempts (o : Outcome) : List (Address × Envelope) := o.actions.filterMap Action.attempt?

namespace Router

/-- The neighbors that are told what was learned from `sender`. -/
def audience (r : Router) (sender : Address) (source : Relationship) : List Address :=
  (r.neighbors.entries.filter fun e => e.1 ≠ sender && source.exports e.2).map (·.1)

theorem mem_audience_iff {r : Router} {sender n : Address} {source : Relationship} :
    n ∈ r.audience sender source ↔ n ≠ sender ∧
      ∃ target, r.relationship n = .ok target ∧ (source = .customer ∨ target = .customer) := by
  simp only [audience,List.mem_map,List.mem_filter,Bool.and_eq_true,decide_eq_true_eq,
    Relationship.exports_iff,relationship_eq_ok_iff,Table.get?_eq_some_iff]
  constructor
  · rintro ⟨⟨m,target⟩,⟨hm,hn,ht⟩,rfl⟩
    exact ⟨hn,target,hm,ht⟩
  · rintro ⟨hn,target,hm,ht⟩
    exact ⟨(n,target),⟨hm,hn,ht⟩,rfl⟩

theorem audience_ascending (r : Router) (sender : Address) (source : Relationship) :
    (r.audience sender source).Pairwise fun a b => a.bits < b.bits := by
  rw [audience,List.pairwise_map]
  exact (r.neighbors.ascending.filter _).imp Address.compare_eq_lt.mp

theorem attempts_deliver (r : Router) (faults : LinkFaults) (n : Address) (e : Envelope) :
    (r.deliver faults n e).filterMap Action.attempt? = [(n,e)] := by
  unfold deliver
  cases faults n e <;> rfl

theorem attempts_handshake (r : Router) (faults : LinkFaults) :
    (r.handshake faults).attempts =
      r.neighbors.keys.map fun n => (n,envelopeTo n (.handshake emptyObject)) := by
  rw [handshake_eq,Outcome.attempts,greetings,List.filterMap_flatMap]
  simp only [attempts_deliver]
  exact List.map_eq_flatMap.symm

/-- Propagation tries every link of the audience, whatever became of the ones before. -/
theorem attempts_propagation (r : Router) (faults : LinkFaults) (sender : Address)
    (source : Relationship) (msg : Message) :
    (r.propagation faults sender source msg).filterMap Action.attempt? =
      (r.audience sender source).map fun n => (n,envelopeTo n msg) := by
  unfold propagation audience
  induction r.neighbors.entries with
  | nil => rfl
  | cons e es ih =>
    obtain ⟨n,target⟩ := e
    rw [List.flatMap_cons,List.filterMap_append,ih]
    by_cases hn : n = sender
    · simp [hn]
    · by_cases ht : source.exports target = true
      · simp [hn,ht,attempts_deliver]
      · simp [hn,ht,tell,Action.attempt?]

theorem attempts_handleUpdate {r : Router} {sender : Address} {source : Relationship}
    (h : r.relationship sender = .ok source) (faults : LinkFaults) (u : Update) :
    (r.handleUpdate faults sender u).attempts = (r.audience sender source).map fun n =>
      (n,envelopeTo n (.update (.ofAnnouncement (u.announcement.extend r.asn)))) := by
  rw [handleUpdate_eq h]
  exact attempts_propagation r faults sender source _

theorem attempts_handleWithdraw {r : Router} {sender : Address} {source : Relationship}
    (h : r.relationship sender = .ok source) (faults : LinkFaults) (networks : List Network) :
    (r.handleWithdraw faults sender networks).attempts = (r.audience sender source).map fun n =>
      (n,envelopeTo n (.withdraw networks)) := by
  simp only [handleWithdraw_eq h,Outcome.attempts,List.filterMap_append,attempts_told,
    List.nil_append]
  exact attempts_propagation r faults sender source _

/-- What is tried to be sent when a neighbor announces or withdraws, in any state of the router and
whatever the links do. The receivers are given by their order and their members. -/
theorem attempts_of_control {r : Router} {sender : Address} {source : Relationship}
    (h : r.relationship sender = .ok source) :
    let receivers := r.audience sender source
    receivers.Pairwise (fun a b => a.bits < b.bits) ∧
    (∀ n, n ∈ receivers ↔ n ≠ sender ∧
      ∃ target, r.relationship n = .ok target ∧ (source = .customer ∨ target = .customer)) ∧
    (∀ faults src dst u,
      let o := r.handle faults sender ⟨src,dst,.update u⟩
      o.error = none ∧ o.attempts = receivers.map fun n => (n,⟨n.gateway,n,.update
        { network := u.network, asPath := r.asn::u.asPath, localPref := none,
          selfOriginated := none, origin := none }⟩)) ∧
    ∀ faults src dst networks,
      let o := r.handle faults sender ⟨src,dst,.withdraw networks⟩
      o.error = none ∧
        o.attempts = receivers.map fun n => (n,⟨n.gateway,n,.withdraw networks⟩) := by
  intro receivers
  refine ⟨audience_ascending r sender source,fun n => mem_audience_iff,
    fun faults src dst u => ⟨?_,attempts_handleUpdate h faults u⟩,
    fun faults src dst networks => ⟨?_,attempts_handleWithdraw h faults networks⟩⟩
  · simp only [handle,handleUpdate_eq h]
  · simp only [handle,handleWithdraw_eq h]

private def north : Address := .ofOctets 10 0 0 2

private def east : Address := .ofOctets 172 168 0 2

private def south : Address := .ofOctets 192 168 0 2

private def west : Address := .ofOctets 192 168 1 2

private def compass : Router where
  asn := 7
  neighbors := .ofList [(west,.customer),(south,.customer),(east,.peer),(north,.provider)]

/-- A peer's announcement with all attributes goes to both customers without them, though the link
to the first is broken. -/
theorem attempts_of_control_peer :
    let network : Network := ⟨.ofOctets 172 168 0 0,.ofLength 16⟩
    compass.relationship east = .ok .peer ∧
      (compass.handle (fun n _ => if n = south then some .disconnected else none) east
        ⟨east,east.gateway,.update ⟨network,[2,3],some 500,some true,some .interior⟩⟩).attempts =
        [(south,⟨south.gateway,south,.update ⟨network,[7,2,3],none,none,none⟩⟩),
          (west,⟨west.gateway,west,.update ⟨network,[7,2,3],none,none,none⟩⟩)] := by
  intro network
  have h : compass.relationship east = .ok .peer := rfl
  have ha : compass.audience east .peer = [south,west] := by decide
  obtain ⟨-,-,hu,-⟩ := attempts_of_control h
  refine ⟨h,(hu _ _ _ _).2.trans ?_⟩
  rw [ha]
  rfl

end Router
end PathVector
