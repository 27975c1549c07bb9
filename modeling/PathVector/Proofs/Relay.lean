import PathVector.Proofs.Dispatch
import PathVector.Proofs.Transit

/-! What a router passes on while it learns. It depends on what is learned, on who the neighbors are
and on the number of the router, and never on the table; so it is the same in every state that the
router comes to. -/
namespace PathVector
namespace Router

/-- What becomes of a message about routes when the router passes it on. -/
def relayed? (r : Router) : Message → Option Message
  | .update u => some (.update (.ofAnnouncement (u.announcement.extend r.asn)))
  | .withdraw networks => some (.withdraw networks)
  | _ => none

/-- The messages that go out when `a` tells about routes. -/
def exports (r : Router) (a : Arrival) : List (Address × Envelope) :=
  match r.relationship a.sender,r.relayed? a.envelope.msg with
  | .ok source,some msg => (r.audience a.sender source).map fun n => (n,envelopeTo n msg)
  | _,_ => []

theorem exports_eq {r : Router} {a : Arrival} {source : Relationship} {msg : Message}
    (hs : r.relationship a.sender = .ok source) (hm : r.relayed? a.envelope.msg = some msg) :
    r.exports a = (r.audience a.sender source).map fun n => (n,envelopeTo n msg) := by
  simp only [exports,hs,hm]

theorem exports_of_stranger {r : Router} {a : Arrival} {error : Error}
    (h : r.relationship a.sender = .error error) : r.exports a = [] := by
  simp only [exports,h]

theorem isSome_relayed? (r : Router) (a : Arrival) :
    (r.relayed? a.envelope.msg).isSome = a.isControl := by
  unfold Arrival.isControl relayed?
  cases a.envelope.msg <;> rfl

theorem isControl_of_relayed? {r : Router} {a : Arrival} {msg : Message}
    (h : r.relayed? a.envelope.msg = some msg) : a.isControl = true := by
  rw [← isSome_relayed? r,h]
  rfl

theorem mem_exports_iff {r : Router} {a : Arrival} {n : Address} {e : Envelope} :
    (n,e) ∈ r.exports a ↔ ∃ source target msg, r.relationship a.sender = .ok source ∧
      r.relationship n = .ok target ∧ n ≠ a.sender ∧
      (source = .customer ∨ target = .customer) ∧ r.relayed? a.envelope.msg = some msg ∧
      e = envelopeTo n msg := by
  constructor
  · intro h
    cases hs : r.relationship a.sender with
    | error error =>
      rw [exports_of_stranger hs] at h
      cases h
    | ok source =>
      cases hm : r.relayed? a.envelope.msg with
      | none => simp [exports,hs,hm] at h
      | some msg =>
        rw [exports_eq hs hm,List.mem_map] at h
        obtain ⟨m,ha,he⟩ := h
        cases he
        obtain ⟨hn,target,ht,hc⟩ := mem_audience_iff.mp ha
        exact ⟨source,target,msg,rfl,ht,hn,hc,rfl,rfl⟩
  · rintro ⟨source,target,msg,hs,ht,hn,hc,hm,rfl⟩
    rw [exports_eq hs hm]
    exact List.mem_map.mpr ⟨n,mem_audience_iff.mpr ⟨hn,target,ht,hc⟩,rfl⟩

theorem length_exports_le (r : Router) (a : Arrival) : (r.exports a).length ≤ r.neighbors.size := by
  unfold exports
  split
  · rw [List.length_map,audience,List.length_map]
    exact List.length_filter_le _ _
  · exact Nat.zero_le _

/-- A message about routes is answered by what goes out to others, and by nothing else. -/
theorem attempts_handle_of_isControl (r : Router) {a : Arrival} (h : a.isControl = true) :
    (r.handle a.faults a.sender a.envelope).attempts = r.exports a := by
  cases hs : r.relationship a.sender with
  | error error => rw [attempts_handle_of_stranger hs,exports_of_stranger hs]
  | ok source =>
    unfold Arrival.isControl at h
    unfold handle
    cases hm : a.envelope.msg with
    | update u =>
      simp only [exports,hs,hm,relayed?]
      exact attempts_handleUpdate hs a.faults u
    | withdraw networks =>
      simp only [exports,hs,hm,relayed?]
      exact attempts_handleWithdraw hs a.faults networks
    | _ => simp [hm] at h

theorem asn_handleAll (r : Router) (history : List Arrival) :
    (r.handleAll history).asn = r.asn := by
  induction history using List.reverseRecOn with
  | nil => rfl
  | append_singleton history a ih =>
    rw [handleAll_append,router_handle]
    split
    · exact ih
    · exact ih

theorem exports_congr {r s : Router} (ha : r.asn = s.asn) (hn : r.neighbors = s.neighbors)
    (a : Arrival) : r.exports a = s.exports a := by
  simp only [exports,relationship,audience,relayed?,ha,hn]

theorem exports_handleAll (r : Router) (history : List Arrival) (a : Arrival) :
    (r.handleAll history).exports a = r.exports a :=
  exports_congr (asn_handleAll r history) (neighbors_handleAll r history) a

theorem attempts_deeds (r : Router) {history : List Arrival}
    (h : ∀ a ∈ history, a.isControl = true) :
    (r.deeds history).filterMap Action.attempt? = history.flatMap r.exports := by
  induction history generalizing r with
  | nil => rfl
  | cons a as ih =>
    have ha := attempts_handle_of_isControl r (h a List.mem_cons_self)
    have hr : (r.handle a.faults a.sender a.envelope).router.exports = r.exports :=
      funext fun b => exports_handleAll r [a] b
    rw [deeds,List.filterMap_append,ih _ fun b hb => h b (List.mem_cons_of_mem _ hb),hr,
      List.flatMap_cons,← ha]
    rfl

theorem sent_deeds (r : Router) {faults : LinkFaults} {history : List Arrival}
    (h : ∀ a ∈ history, a.faults = faults) :
    (r.deeds history).filterMap Action.sent? =
      ((r.deeds history).filterMap Action.attempt?).filter fun m => (faults m.1 m.2).isNone := by
  induction history generalizing r with
  | nil => rfl
  | cons a as ih =>
    obtain ⟨ha,has⟩ := List.forall_mem_cons.mp h
    have hs := sent_handle r a.faults a.sender a.envelope
    rw [ha] at hs
    rw [deeds,List.filterMap_append,List.filterMap_append,List.filter_append,ih _ has,ha]
    exact congrArg (·++_) hs

/-- The messages for `n` in a list of messages and their receivers. -/
def addressed (n : Address) (ms : List (Address × Envelope)) : List Envelope :=
  ms.filterMap fun m => if m.1 = n then some m.2 else none

/-- What is given to the link of `n` during a history, taken or not. -/
def triedTo (r : Router) (history : List Arrival) (n : Address) : List Envelope :=
  addressed n ((r.deeds history).filterMap Action.attempt?)

/-- What the link of `n` takes during a history. -/
def sentTo (r : Router) (history : List Arrival) (n : Address) : List Envelope :=
  addressed n ((r.deeds history).filterMap Action.sent?)

end Router
end PathVector
