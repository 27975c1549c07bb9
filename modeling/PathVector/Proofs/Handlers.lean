import PathVector.Router
import PathVector.Proofs.Withdrawal

/-! What handling one message does to a router, whatever the links do: the database learns what a
configured neighbor announces or withdraws, nothing else changes. Handling fails only on an address
that is no neighbor, and then before anything was changed or sent. -/
namespace PathVector

/-- What the database makes of a message that a neighbor sent. -/
def Database.learn (db : Database) (sender : Address) : Message → Database
  | .update u => db.insert u.route sender
  | .withdraw networks => db.withdraw sender networks
  | _ => db

/-- The kinds that are handled for neighbors only. The others are ignored, whoever sends them. -/
def MessageKind.needsNeighbor (k : MessageKind) : Bool :=
  match k with
  | .update | .withdraw | .data | .dump => true
  | .noRoute | .table | .handshake => false

theorem Rib.mem_entries_of_bestPath? {rib : Rib} {d : Address} {e : Route × Address}
    (h : rib.bestPath? d = some e) : e ∈ rib.entries := by
  simp only [bestPath?] at h
  split at h
  · exact (mem_candidates.mp (List.mem_of_head? h)).1
  · have hm := List.mem_of_head? h
    simp only [mem_minimal,mem_maximal] at hm
    exact (mem_candidates.mp hm.1.1.1.1.1.1).1

namespace Router

theorem relationship_eq_ok_iff {r : Router} {n : Address} {s : Relationship} :
    r.relationship n = .ok s ↔ r.neighbors.get? n = some s := by
  unfold relationship
  cases r.neighbors.get? n <;> simp

theorem relationship_of_contains {r : Router} {n : Address} (h : r.neighbors.contains n = true) :
    ∃ s, r.relationship n = .ok s := by
  obtain ⟨s,hs⟩ := Table.contains_iff.mp h
  exact ⟨s,relationship_eq_ok_iff.mpr hs⟩

theorem relationship_of_not_contains {r : Router} {n : Address}
    (h : ¬ r.neighbors.contains n = true) : r.relationship n = .error (.unknownNeighbor n) := by
  have hn : r.neighbors.get? n = none := by simpa [Table.contains] using h
  simp [relationship,hn]

theorem not_contains_of_error {r : Router} {n : Address} {error : Error}
    (h : r.relationship n = .error error) : ¬ r.neighbors.contains n = true := by
  intro hc
  obtain ⟨s,hs⟩ := relationship_of_contains hc
  cases h.symm.trans hs

theorem send_of_relationship {r : Router} {n : Address} {s : Relationship}
    (h : r.relationship n = .ok s) (faults : LinkFaults) (e : Envelope) :
    r.send faults n e = { router := r, actions := r.deliver faults n e } := by
  simp only [send,h]

theorem send_of_contains {r : Router} {n : Address} (h : r.neighbors.contains n = true)
    (faults : LinkFaults) (e : Envelope) :
    r.send faults n e = { router := r, actions := r.deliver faults n e } := by
  obtain ⟨s,hs⟩ := relationship_of_contains h
  exact send_of_relationship hs faults e

theorem send_of_not_contains {r : Router} {n : Address} (h : ¬ r.neighbors.contains n = true)
    (faults : LinkFaults) (e : Envelope) :
    r.send faults n e = { router := r, error := some (.unknownNeighbor n) } := by
  simp only [send,relationship_of_not_contains h]

theorem send_of_mem {r : Router} {e : Address × Relationship} (h : e ∈ r.neighbors.entries)
    (faults : LinkFaults) (x : Envelope) :
    r.send faults e.1 x = { router := r, actions := r.deliver faults e.1 x } :=
  send_of_contains (Table.contains_iff.mpr ⟨e.2,(Table.get?_eq_some_iff _ _ _).mpr h⟩) faults x

/-- A loop that neither fails nor changes the router goes over all neighbors. -/
theorem eachNeighbor_eq {r : Router} {f : Address → Relationship → Router → Outcome}
    (g : Address → Relationship → List Action)
    (h : ∀ e ∈ r.neighbors.entries, f e.1 e.2 r = { router := r, actions := g e.1 e.2 }) :
    r.eachNeighbor f =
      { router := r, actions := r.neighbors.entries.flatMap fun e => g e.1 e.2 } := by
  have hloop (es : List (Address × Relationship)) (before : List Action)
      (h : ∀ e ∈ es, f e.1 e.2 r = { router := r, actions := g e.1 e.2 }) :
      es.foldl (fun o e => Outcome.andThen o (f e.1 e.2)) { router := r, actions := before } =
        { router := r, actions := before++es.flatMap fun e => g e.1 e.2 } := by
    induction es generalizing before with
    | nil => simp
    | cons e es ih =>
      obtain ⟨he,hes⟩ := List.forall_mem_cons.mp h
      have hstep : Outcome.andThen { router := r, actions := before } (f e.1 e.2) =
          { router := r, actions := before++g e.1 e.2 } := by
        simp only [Outcome.andThen,he]
      rw [List.foldl_cons,hstep,ih _ hes,List.flatMap_cons,List.append_assoc]
  exact hloop _ [] h

/-- What is done to greet all neighbors. -/
def greetings (r : Router) (faults : LinkFaults) : List Action :=
  r.neighbors.keys.flatMap fun n => r.deliver faults n (envelopeTo n (.handshake emptyObject))

/-- What is done to pass on what was learned from `sender`. -/
def propagation (r : Router) (faults : LinkFaults) (sender : Address) (source : Relationship)
    (msg : Message) : List Action :=
  r.neighbors.entries.flatMap fun (n,target) =>
    if n = sender then []
    else if source.exports target then r.deliver faults n (envelopeTo n msg)
    else [r.tell (.notExported msg.kind sender n target)]

theorem handshake_eq (r : Router) (faults : LinkFaults) :
    r.handshake faults = { router := r, actions := r.greetings faults } := by
  unfold handshake
  rw [eachNeighbor_eq (fun n _ => r.deliver faults n (envelopeTo n (.handshake emptyObject)))
    fun e he => send_of_mem he faults _]
  simp only [greetings,Table.keys,List.flatMap_map]

/-- No refusal to send ends propagation, for all that the loop goes over are neighbors. -/
theorem propagate_eq (r : Router) (faults : LinkFaults) (sender : Address)
    (source : Relationship) (msg : Message) :
    r.propagate faults sender source msg =
      { router := r, actions := r.propagation faults sender source msg } := by
  apply eachNeighbor_eq fun n target =>
    if n = sender then []
    else if source.exports target then r.deliver faults n (envelopeTo n msg)
    else [r.tell (.notExported msg.kind sender n target)]
  intro e he
  split
  · rfl
  · split
    · exact send_of_mem he faults _
    · rfl

theorem handleUpdate_eq {r : Router} {sender : Address} {source : Relationship}
    (h : r.relationship sender = .ok source) (faults : LinkFaults) (u : Update) :
    r.handleUpdate faults sender u =
      { router := { r with db := r.db.insert u.route sender }
        actions := r.tell (.updated u.route sender)::
          .told ((r.db.insert u.route sender).inserted u.route sender)::
          r.propagation faults sender source
            (.update (.ofAnnouncement (u.announcement.extend r.asn))) } := by
  simp only [handleUpdate,h,propagate_eq]
  rfl

theorem handleWithdraw_eq {r : Router} {sender : Address} {source : Relationship}
    (h : r.relationship sender = .ok source) (faults : LinkFaults) (networks : List Network) :
    r.handleWithdraw faults sender networks =
      { router := { r with db := r.db.withdraw sender networks }
        actions := (r.db.withdrawal sender networks).events.map .told++
          r.tell (.withdrawn (r.db.withdrawal sender networks).removed.length sender)::
          r.propagation faults sender source (.withdraw networks) } := by
  simp only [handleWithdraw,h,propagate_eq]
  rfl

theorem handleData_eq {r : Router} {sender dst n : Address} {source target : Relationship}
    {route : Route} (hs : r.relationship sender = .ok source)
    (hb : r.db.bestPath? dst = some (route,n)) (ht : r.relationship n = .ok target)
    (faults : LinkFaults) (payload : Json) :
    r.handleData faults sender dst payload =
      { router := r
        actions := if source.forwards target then
            r.tell (.forwarding dst route sender n)::
              r.deliver faults n ⟨n.gateway,dst,.data payload⟩
          else
            r.tell (.refused dst sender source n target)::
              r.deliver faults sender (envelopeTo sender (.noRoute emptyObject)) } := by
  simp only [handleData,hs,hb,ht,send_of_relationship hs,send_of_relationship ht]
  split <;> rfl

/-- All that handling a message can come to, whatever the links do: a failure, a record, data handed
on, an answer, or what was learned passed on. -/
inductive Handling (r : Router) (sender : Address) (e : Envelope) : Prop where
  | failed (events : List Event) (error : Error)
      (hl : r.neighbors.contains sender = true → r.db.learn sender e.msg = r.db)
      (hd : ∀ event ∈ events, ∀ d, event ≠ .dispatcher d)
      (h : ∀ faults, r.handle faults sender e =
        { router := r, actions := events.map .told, error := some error })
  | told (event : RouterEvent) (hl : r.db.learn sender e.msg = r.db)
      (h : ∀ faults, r.handle faults sender e = { router := r, actions := [r.tell event] })
  | forward (event : RouterEvent) {source target : Relationship} {route : Route} {n : Address}
      {payload : Json} (hs : r.relationship sender = .ok source) (hm : e.msg = .data payload)
      (hb : r.db.bestPath? e.dst = some (route,n)) (ht : r.relationship n = .ok target)
      (hp : source.forwards target = true)
      (h : ∀ faults, r.handle faults sender e =
        { router := r
          actions := r.tell event::r.deliver faults n ⟨n.gateway,e.dst,.data payload⟩ })
  | answer (event : RouterEvent) (msg : Message) (hl : r.db.learn sender e.msg = r.db)
      (hk : msg.kind = .noRoute ∨ msg.kind = .table)
      (h : ∀ faults, r.handle faults sender e =
        { router := r, actions := r.tell event::r.deliver faults sender (envelopeTo sender msg) })
  | spread (events : List Event) (msg : Message) {source : Relationship}
      (hs : r.relationship sender = .ok source) (hk : msg.kind = .update ∨ msg.kind = .withdraw)
      (hm : e.msg.kind = msg.kind) (hd : ∀ event ∈ events, ∀ d, event ≠ .dispatcher d)
      (h : ∀ faults, r.handle faults sender e =
        { router := { r with db := r.db.learn sender e.msg }
          actions := events.map .told++r.propagation faults sender source msg })

theorem handling_update (r : Router) (sender src dst : Address) (u : Update) :
    r.Handling sender ⟨src,dst,.update u⟩ := by
  cases hs : r.relationship sender with
  | error error =>
    refine .failed [] error (absurd · (not_contains_of_error hs)) (by simp) fun faults => ?_
    simp only [handle,handleUpdate,hs,List.map_nil]
  | ok source =>
    refine .spread [.router r.asn (.updated u.route sender),
      (r.db.insert u.route sender).inserted u.route sender]
      (.update (.ofAnnouncement (u.announcement.extend r.asn))) hs (.inl rfl) rfl ?_
      (handleUpdate_eq hs · u)
    simp [Database.inserted]

theorem handling_withdraw (r : Router) (sender src dst : Address) (networks : List Network) :
    r.Handling sender ⟨src,dst,.withdraw networks⟩ := by
  cases hs : r.relationship sender with
  | error error =>
    refine .failed [] error (absurd · (not_contains_of_error hs)) (by simp) fun faults => ?_
    simp only [handle,handleWithdraw,hs,List.map_nil]
  | ok source =>
    let w := r.db.withdrawal sender networks
    refine .spread (w.events++[.router r.asn (.withdrawn w.removed.length sender)])
      (.withdraw networks) hs (.inr rfl) rfl ?_ fun faults => ?_
    · refine List.forall_mem_append.mpr ⟨fun event he => ?_,by simp⟩
      obtain ⟨_,_,rfl⟩ := Withdrawal.of_mem_events _ _ _ event he
      simp
    · rw [List.map_append,List.append_assoc]
      exact handleWithdraw_eq hs faults networks

theorem handling_data (r : Router) (sender src dst : Address) (payload : Json) :
    r.Handling sender ⟨src,dst,.data payload⟩ := by
  cases hs : r.relationship sender with
  | error error =>
    refine .failed [] error (fun _ => rfl) (by simp) fun faults => ?_
    simp only [handle,handleData,hs,List.map_nil]
  | ok source =>
    cases hb : r.db.bestPath? dst with
    | none =>
      refine .told (.noRoute dst sender) rfl fun faults => ?_
      simp only [handle,handleData,hs,hb]
    | some p =>
      cases ht : r.relationship p.2 with
      | error error =>
        refine .failed [] error (fun _ => rfl) (by simp) fun faults => ?_
        simp only [handle,handleData,hs,hb,ht,List.map_nil]
      | ok target =>
        have h (faults : LinkFaults) := handleData_eq hs hb ht faults payload
        by_cases hp : source.forwards target = true
        · simp only [if_pos hp] at h
          exact .forward _ hs rfl hb ht hp h
        · simp only [if_neg hp] at h
          exact .answer _ _ rfl (.inl rfl) h

theorem handling_dump (r : Router) (sender src dst : Address) :
    r.Handling sender ⟨src,dst,.dump⟩ := by
  let entries := r.db.snapshot
  by_cases hs : r.neighbors.contains sender = true
  · refine .answer (.tableSent entries.length sender) (.table entries) rfl (.inr rfl) fun faults => ?_
    simp only [handle,handleDump,send_of_contains hs,entries]
  · refine .failed [.router r.asn (.tableSent entries.length sender)] (.unknownNeighbor sender)
      (fun _ => rfl) (by simp) fun faults => ?_
    simp only [handle,handleDump,send_of_not_contains hs,List.map_cons,List.map_nil,entries]
    rfl

theorem handling (r : Router) (sender : Address) (e : Envelope) : r.Handling sender e := by
  obtain ⟨src,dst,msg⟩ := e
  cases msg with
  | update u => exact handling_update r sender src dst u
  | withdraw networks => exact handling_withdraw r sender src dst networks
  | data payload => exact handling_data r sender src dst payload
  | dump => exact handling_dump r sender src dst
  | _ => exact .told _ rfl fun _ => rfl

/-- The router after a message: its database has learned from it if a neighbor sent it. -/
theorem router_handle (r : Router) (faults : LinkFaults) (sender : Address) (e : Envelope) :
    (r.handle faults sender e).router =
      if r.neighbors.contains sender = true then { r with db := r.db.learn sender e.msg }
      else r := by
  cases r.handling sender e with
  | failed _ _ hl _ h =>
    rw [h]
    split
    · rw [hl ‹_›]
    · rfl
  | told _ hl h =>
    rw [h,hl]
    exact (ite_self r).symm
  | forward _ _ hm _ _ _ h =>
    rw [h,hm]
    exact (ite_self r).symm
  | answer _ _ hl _ h =>
    rw [h,hl]
    exact (ite_self r).symm
  | spread _ _ hs _ _ _ h =>
    rw [h,if_pos (Table.contains_iff.mpr ⟨_,relationship_eq_ok_iff.mp hs⟩)]

theorem neighbors_handle (r : Router) (faults : LinkFaults) (sender : Address) (e : Envelope) :
    (r.handle faults sender e).router.neighbors = r.neighbors := by
  rw [router_handle]
  split <;> rfl

theorem error_handle_of_stranger {r : Router} {sender : Address}
    (h : ¬ r.neighbors.contains sender = true) (faults : LinkFaults) (e : Envelope) :
    (r.handle faults sender e).error =
      if e.kind.needsNeighbor then some (.unknownNeighbor sender) else none := by
  have hs := relationship_of_not_contains h
  obtain ⟨src,dst,msg⟩ := e
  unfold handle
  cases msg with
  | update u => simp only [handleUpdate,hs]; rfl
  | withdraw networks => simp only [handleWithdraw,hs]; rfl
  | data payload => simp only [handleData,hs]; rfl
  | dump => simp only [handleDump,send_of_not_contains h]; rfl
  | _ => rfl

/-- A neighbor's message is refused only if data would go to a next hop that is no neighbor. -/
theorem error_handle_of_neighbor {r : Router} {sender : Address}
    (h : r.neighbors.contains sender = true)
    (hn : ∀ e ∈ r.db.rib.entries, r.neighbors.contains e.2 = true) (faults : LinkFaults)
    (e : Envelope) : (r.handle faults sender e).error = none := by
  obtain ⟨s,hs⟩ := relationship_of_contains h
  unfold handle
  cases e.msg with
  | update u => simp only [handleUpdate_eq hs]
  | withdraw networks => simp only [handleWithdraw_eq hs]
  | data payload =>
    cases hb : r.db.bestPath? e.dst with
    | none => simp only [handleData,hs,hb]
    | some p =>
      obtain ⟨t,ht⟩ := relationship_of_contains (hn p (Rib.mem_entries_of_bestPath? hb))
      simp only [handleData_eq hs hb ht]
  | dump => simp only [handleDump,send_of_contains h]
  | _ => rfl

theorem attempts_told (events : List Event) :
    (events.map Action.told).filterMap Action.attempt? = [] := by
  simp [Action.attempt?]

/-- Handling that fails has given no message to any link. -/
theorem attempts_of_error {r : Router} {faults : LinkFaults} {sender : Address} {e : Envelope}
    {error : Error} (h : (r.handle faults sender e).error = some error) :
    (r.handle faults sender e).actions.filterMap Action.attempt? = [] := by
  cases r.handling sender e with
  | failed events _ _ _ he =>
    rw [he]
    exact attempts_told events
  | told _ _ he => rw [he] at h; cases h
  | forward _ _ _ _ _ _ he => rw [he] at h; cases h
  | answer _ _ _ _ he => rw [he] at h; cases h
  | spread _ _ _ _ _ _ he => rw [he] at h; cases h

theorem router_of_error {r : Router} {faults : LinkFaults} {sender : Address} {e : Envelope}
    {error : Error} (h : (r.handle faults sender e).error = some error) :
    (r.handle faults sender e).router = r := by
  cases r.handling sender e with
  | failed _ _ _ _ he => rw [he]
  | told _ _ he => rw [he]
  | forward _ _ _ _ _ _ he => rw [he]
  | answer _ _ _ _ he => rw [he]
  | spread _ _ _ _ _ _ he => rw [he] at h; cases h

end Router
end PathVector
