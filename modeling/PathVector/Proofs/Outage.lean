import PathVector.Proofs.Downstream

/-! Links that fail. The router tells about a message that a link does not take and goes on, so two
runs with the same tasks differ in the messages that were lost and in nothing else. Whatever a task
does over faulty links it would do over links that take everything; only the messages are given to
the links anew. -/
namespace PathVector

/-- What a router is asked to do. How its links behave meanwhile is not part of it. -/
inductive Task where
  | add (address : Address) (relationship : Relationship)
  | greet
  | receive (sender : Address) (e : Envelope)

/-- The receiver of a message that was lost. -/
def Action.lostTo? : Action → Option Address
  | lost receiver _ _ => some receiver
  | _ => none

/-- Whom messages were to go to that were lost. -/
def Outcome.unreached (o : Outcome) : List Address := o.actions.filterMap Action.lostTo?

/-- Links that take everything. -/
def reliable : LinkFaults := fun _ _ => none

namespace Router

/-- An action over other links: a message that was taken is given to its link anew. -/
def reattempt (r : Router) (faults : LinkFaults) : Action → List Action
  | .sent n e => r.deliver faults n e
  | x => [x]

end Router

/-- An outcome as it would be with other links. -/
def Outcome.via (o : Outcome) (faults : LinkFaults) : Outcome :=
  { o with actions := o.actions.flatMap (o.router.reattempt faults) }

namespace Router

/-- The two routers may differ in their databases. -/
theorem deliver_via {q r : Router} (h : q.asn = r.asn) (faults : LinkFaults) (n : Address)
    (e : Envelope) :
    (r.deliver reliable n e).flatMap (q.reattempt faults) = r.deliver faults n e := by
  have hq : q.deliver faults n e = r.deliver faults n e := by
    simp only [deliver,tell,h]
  simpa [deliver,reliable,reattempt] using hq

theorem told_via (q : Router) (faults : LinkFaults) (events : List Event) :
    (events.map Action.told).flatMap (q.reattempt faults) = events.map Action.told := by
  rw [List.flatMap_map,List.map_eq_flatMap]
  rfl

theorem propagation_via {q r : Router} (h : q.asn = r.asn) (faults : LinkFaults) (sender : Address)
    (source : Relationship) (msg : Message) :
    (r.propagation reliable sender source msg).flatMap (q.reattempt faults) =
      r.propagation faults sender source msg := by
  unfold propagation
  rw [List.flatMap_assoc]
  congr 1
  funext e
  dsimp only
  split
  · rfl
  · split
    · exact deliver_via h faults e.1 _
    · rfl

theorem handshake_via (r : Router) (faults : LinkFaults) :
    r.handshake faults = (r.handshake reliable).via faults := by
  simp only [handshake_eq,Outcome.via,greetings,List.flatMap_assoc,deliver_via]

/-- Handling a message is handling it over links that take everything, and giving them the messages
anew. -/
theorem handle_via (r : Router) (faults : LinkFaults) (sender : Address) (e : Envelope) :
    r.handle faults sender e = (r.handle reliable sender e).via faults := by
  cases r.handling sender e with
  | failed events error _ _ h => simp only [h,Outcome.via,told_via]
  | told event _ h => simp only [h]; rfl
  | forward event _ _ _ _ _ h =>
    simp only [h,Outcome.via,List.flatMap_cons,deliver_via]
    rfl
  | answer event msg _ _ h =>
    simp only [h,Outcome.via,List.flatMap_cons,deliver_via]
    rfl
  | spread events _ _ _ _ _ h =>
    simp only [h,Outcome.via,List.flatMap_append,told_via,propagation_via]

def undertake (r : Router) (faults : LinkFaults) : Task → Outcome
  | .add address relationship => r.addNeighbor address relationship
  | .greet => r.handshake faults
  | .receive sender e => r.handle faults sender e

/-- What comes of tasks done one after another, each with the faults of its time. What fails is
passed over. -/
def outcomes (r : Router) : List (Task × LinkFaults) → List Outcome
  | [] => []
  | t::ts =>
    let o := r.undertake t.2 t.1
    o::o.router.outcomes ts

theorem undertake_via (r : Router) (faults : LinkFaults) (t : Task) :
    r.undertake faults t = (r.undertake reliable t).via faults := by
  cases t with
  | add n s =>
    simp only [undertake,addNeighbor]
    split <;> rfl
  | greet => exact handshake_via r faults
  | receive sender e => exact handle_via r faults sender e

/-- What does not depend on the links is the same whatever they do. -/
theorem map_outcomes_congr {α : Type} {f : Outcome → α} (hf : ∀ o faults, f (o.via faults) = f o)
    (r : Router) {ts us : List (Task × LinkFaults)} (h : ts.map (·.1) = us.map (·.1)) :
    (r.outcomes ts).map f = (r.outcomes us).map f := by
  induction ts generalizing r us with
  | nil =>
    cases us with
    | nil => rfl
    | cons u us => cases h
  | cons t ts ih =>
    cases us with
    | nil => cases h
    | cons u us =>
      rw [List.map_cons,List.map_cons,List.cons.injEq] at h
      have ho (faults : LinkFaults) : f (r.undertake faults t.1) = f (r.undertake reliable t.1) := by
        rw [undertake_via,hf]
      have hr (faults : LinkFaults) :
          (r.undertake faults t.1).router = (r.undertake reliable t.1).router := by
        rw [undertake_via]
        rfl
      simp only [outcomes,List.map_cons,← h.1]
      rw [ho,ho u.2,hr,hr u.2,ih _ h.2]

end Router

namespace Outcome

theorem attempts_via (o : Outcome) (faults : LinkFaults) : (o.via faults).attempts = o.attempts := by
  have h (x : Action) : (o.router.reattempt faults x).filterMap Action.attempt? =
      [x].filterMap Action.attempt? := by
    cases x with
    | sent n e => exact Router.attempts_deliver o.router faults n e
    | lost n e error => rfl
    | told event => rfl
  simp only [attempts,via,List.filterMap_flatMap,h]
  rw [← List.filterMap_flatMap,List.flatMap_singleton']

theorem addressed_sent {o : Outcome} {n : Address} (h : n ∉ o.unreached) :
    Router.addressed n o.sent = Router.addressed n o.attempts := by
  unfold Router.addressed sent attempts
  rw [List.filterMap_filterMap,List.filterMap_filterMap]
  apply List.filterMap_congr
  intro x hx
  cases x with
  | sent m e => rfl
  | lost m e error =>
    have hm : m ≠ n := fun hm => h (List.mem_filterMap.mpr ⟨_,hx,congrArg some hm⟩)
    simp [Action.sent?,Action.attempt?,hm]
  | told event => rfl

end Outcome

namespace Router

theorem receivers_map (ns : List Address) (f : Address → Envelope) :
    (ns.map fun n => (n,f n)).map (·.1) = ns := by
  rw [List.map_map]
  exact List.map_id ns

theorem nodup_receivers_handle (r : Router) (faults : LinkFaults) (sender : Address)
    (e : Envelope) : ((r.handle faults sender e).attempts.map (·.1)).Nodup := by
  have hr := response_handle r faults sender e
  generalize (r.handle faults sender e).attempts = ms at hr
  cases hr with
  | silence => exact List.nodup_nil
  | @propagation source _ _ _ _ =>
    rw [receivers_map]
    exact nodup_audience r sender source
  | forward => exact List.nodup_singleton _
  | answer => exact List.nodup_singleton _

theorem nodup_receivers (r : Router) (faults : LinkFaults) (t : Task) :
    ((r.undertake faults t).attempts.map (·.1)).Nodup := by
  cases t with
  | add n s =>
    rw [undertake,attempts_addNeighbor]
    exact List.nodup_nil
  | greet =>
    rw [undertake,attempts_handshake,receivers_map]
    exact Table.nodup_keys r.neighbors
  | receive sender e => exact nodup_receivers_handle r faults sender e

theorem exists_undertake_of_mem_outcomes {r : Router} {ts : List (Task × LinkFaults)}
    {o : Outcome} (h : o ∈ r.outcomes ts) : ∃ q t faults, o = undertake q faults t := by
  induction ts generalizing r with
  | nil => cases h
  | cons t ts ih =>
    rcases List.mem_cons.mp h with rfl | h
    · exact ⟨r,t.1,t.2,rfl⟩
    · exact ih h

/-- Two runs with the same tasks, whatever messages the links lose in either. Each task ends alike
and leaves the router alike. A neighbor to whom nothing was lost in the two runs is sent the same
messages in the same order. No task uses a link twice, so faults may be chosen for each message on
its own. -/
theorem outage_invisible (r : Router) (ts us : List (Task × LinkFaults))
    (h : ts.map (·.1) = us.map (·.1)) :
    (r.outcomes ts).map (fun o => (o.error,o.router)) =
      (r.outcomes us).map (fun o => (o.error,o.router)) ∧
    (∀ n, (∀ o ∈ r.outcomes ts, n ∉ o.unreached) → (∀ o ∈ r.outcomes us, n ∉ o.unreached) →
      (r.outcomes ts).flatMap (fun o => addressed n o.sent) =
        (r.outcomes us).flatMap fun o => addressed n o.sent) ∧
    ∀ o ∈ r.outcomes ts, (o.attempts.map (·.1)).Nodup := by
  refine ⟨map_outcomes_congr (fun _ _ => rfl) r h,fun n ht hu => ?_,fun o ho => ?_⟩
  · have hall {xs : List (Task × LinkFaults)} (hx : ∀ o ∈ r.outcomes xs, n ∉ o.unreached) :
        (r.outcomes xs).flatMap (fun o => addressed n o.sent) =
          ((r.outcomes xs).map Outcome.attempts).flatMap (addressed n) := by
      rw [List.flatMap_map]
      exact List.flatMap_congr fun o ho => Outcome.addressed_sent (hx o ho)
    rw [hall ht,hall hu,map_outcomes_congr Outcome.attempts_via r h]
  · obtain ⟨q,t,faults,rfl⟩ := exists_undertake_of_mem_outcomes ho
    exact nodup_receivers q faults t

private def spoke (n : Nat) : Address := .ofOctets 10 n 0 2

private def hub : Router where
  asn := 7
  neighbors := .ofList [(spoke 1,.peer),(spoke 2,.customer),(spoke 3,.customer)]

/-- A customer announces a network and withdraws it; in between another sends data to it and asks for
the table. -/
private def errands : List Task :=
  let network : Network := ⟨.ofOctets 10 8 0 0,.ofLength 16⟩
  [.greet,
    .receive (spoke 3) ⟨spoke 3,(spoke 3).gateway,.update ⟨network,[3],none,none,none⟩⟩,
    .receive (spoke 2) ⟨spoke 2,.ofOctets 10 8 0 1,.data .null⟩,
    .receive (spoke 2) ⟨spoke 2,(spoke 2).gateway,.dump⟩,
    .receive (spoke 3) ⟨spoke 3,(spoke 3).gateway,.withdraw [network]⟩]

/-- The links to the peer and to the announcing customer are down. -/
private def halved : LinkFaults := fun n _ => if n = spoke 2 then none else some .disconnected

theorem outage_invisible_hub :
    let ts := errands.map fun t => (t,reliable)
    let us := errands.map fun t => (t,halved)
    ts.map (·.1) = us.map (·.1) ∧ (∀ o ∈ hub.outcomes ts, spoke 2 ∉ o.unreached) ∧
      (∀ o ∈ hub.outcomes us, spoke 2 ∉ o.unreached) ∧
      (∃ o ∈ hub.outcomes us, spoke 1 ∈ o.unreached) ∧
      (hub.outcomes ts).flatMap (fun o => addressed (spoke 2) o.sent) =
        (hub.outcomes us).flatMap fun o => addressed (spoke 2) o.sent := by
  intro ts us
  have h : ts.map (·.1) = us.map (·.1) := rfl
  have ht : ∀ o ∈ hub.outcomes ts, spoke 2 ∉ o.unreached := by decide
  have hu : ∀ o ∈ hub.outcomes us, spoke 2 ∉ o.unreached := by decide
  exact ⟨h,ht,hu,by decide,(outage_invisible hub ts us h).2.1 (spoke 2) ht hu⟩

end Router
end PathVector
