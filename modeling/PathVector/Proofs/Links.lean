import PathVector.Proofs.Export

/-! What links make of what a router gives them. A link takes a message or has a fault for it, and
the router goes on alike; so the messages that are taken are those that were tried, without the ones
for which there was a fault. -/
namespace PathVector

/-- The messages that links took, in their order. -/
def Outcome.sent (o : Outcome) : List (Address × Envelope) := o.actions.filterMap Action.sent?

/-- An action over links with these faults: a message is taken exactly if there is no fault for it.
-/
def Action.Under (faults : LinkFaults) (x : Action) : Prop :=
  x.sent? = x.attempt?.filter fun m => (faults m.1 m.2).isNone

namespace Action

variable {faults : LinkFaults} {n : Address} {e : Envelope}

theorem under_told (faults : LinkFaults) (event : Event) : (told event).Under faults := rfl

theorem under_sent (h : faults n e = none) : (sent n e).Under faults := by
  simp [Under,sent?,attempt?,Option.filter,h]

theorem under_lost {error : Error} (h : faults n e = some error) :
    (lost n e error).Under faults := by
  simp [Under,sent?,attempt?,Option.filter,h]

end Action

theorem Outcome.sent_of_under {o : Outcome} {faults : LinkFaults}
    (h : ∀ x ∈ o.actions, x.Under faults) :
    o.sent = o.attempts.filter fun m => (faults m.1 m.2).isNone := by
  rw [sent,attempts,List.filter_filterMap]
  exact List.filterMap_congr h

theorem Outcome.sent_subset (o : Outcome) : o.sent ⊆ o.attempts := by
  intro m hm
  obtain ⟨x,hx,hm⟩ := List.mem_filterMap.mp hm
  refine List.mem_filterMap.mpr ⟨x,hx,?_⟩
  cases x with
  | sent n e => exact hm
  | lost n e error => cases hm
  | told event => cases hm

theorem Outcome.forall_mem_andThen {p : Action → Prop} {o : Outcome} {f : Router → Outcome}
    (ho : ∀ x ∈ o.actions, p x) (hf : ∀ x ∈ (f o.router).actions, p x) :
    ∀ x ∈ (o.andThen f).actions, p x := by
  unfold andThen
  cases o.error with
  | some error => exact ho
  | none => exact List.forall_mem_append.mpr ⟨ho,hf⟩

namespace Router

section Actions

variable {r : Router} {faults : LinkFaults} {p : Action → Prop}
  (ht : ∀ event, (∀ d, event ≠ .dispatcher d) → p (.told event))
  (hs : ∀ n e, faults n e = none → p (.sent n e))
  (hl : ∀ n e error, faults n e = some error → p (.lost n e error))

include ht hs hl

theorem forall_mem_deliver (n : Address) (e : Envelope) : ∀ x ∈ r.deliver faults n e, p x := by
  unfold deliver
  cases h : faults n e with
  | none => simpa using hs n e h
  | some error => simpa [tell] using ⟨hl n e error h,ht _ (by simp)⟩

theorem forall_mem_propagation (sender : Address) (source : Relationship) (msg : Message) :
    ∀ x ∈ r.propagation faults sender source msg, p x := by
  intro x hx
  obtain ⟨⟨n,target⟩,-,hx⟩ := List.mem_flatMap.mp hx
  dsimp only at hx
  split at hx
  · cases hx
  · split at hx
    · exact forall_mem_deliver ht hs hl n _ x hx
    · rw [List.mem_singleton.mp hx]
      exact ht _ (by simp)

/-- What holds of all records but those of the dispatcher, of every message that a link takes and of
every one that it does not, holds of all that a handler does. -/
theorem forall_mem_handle (sender : Address) (e : Envelope) :
    ∀ x ∈ (r.handle faults sender e).actions, p x := by
  have htold (event : RouterEvent) : p (r.tell event) := ht _ (by simp)
  cases r.handling sender e with
  | failed events error _ hd h =>
    rw [h]
    exact List.forall_mem_map.mpr fun event he => ht event (hd event he)
  | told event _ h =>
    rw [h]
    exact List.forall_mem_singleton.mpr (htold event)
  | forward event _ _ _ _ _ h =>
    rw [h]
    exact List.forall_mem_cons.mpr ⟨htold event,forall_mem_deliver ht hs hl _ _⟩
  | answer event msg _ _ h =>
    rw [h]
    exact List.forall_mem_cons.mpr ⟨htold event,forall_mem_deliver ht hs hl _ _⟩
  | spread events _ _ _ _ hd h =>
    rw [h]
    exact List.forall_mem_append.mpr ⟨List.forall_mem_map.mpr fun event he => ht event (hd event he),
      forall_mem_propagation ht hs hl _ _ _⟩

end Actions

theorem under_deliver (r : Router) (faults : LinkFaults) (n : Address) (e : Envelope) :
    ∀ x ∈ r.deliver faults n e, x.Under faults :=
  forall_mem_deliver (fun event _ => Action.under_told faults event) (fun _ _ => Action.under_sent)
    (fun _ _ _ => Action.under_lost) n e

theorem under_handshake (r : Router) (faults : LinkFaults) :
    ∀ x ∈ (r.handshake faults).actions, x.Under faults := by
  rw [handshake_eq]
  intro x hx
  obtain ⟨n,-,hx⟩ := List.mem_flatMap.mp hx
  exact under_deliver r faults n _ x hx

theorem under_handle (r : Router) (faults : LinkFaults) (sender : Address) (e : Envelope) :
    ∀ x ∈ (r.handle faults sender e).actions, x.Under faults :=
  forall_mem_handle (fun event _ => Action.under_told faults event) (fun _ _ => Action.under_sent)
    (fun _ _ _ => Action.under_lost) sender e

/-- What links take is what they are given, without the messages for which they have a fault. -/
theorem sent_handle (r : Router) (faults : LinkFaults) (sender : Address) (e : Envelope) :
    (r.handle faults sender e).sent =
      (r.handle faults sender e).attempts.filter fun m => (faults m.1 m.2).isNone :=
  Outcome.sent_of_under (under_handle r faults sender e)

theorem mem_sent_handle {r : Router} {faults : LinkFaults} {sender n : Address} {e x : Envelope} :
    (n,x) ∈ (r.handle faults sender e).sent ↔
      (n,x) ∈ (r.handle faults sender e).attempts ∧ faults n x = none := by
  rw [sent_handle,List.mem_filter,Option.isNone_iff_eq_none]

end Router
end PathVector
