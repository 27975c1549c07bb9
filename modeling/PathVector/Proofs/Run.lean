import PathVector.Proofs.Handlers

/-! Runs of a router: neighbors are added and messages are handled in any order. What fails is passed
over, so a run goes on after a failure. In every run the next hops and the senders of withdrawals
stay among the neighbors. -/
namespace PathVector

/-- A message, the link it comes in on, and how the links behave while it is handled. -/
structure Arrival where
  sender : Address
  envelope : Envelope
  faults : LinkFaults := fun _ _ => none

inductive Operation where
  | add (address : Address) (relationship : Relationship)
  | receive (a : Arrival)

namespace Router

def perform (r : Router) : Operation → Outcome
  | .add address relationship => r.addNeighbor address relationship
  | .receive a => r.handle a.faults a.sender a.envelope

/-- The router after a list of operations. -/
def after (r : Router) (ops : List Operation) : Router :=
  ops.foldl (fun r op => (r.perform op).router) r

@[simp] theorem after_nil (r : Router) : r.after [] = r := rfl

@[simp] theorem after_cons (r : Router) (op : Operation) (ops : List Operation) :
    r.after (op::ops) = (r.perform op).router.after ops := rfl

theorem after_append (r : Router) (ops more : List Operation) :
    r.after (ops++more) = (r.after ops).after more := List.foldl_append

/-- What every step preserves holds after every run. -/
theorem after_induction {p : Router → Prop} {r : Router} (h : p r)
    (hs : ∀ r op, p r → p (r.perform op).router) (ops : List Operation) : p (r.after ops) := by
  induction ops generalizing r with
  | nil => exact h
  | cons op ops ih => exact ih (hs r op h)

theorem addNeighbor_of_contains {r : Router} {n : Address} (h : r.neighbors.contains n = true)
    (s : Relationship) :
    r.addNeighbor n s = { router := r, error := some (.neighborExists n) } := by
  simp only [addNeighbor,h,if_true]

theorem neighbors_addNeighbor (r : Router) (n m : Address) (s : Relationship) :
    (r.addNeighbor n s).router.neighbors.get? m =
      if n = m ∧ ¬ r.neighbors.contains n = true then some s else r.neighbors.get? m := by
  unfold addNeighbor
  by_cases h : r.neighbors.contains n = true
  · simp [h]
  · simp only [h,Bool.false_eq_true,if_false,not_false_eq_true,and_true]
    exact Table.get?_insert r.neighbors n m s

theorem contains_addNeighbor (r : Router) (n m : Address) (s : Relationship) :
    (r.addNeighbor n s).router.neighbors.contains m = true ↔
      m = n ∨ r.neighbors.contains m = true := by
  unfold addNeighbor
  by_cases h : r.neighbors.contains n = true
  · simp only [h,if_true]
    constructor
    · exact Or.inr
    · rintro (rfl | hm)
      · exact h
      · exact hm
  · simp only [h,Bool.false_eq_true,if_false]
    exact Table.contains_insert r.neighbors n m s

theorem db_addNeighbor (r : Router) (n : Address) (s : Relationship) :
    (r.addNeighbor n s).router.db = r.db := by
  unfold addNeighbor
  split <;> rfl

theorem asn_addNeighbor (r : Router) (n : Address) (s : Relationship) :
    (r.addNeighbor n s).router.asn = r.asn := by
  unfold addNeighbor
  split <;> rfl

/-- A step changes no relationship that is there already. -/
theorem relationship_perform {r : Router} {n : Address} {s : Relationship}
    (h : r.relationship n = .ok s) (op : Operation) :
    (r.perform op).router.relationship n = .ok s := by
  rw [relationship_eq_ok_iff] at h ⊢
  cases op with
  | add m t =>
    have hc : r.neighbors.contains n = true := Table.contains_iff.mpr ⟨s,h⟩
    simp only [perform,neighbors_addNeighbor]
    split
    · rename_i hm
      exact absurd (hm.1 ▸ hc) hm.2
    · exact h
  | receive a => simpa only [perform,neighbors_handle] using h

theorem relationship_after {r : Router} {n : Address} {s : Relationship}
    (h : r.relationship n = .ok s) (ops : List Operation) :
    (r.after ops).relationship n = .ok s :=
  after_induction (p := fun r => r.relationship n = .ok s) h
    (fun _ op h => relationship_perform h op) ops

/-- Routes lead to neighbors, and withdrawals are on record for neighbors only. -/
structure Closed (r : Router) : Prop where
  nexthop : ∀ s n, r.db.nexthop? s = some n → r.neighbors.contains n = true
  revoked : ∀ n, (r.db.revoked? n).isSome = true → r.neighbors.contains n = true

theorem closed_start (asn : UInt32) : Closed { asn } where
  nexthop _ _ h := by simp [Database.nexthop?] at h
  revoked _ h := by simp [Database.revoked?] at h

theorem Closed.learn {r : Router} (h : r.Closed) {sender : Address}
    (hs : r.neighbors.contains sender = true) (msg : Message) :
    Closed { r with db := r.db.learn sender msg } where
  nexthop s n hn := by
    cases msg with
    | update u =>
      simp only [Database.learn,Database.nexthop?_insert] at hn
      split at hn
      · exact Option.some.inj hn ▸ hs
      · exact h.nexthop s n hn
    | withdraw networks =>
      simp only [Database.learn,Database.nexthop?_withdraw] at hn
      split at hn
      · cases hn
      · exact h.nexthop s n hn
    | _ => exact h.nexthop s n hn
  revoked n hn := by
    cases msg with
    | withdraw networks =>
      simp only [Database.learn,Database.revoked?_withdraw] at hn
      split at hn
      · rename_i he
        exact he ▸ hs
      · exact h.revoked n hn
    | _ => exact h.revoked n hn

theorem Closed.perform {r : Router} (h : r.Closed) (op : Operation) :
    (r.perform op).router.Closed := by
  cases op with
  | add n s =>
    have hc (m : Address) (hm : r.neighbors.contains m = true) :
        (r.addNeighbor n s).router.neighbors.contains m = true :=
      (contains_addNeighbor r n m s).mpr (.inr hm)
    simp only [Router.perform]
    refine ⟨fun t m hm => hc m ?_,fun m hm => hc m ?_⟩
    · rw [db_addNeighbor] at hm
      exact h.nexthop t m hm
    · rw [db_addNeighbor] at hm
      exact h.revoked m hm
  | receive a =>
    simp only [Router.perform,router_handle]
    split
    · exact h.learn ‹_› a.envelope.msg
    · exact h

theorem Closed.after {r : Router} (h : r.Closed) (ops : List Operation) : (r.after ops).Closed :=
  after_induction h (fun _ op h => h.perform op) ops

/-- In a closed router only a stranger's message can fail. -/
theorem Closed.error_handle {r : Router} (h : r.Closed) (faults : LinkFaults) (sender : Address)
    (e : Envelope) :
    (r.handle faults sender e).error =
      if ¬ r.neighbors.contains sender = true ∧ e.kind.needsNeighbor = true then
        some (.unknownNeighbor sender)
      else none := by
  by_cases hs : r.neighbors.contains sender = true
  · have hn (p : Route × Address) (hp : p ∈ r.db.rib.entries) :
        r.neighbors.contains p.2 = true :=
      h.nexthop p.1 p.2 ((Table.get?_eq_some_iff r.db.rib p.1 p.2).mpr hp)
    rw [error_handle_of_neighbor hs hn,if_neg]
    exact fun hc => hc.1 hs
  · rw [error_handle_of_stranger hs]
    simp [hs]

end Router
end PathVector
