import PathVector.Dispatcher
import PathVector.Proofs.History
import PathVector.Proofs.Links

/-! Datagrams dispatched one after another. Each is told about once, in the order of arrival; those
that can be decoded are handled, the others have no effect; and all ends with the first message that
the router refuses. -/
namespace PathVector

section UpTo

variable {α β : Type} {p : α → Bool}

/-- The beginning of a list up to the first member with a property, that member included. -/
def upTo (p : α → Bool) : List α → List α
  | [] => []
  | x::xs => if p x then [x] else x::upTo p xs

theorem upTo_of_find?_none {xs : List α} (h : xs.find? p = none) : upTo p xs = xs := by
  induction xs with
  | nil => rfl
  | cons x xs ih =>
    rw [List.find?_cons] at h
    cases hx : p x with
    | true => simp [hx] at h
    | false =>
      rw [hx] at h
      simp only [upTo,hx,Bool.false_eq_true,if_false,ih h]

theorem upTo_of_find?_some {xs : List α} {x : α} (h : xs.find? p = some x) :
    ∃ before after, xs = before++x::after ∧ upTo p xs = before++[x] ∧ p x = true ∧
      ∀ y ∈ before, ¬ p y = true := by
  obtain ⟨hx,before,after,rfl,hb⟩ := List.find?_eq_some_iff_append.mp h
  refine ⟨before,after,rfl,?_,hx,fun y hy => by simpa using hb y hy⟩
  clear h
  induction before with
  | nil => simp [upTo,hx]
  | cons b before ih =>
    have hb' : p b = false := by simpa using hb b List.mem_cons_self
    simp only [List.cons_append,upTo,hb',Bool.false_eq_true,if_false,
      ih fun y hy => hb y (List.mem_cons_of_mem _ hy)]

theorem upTo_append (xs ys : List α) :
    upTo p (xs++ys) = if (xs.find? p).isSome then upTo p xs else xs++upTo p ys := by
  induction xs with
  | nil => rfl
  | cons x xs ih =>
    cases hx : p x with
    | true => simp [upTo,hx]
    | false =>
      simp only [List.cons_append,upTo,hx,Bool.false_eq_true,if_false,List.find?_cons,ih]
      split <;> rfl

theorem filterMap_upTo (f : α → Option β) (q : β → Bool) (xs : List α) :
    (upTo (fun x => (f x).any q) xs).filterMap f = upTo q (xs.filterMap f) := by
  induction xs with
  | nil => rfl
  | cons x xs ih =>
    cases hf : f x with
    | none => simp [upTo,hf,ih]
    | some y => cases hq : q y <;> simp [upTo,hf,hq,ih]

end UpTo

/-- A record of the dispatcher itself; all else that happens in a run is done by the router. -/
def Action.dispatcher? : Action → Option DispatcherEvent
  | told (.dispatcher e) => some e
  | _ => none

theorem Router.dispatcher?_of_mem_handle {r : Router} {faults : LinkFaults} {sender : Address}
    {e : Envelope} : ∀ x ∈ (r.handle faults sender e).actions, x.dispatcher? = none := by
  apply forall_mem_handle
  · intro event he
    cases event with
    | dispatcher d => exact absurd rfl (he d)
    | _ => rfl
  · intro n e _
    rfl
  · intro n e error _
    rfl

namespace Inbound

/-- The message that a datagram carries, if it can be decoded. -/
def arrival? (faults : LinkFaults) (i : Inbound) : Option Arrival :=
  match Envelope.ofWire i.datagram with
  | .ok e => some ⟨i.peer,e,faults⟩
  | .error _ => none

/-- What is told when a datagram is dispatched. -/
def heard (i : Inbound) : DispatcherEvent :=
  match Envelope.ofWire i.datagram with
  | .ok e => .received e.kind i.peer e.src e.dst
  | .error (.unknownKind kind) => .unknownKind kind i.peer
  | .error error => .undecodable error i.peer i.datagram

end Inbound

namespace Router

/-- The router cannot go on after a message that needs a neighbor and comes from none. -/
def refuses (r : Router) (a : Arrival) : Bool :=
  a.envelope.kind.needsNeighbor && !r.neighbors.contains a.sender

/-- All that a router does while it handles a list of messages. -/
def deeds : Router → List Arrival → List Action
  | _, [] => []
  | r, a::as =>
    let o := r.handle a.faults a.sender a.envelope
    o.actions++deeds o.router as

theorem dispatcher?_of_mem_deeds (r : Router) (as : List Arrival) :
    ∀ x ∈ r.deeds as, x.dispatcher? = none := by
  induction as generalizing r with
  | nil => simp [deeds]
  | cons a as ih => exact List.forall_mem_append.mpr ⟨dispatcher?_of_mem_handle,ih _⟩

theorem deeds_append (r : Router) (as bs : List Arrival) :
    r.deeds (as++bs) = r.deeds as++(r.handleAll as).deeds bs := by
  induction as generalizing r with
  | nil => rfl
  | cons a as ih =>
    rw [List.cons_append,deeds,deeds,ih,List.append_assoc]
    rfl

end Router

namespace Dispatcher

variable (faults : LinkFaults)

/-- The messages of a list of datagrams. -/
def arrivals (is : List Inbound) : List Arrival := is.filterMap (·.arrival? faults)

theorem arrivals_append (is js : List Inbound) :
    arrivals faults (is++js) = arrivals faults is++arrivals faults js :=
  List.filterMap_append

theorem handleAll_arrivals_append (r : Router) (is js : List Inbound) :
    r.handleAll (arrivals faults (is++js)) =
      (r.handleAll (arrivals faults is)).handleAll (arrivals faults js) := by
  rw [arrivals_append,Router.handleAll,List.map_append,Router.after_append]
  rfl

theorem router_dispatch (r : Router) (i : Inbound) :
    (dispatch faults r i).router = r.handleAll (arrivals faults [i]) := by
  unfold dispatch arrivals
  simp only [List.filterMap_cons,Inbound.arrival?]
  cases h : Envelope.ofWire i.datagram with
  | ok e => rfl
  | error e => cases e <;> rfl

theorem actions_dispatch (r : Router) (i : Inbound) :
    (dispatch faults r i).actions =
      .told (.dispatcher i.heard)::r.deeds (arrivals faults [i]) := by
  unfold dispatch arrivals
  simp only [List.filterMap_cons,Inbound.arrival?,Inbound.heard]
  cases h : Envelope.ofWire i.datagram with
  | ok e => simp [Router.deeds]
  | error e => cases e <;> rfl

theorem handleAll_arrivals_cons (r : Router) (i : Inbound) (is : List Inbound) :
    r.handleAll (arrivals faults (i::is)) =
      (dispatch faults r i).router.handleAll (arrivals faults is) := by
  rw [router_dispatch,← handleAll_arrivals_append]
  rfl

/-- The dispatcher gives up on the datagram. -/
def fatal (r : Router) (i : Inbound) : Bool := (i.arrival? faults).any r.refuses

theorem error_dispatch {r : Router} (h : r.Closed) (i : Inbound) :
    (dispatch faults r i).error =
      if fatal faults r i then some (.unknownNeighbor i.peer) else none := by
  cases hw : Envelope.ofWire i.datagram with
  | ok e =>
    simp only [dispatch,fatal,Inbound.arrival?,hw,h.error_handle,Option.any_some,Router.refuses,
      Bool.and_eq_true,Bool.not_eq_true',Bool.not_eq_true,and_comm]
  | error e =>
    have hf : fatal faults r i = false := by simp [fatal,Inbound.arrival?,hw]
    rw [hf]
    cases e <;> simp [dispatch,hw]

theorem fatal_handleAll (r : Router) (as : List Arrival) :
    fatal faults (r.handleAll as) = fatal faults r := by
  funext i
  unfold fatal Router.refuses
  rw [Router.neighbors_handleAll]

theorem fatal_dispatch (r : Router) (i : Inbound) :
    fatal faults (dispatch faults r i).router = fatal faults r := by
  rw [router_dispatch,fatal_handleAll]

theorem closed_dispatch {r : Router} (h : r.Closed) (i : Inbound) :
    (dispatch faults r i).router.Closed := by
  rw [router_dispatch]
  exact h.after _

/-- All that is done and told while datagrams are dispatched one after another. -/
def journal : Router → List Inbound → List Action
  | _, [] => []
  | r, i::is => (dispatch faults r i).actions++journal (dispatch faults r i).router is

/-- A batch is handled up to the first datagram on which the dispatcher gives up. -/
theorem dispatchAll_eq {r : Router} (h : r.Closed) (is : List Inbound) :
    dispatchAll faults r is =
      { router := r.handleAll (arrivals faults (upTo (fatal faults r) is))
        actions := journal faults r (upTo (fatal faults r) is)
        error := (is.find? (fatal faults r)).map fun i => .unknownNeighbor i.peer } := by
  induction is generalizing r with
  | nil => rfl
  | cons i is ih =>
    have he := error_dispatch faults h i
    cases hi : fatal faults r i with
    | true =>
      rw [hi,if_pos rfl] at he
      rw [dispatchAll,Outcome.andThen_of_error he]
      simp only [upTo,hi,if_true,List.find?_cons,Option.map_some,journal,List.append_nil,
        ← router_dispatch,← he]
    | false =>
      rw [hi] at he
      have ih := ih (closed_dispatch faults h i)
      rw [fatal_dispatch] at ih
      simp only [dispatchAll,Outcome.andThen,he,ih,upTo,hi,Bool.false_eq_true,if_false,
        List.find?_cons,handleAll_arrivals_cons,journal]

theorem journal_append (r : Router) (is js : List Inbound) :
    journal faults r (is++js) =
      journal faults r is++journal faults (r.handleAll (arrivals faults is)) js := by
  induction is generalizing r with
  | nil => rfl
  | cons i is ih =>
    rw [List.cons_append,journal,journal,ih,handleAll_arrivals_cons,List.append_assoc]

/-- Each datagram is told about once, in its turn. -/
theorem filterMap_journal (r : Router) (is : List Inbound) :
    (journal faults r is).filterMap Action.dispatcher? = is.map Inbound.heard := by
  induction is generalizing r with
  | nil => rfl
  | cons i is ih =>
    have hd : (r.deeds (arrivals faults [i])).filterMap Action.dispatcher? = [] :=
      List.filterMap_eq_nil_iff.mpr (r.dispatcher?_of_mem_deeds _)
    rw [journal,List.filterMap_append,ih,actions_dispatch,List.filterMap_cons,hd]
    rfl

/-- All else is what the router does with the messages. -/
theorem filter_journal (r : Router) (is : List Inbound) :
    (journal faults r is).filter (·.dispatcher?.isNone) = r.deeds (arrivals faults is) := by
  induction is generalizing r with
  | nil => rfl
  | cons i is ih =>
    have hd : (r.deeds (arrivals faults [i])).filter (·.dispatcher?.isNone) =
        r.deeds (arrivals faults [i]) :=
      List.filter_eq_self.mpr fun x hx => by rw [r.dispatcher?_of_mem_deeds _ x hx]; rfl
    have hi : arrivals faults (i::is) = arrivals faults [i]++arrivals faults is :=
      arrivals_append faults [i] is
    rw [journal,List.filter_append,ih,actions_dispatch,hi,Router.deeds_append,router_dispatch,
      List.filter_cons_of_neg (by simp [Action.dispatcher?]),hd]

end Dispatcher
end PathVector
