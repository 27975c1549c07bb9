import PathVector.Proofs.Codec
import PathVector.Proofs.Dispatch

/-! What a run of the dispatcher comes to, however the arriving datagrams are cut into batches and
whenever it is asked to stop: the datagrams up to some point are decoded and handled one by one, in
the order of their arrival. Datagrams that cannot be decoded make no difference. -/
namespace PathVector

/-- What the dispatcher can find while a list of datagrams arrives: they come in batches, with pauses
in between; it may be asked to stop at any time, whatever is still to come; if it is not, all links
hang up at the end. -/
inductive Schedule : List Inbound → List Turn → Prop where
  | hungUp : Schedule [] [.hungUp]
  | stop (pending : List Inbound) : Schedule pending [.stop]
  | quiet {pending : List Inbound} {ts : List Turn} : Schedule pending ts →
      Schedule pending (.quiet::ts)
  | batch (first : Inbound) (rest : List Inbound) {pending : List Inbound} {ts : List Turn} :
      Schedule pending ts → Schedule (first::rest++pending) (.batch first rest::ts)

/-- The datagrams of the batches. -/
def Turn.offered : List Turn → List Inbound
  | [] => []
  | .batch first rest::ts => first::rest++offered ts
  | _::ts => offered ts

namespace Schedule

open Turn

/-- Either the last turn is the request to stop, or everything that arrives is offered. -/
theorem last {is : List Inbound} {ts : List Turn} (h : Schedule is ts) :
    (∃ earlier pending, ts = earlier++[.stop] ∧ offered ts = offered earlier ∧
      is = offered ts++pending) ∨ (.stop ∉ ts ∧ offered ts = is) := by
  induction h with
  | hungUp => exact .inr ⟨by decide,rfl⟩
  | stop pending => exact .inl ⟨[],pending,rfl,rfl,rfl⟩
  | quiet _ ih =>
    rcases ih with ⟨earlier,pending,rfl,ho,rfl⟩ | ⟨hn,rfl⟩
    · exact .inl ⟨.quiet::earlier,pending,rfl,ho,rfl⟩
    · exact .inr ⟨by simpa using hn,rfl⟩
  | batch first rest _ ih =>
    rcases ih with ⟨earlier,pending,rfl,ho,rfl⟩ | ⟨hn,rfl⟩
    · exact .inl ⟨.batch first rest::earlier,pending,rfl,
        congrArg (first::rest++·) ho,by simp [offered]⟩
    · exact .inr ⟨by simpa using hn,rfl⟩

theorem exists_pending {is : List Inbound} {ts : List Turn} (h : Schedule is ts) :
    ∃ pending, is = offered ts++pending := by
  rcases h.last with ⟨-,pending,-,-,hp⟩ | ⟨-,ho⟩
  · exact ⟨pending,hp⟩
  · exact ⟨[],by rw [ho,List.append_nil]⟩

end Schedule

namespace Dispatcher

open Turn

/-- How a run ends that finds these turns. -/
def verdict (faults : LinkFaults) (r : Router) (ts : List Turn) : Ending :=
  match (offered ts).find? (fatal faults r) with
  | some i => .failed (.unknownNeighbor i.peer)
  | none => if .stop ∈ ts then .stopped else .failed .disconnected

def farewell (e : Ending) : List Action :=
  if e = .stopped then [.told (.dispatcher .shuttingDown)] else []

/-- Turn by turn, a run handles what is offered up to the first datagram on which it gives up. -/
theorem run_eq (faults : LinkFaults) {r : Router} (h : r.Closed) {is : List Inbound}
    {ts : List Turn} (hs : Schedule is ts) :
    run faults r ts =
      { router := r.handleAll (arrivals faults (upTo (fatal faults r) (offered ts)))
        actions := journal faults r (upTo (fatal faults r) (offered ts))++
          farewell (verdict faults r ts)
        ending := verdict faults r ts } := by
  induction hs generalizing r with
  | hungUp => rfl
  | stop pending => rfl
  | quiet _ ih =>
    rw [run,ih h]
    simp [verdict,offered]
  | @batch first rest pending ts hs ih =>
    have hd := dispatchAll_eq faults h (first::rest)
    cases hf : (first::rest).find? (fatal faults r) with
    | some i =>
      have ho : (offered (.batch first rest::ts)).find? (fatal faults r) = some i := by
        rw [offered,List.find?_append,hf]
        rfl
      have hv : verdict faults r (.batch first rest::ts) = .failed (.unknownNeighbor i.peer) := by
        rw [verdict,ho]
      simp only [run,hd,hf,Option.map_some,hv,offered,upTo_append,Option.isSome_some,if_true,
        farewell,reduceCtorEq,if_false,List.append_nil]
    | none =>
      have hc : (r.handleAll (arrivals faults (first::rest))).Closed := h.after _
      have hp := fatal_handleAll faults r (arrivals faults (first::rest))
      have hv : verdict faults (r.handleAll (arrivals faults (first::rest))) ts =
          verdict faults r (.batch first rest::ts) := by
        simp only [verdict,hp,offered,List.find?_append,hf,Option.none_or,List.mem_cons,
          reduceCtorEq,false_or]
      simp only [run,hd,hf,Option.map_none,upTo_of_find?_none hf,ih hc,hp,hv,offered,upTo_append,
        Option.isSome_none,Bool.false_eq_true,if_false,handleAll_arrivals_append,journal_append,
        List.append_assoc]

/-- The end of a run depends on the datagrams only through the messages that they carry. -/
theorem verdict_eq (faults : LinkFaults) (r : Router) (ts : List Turn) :
    verdict faults r ts =
      match (arrivals faults (offered ts)).find? r.refuses with
      | some a => .failed (.unknownNeighbor a.sender)
      | none => if .stop ∈ ts then .stopped else .failed .disconnected := by
  have hf : (arrivals faults (offered ts)).find? r.refuses =
      ((offered ts).find? (fatal faults r)).bind (·.arrival? faults) := List.find?_filterMap
  rw [hf,verdict]
  cases hi : (offered ts).find? (fatal faults r) with
  | none => rfl
  | some i =>
    have hp : fatal faults r i = true := List.find?_some hi
    rw [fatal,Inbound.arrival?] at hp
    rw [Option.bind_some,Inbound.arrival?]
    cases hw : Envelope.ofWire i.datagram with
    | ok e => rfl
    | error e => simp [hw] at hp

/-- The datagram carries a message that needs a neighbor, and it comes from none. -/
def Fatal (r : Router) (i : Inbound) : Prop :=
  ∃ e, Envelope.ofWire i.datagram = .ok e ∧ e.kind.needsNeighbor = true ∧
    ¬ r.neighbors.contains i.peer = true

theorem fatal_iff {faults : LinkFaults} {r : Router} {i : Inbound} :
    fatal faults r i = true ↔ Fatal r i := by
  unfold fatal Fatal Inbound.arrival?
  cases Envelope.ofWire i.datagram <;> simp [Router.refuses]

end Dispatcher

/-- What the router did in a run. -/
def Run.deeds (n : Run) : List Action := n.actions.filter (·.dispatcher?.isNone)

/-- What the dispatcher told in a run. -/
def Run.heard (n : Run) : List DispatcherEvent := n.actions.filterMap Action.dispatcher?

namespace Dispatcher

open Turn

section Closed

variable (faults : LinkFaults) {r : Router} (h : r.Closed) {is : List Inbound} {ts : List Turn}
  (hs : Schedule is ts)

include h hs

theorem deeds_run : (run faults r ts).deeds =
    r.deeds (arrivals faults (upTo (fatal faults r) (offered ts))) := by
  rw [run_eq faults h hs,Run.deeds,List.filter_append,filter_journal]
  have hf : (farewell (verdict faults r ts)).filter (·.dispatcher?.isNone) = [] := by
    unfold farewell
    split <;> rfl
  rw [hf,List.append_nil]

theorem heard_run : (run faults r ts).heard =
    (upTo (fatal faults r) (offered ts)).map Inbound.heard++
      if (run faults r ts).ending = .stopped then [.shuttingDown] else [] := by
  rw [run_eq faults h hs,Run.heard,List.filterMap_append,filterMap_journal]
  unfold farewell
  split <;> rfl

theorem run_congr {js : List Inbound} {us : List Turn} (ht : Schedule js us)
    (hstop : .stop ∈ us ↔ .stop ∈ ts)
    (ha : arrivals faults (offered us) = arrivals faults (offered ts)) :
    (run faults r us).router = (run faults r ts).router ∧
      (run faults r us).deeds = (run faults r ts).deeds ∧
      (run faults r us).ending = (run faults r ts).ending := by
  have hcut (is : List Inbound) : arrivals faults (upTo (fatal faults r) is) =
      upTo r.refuses (arrivals faults is) := filterMap_upTo _ _ is
  refine ⟨?_,?_,?_⟩
  · rw [run_eq faults h hs,run_eq faults h ht]
    simp only [hcut,ha]
  · rw [deeds_run faults h hs,deeds_run faults h ht,hcut,hcut,ha]
  · rw [run_eq faults h hs,run_eq faults h ht]
    simp only [verdict_eq,ha,hstop]

/-- The ways in which a run ends: on the first fatal datagram, at a request to stop that is seen
between two batches, or when everything has been handled. -/
theorem ending_run :
    let n := run faults r ts
    let handled := upTo (fatal faults r) (offered ts)
    ∃ rest, is = handled++rest ∧
      ((∃ before i, handled = before++[i] ∧ Fatal r i ∧ (∀ j ∈ before, ¬ Fatal r j) ∧
          n.ending = .failed (.unknownNeighbor i.peer)) ∨
        ((∀ j ∈ handled, ¬ Fatal r j) ∧ n.ending = .stopped ∧
          ∃ earlier, ts = earlier++[.stop] ∧ handled = offered earlier) ∨
        ((∀ j ∈ handled, ¬ Fatal r j) ∧ n.ending = .failed .disconnected ∧ rest = [] ∧
          .stop ∉ ts)) := by
  intro n handled
  have hn : n.ending = verdict faults r ts := by rw [show n = _ from run_eq faults h hs]
  cases hf : (offered ts).find? (fatal faults r) with
  | some i =>
    obtain ⟨before,after,ho,hu,hi,hb⟩ := upTo_of_find?_some hf
    obtain ⟨pending,hp⟩ := hs.exists_pending
    refine ⟨after++pending,?_,.inl ⟨before,i,hu,fatal_iff.mp hi,
      fun j hj hj' => hb j hj (fatal_iff.mpr hj'),?_⟩⟩
    · rw [show handled = _ from hu,hp,ho]
      simp
    · rw [hn,verdict,hf]
  | none =>
    have hu : handled = offered ts := upTo_of_find?_none hf
    have hall : ∀ j ∈ handled, ¬ Fatal r j := fun j hj hj' =>
      List.find?_eq_none.mp hf j (hu ▸ hj) (fatal_iff.mpr hj')
    rcases hs.last with ⟨earlier,pending,rfl,ho,hp⟩ | ⟨hnot,ho⟩
    · refine ⟨pending,hu ▸ hp,.inr (.inl ⟨hall,?_,earlier,rfl,hu.trans ho⟩)⟩
      rw [hn,verdict,hf]
      simp
    · refine ⟨[],by rw [hu,ho,List.append_nil],.inr (.inr ⟨hall,?_,rfl,hnot⟩)⟩
      rw [hn,verdict,hf]
      simp [hnot]

end Closed

/-- Whatever the schedule, a run of a router in a state that it can reach handles a beginning of the
datagrams that arrive, each once and in order, and comes to what handling the messages in them one
after another comes to. It ends early only on a message that a stranger may not send, or between two
batches when it sees that it should stop. Schedules that offer the same messages come to the same,
whatever they offer beside them that cannot be decoded. -/
theorem run_of_schedule (asn : UInt32) (ops : List Operation) (faults : LinkFaults)
    {is : List Inbound} {ts : List Turn} (hs : Schedule is ts) :
    let r := Router.after { asn } ops
    let n := run faults r ts
    (∃ handled rest, is = handled++rest ∧
      n.router = r.handleAll (arrivals faults handled) ∧
      n.deeds = r.deeds (arrivals faults handled) ∧
      n.heard = handled.map Inbound.heard++
        (if n.ending = .stopped then [.shuttingDown] else []) ∧
      ((∃ before i, handled = before++[i] ∧ Fatal r i ∧ (∀ j ∈ before, ¬ Fatal r j) ∧
          n.ending = .failed (.unknownNeighbor i.peer)) ∨
        ((∀ j ∈ handled, ¬ Fatal r j) ∧ n.ending = .stopped ∧
          ∃ earlier, ts = earlier++[.stop] ∧ handled = offered earlier) ∨
        ((∀ j ∈ handled, ¬ Fatal r j) ∧ n.ending = .failed .disconnected ∧ rest = [] ∧
          .stop ∉ ts))) ∧
    ∀ js us, Schedule js us → (.stop ∈ us ↔ .stop ∈ ts) →
      arrivals faults (offered us) = arrivals faults (offered ts) →
      (run faults r us).router = n.router ∧ (run faults r us).deeds = n.deeds ∧
        (run faults r us).ending = n.ending := by
  intro r n
  have h : r.Closed := (Router.closed_start asn).after ops
  obtain ⟨rest,hi,hending⟩ := ending_run faults h hs
  have hrouter : n.router = r.handleAll (arrivals faults (upTo (fatal faults r) (offered ts))) := by
    rw [show n = _ from run_eq faults h hs]
  exact ⟨⟨_,rest,hi,hrouter,deeds_run faults h hs,heard_run faults h hs,hending⟩,
    fun js us ht => run_congr faults h hs ht⟩

private def member : Address := .ofOctets 192 168 0 2

private def outsider : Address := .ofOctets 203 0 113 2

private def request (n : Address) : Inbound :=
  ⟨n,Envelope.toWire ⟨n,n.gateway,.dump⟩⟩

private theorem ofWire_request (n : Address) :
    Envelope.ofWire (request n).datagram = .ok ⟨n,n.gateway,.dump⟩ :=
  Envelope.ofWire_of_portable fun _ hj => nomatch hj

private theorem arrival?_empty (faults : LinkFaults) (n : Address) :
    Inbound.arrival? faults ⟨n,[]⟩ = none := rfl

/-- A stranger's request in the middle of a batch ends the run, with or without an empty datagram and
a pause before it. -/
theorem run_of_schedule_outsider :
    let batch := [request outsider,request member]
    let us : List Turn := [.batch (request member) batch,.hungUp]
    let ts : List Turn := .batch ⟨member,[]⟩ []::.quiet::us
    let r := Router.after { asn := 7 } [.add member .customer]
    Schedule (request member::batch) us ∧ Schedule (⟨member,[]⟩::request member::batch) ts ∧
      (run (fun _ _ => none) r ts).ending = .failed (.unknownNeighbor outsider) ∧
      (run (fun _ _ => none) r us).deeds = (run (fun _ _ => none) r ts).deeds := by
  intro batch us ts r
  have hu : Schedule (request member::batch) us := .batch (request member) batch .hungUp
  have ht : Schedule (⟨member,[]⟩::request member::batch) ts := .batch ⟨member,[]⟩ [] (.quiet hu)
  have ha : arrivals (fun _ _ => none) (offered us) = arrivals (fun _ _ => none) (offered ts) :=
    (List.filterMap_cons_none (arrival?_empty _ member)).symm
  obtain ⟨⟨handled,rest,hi,-,-,-,hending⟩,hcongr⟩ :=
    run_of_schedule 7 [.add member .customer] (fun _ _ => none) ht
  have hfatal : Fatal r (request outsider) := ⟨_,ofWire_request outsider,rfl,by decide⟩
  have hmember (i : Inbound) (h : i.peer = member) : ¬ Fatal r i := by
    rintro ⟨e,-,-,hn⟩
    exact hn (h ▸ by decide)
  refine ⟨hu,ht,?_,(hcongr _ us hu (by simp [us,ts]) ha).2.1⟩
  rcases hending with ⟨before,i,rfl,hf,-,he⟩ | ⟨-,-,earlier,he,-⟩ | ⟨hn,-,rfl,-⟩
  · have hm : i ∈ ⟨member,[]⟩::request member::batch := hi ▸ by simp
    simp only [batch,List.mem_cons,List.not_mem_nil,or_false] at hm
    rcases hm with rfl | rfl | rfl | rfl
    · exact absurd hf (hmember _ rfl)
    · exact absurd hf (hmember _ rfl)
    · exact he
    · exact absurd hf (hmember _ rfl)
  · have hstop : Turn.stop ∈ ts := he ▸ by simp
    simp [ts,us] at hstop
  · rw [List.append_nil] at hi
    exact absurd hfatal (hn _ (hi ▸ by simp [batch]))

end Dispatcher
end PathVector
