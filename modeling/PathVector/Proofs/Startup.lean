import PathVector.Dispatcher
import PathVector.Proofs.Links

/-! Startup. The links are opened in the order of configuration, and the first neighbor that cannot be
added ends everything before a message is sent. Once all are added only the set of the neighbors
counts: each is greeted once in the order of addresses, and after that, in the same order, the first
link that cannot be listened to ends it. -/
namespace PathVector
namespace Dispatcher

variable {t : Transport} {asn : UInt32}

/-- Why a neighbor cannot be added after others: its link cannot be opened, or else its address is
taken. -/
def refusal? (t : Transport) (earlier : List NeighborConfig) (n : NeighborConfig) : Option Error :=
  match t.openFault earlier.length n with
  | some error => some error
  | none =>
    if n.address ∈ earlier.map (·.address) then some (.neighborExists n.address) else none

/-- Neighbors that can all be added: each link opens, and no address occurs twice. -/
structure Admitted (t : Transport) (ns : List NeighborConfig) : Prop where
  opens : ∀ i n, ns[i]? = some n → t.openFault i n = none
  distinct : (ns.map (·.address)).Nodup

theorem admitted_iff {ns : List NeighborConfig} :
    Admitted t ns ↔
      (∀ i n, ns[i]? = some n → t.openFault i n = none) ∧ (ns.map (·.address)).Nodup :=
  ⟨fun h => ⟨h.opens,h.distinct⟩,fun h => ⟨h.1,h.2⟩⟩

theorem opens_concat {ns : List NeighborConfig} {n : NeighborConfig} :
    (∀ i m, (ns++[n])[i]? = some m → t.openFault i m = none) ↔
      (∀ i m, ns[i]? = some m → t.openFault i m = none) ∧ t.openFault ns.length n = none := by
  constructor
  · intro h
    refine ⟨fun i m hi => h i m ?_,h _ n List.getElem?_concat_length⟩
    rwa [List.getElem?_append_left (List.getElem?_eq_some_iff.mp hi).1]
  · rintro ⟨h,hn⟩ i m hi
    rcases lt_trichotomy i ns.length with hlt | rfl | hgt
    · rw [List.getElem?_append_left hlt] at hi
      exact h i m hi
    · rw [List.getElem?_concat_length,Option.some_inj] at hi
      exact hi ▸ hn
    · rw [List.getElem?_eq_none (by simpa using hgt)] at hi
      cases hi

theorem admitted_concat {ns : List NeighborConfig} {n : NeighborConfig} :
    Admitted t (ns++[n]) ↔ Admitted t ns ∧ refusal? t ns n = none := by
  have hn : refusal? t ns n = none ↔
      t.openFault ns.length n = none ∧ n.address ∉ ns.map (·.address) := by
    unfold refusal?
    cases t.openFault ns.length n <;> simp
  have hd : ((ns++[n]).map (·.address)).Nodup ↔
      n.address ∉ ns.map (·.address) ∧ (ns.map (·.address)).Nodup := by
    rw [List.map_append,List.map_singleton,← List.concat_eq_append,List.nodup_concat]
  rw [hn,admitted_iff,admitted_iff,opens_concat,hd]
  tauto

/-- Unless all can be added there is a first one that cannot. -/
theorem exists_refused {ns : List NeighborConfig} (h : ¬ Admitted t ns) :
    ∃ earlier n later error, ns = earlier++n::later ∧ Admitted t earlier ∧
      refusal? t earlier n = some error := by
  induction ns using List.reverseRecOn with
  | nil => exact absurd ⟨by simp,by simp⟩ h
  | append_singleton ns n ih =>
    by_cases hns : Admitted t ns
    · cases hr : refusal? t ns n with
      | none => exact absurd (admitted_concat.mpr ⟨hns,hr⟩) h
      | some error => exact ⟨ns,n,[],error,rfl,hns,hr⟩
    · obtain ⟨earlier,m,later,error,rfl,ha,hr⟩ := ih hns
      exact ⟨earlier,m,later++[n],error,by simp,ha,hr⟩

theorem openLinks_append (r : Router) (ns more : List NeighborConfig) :
    openLinks t r (ns++more) = (more.zipIdx ns.length).foldl
      (fun o e => o.andThen (openLink t e.2 e.1)) (openLinks t r ns) := by
  rw [openLinks,List.zipIdx_append,List.foldl_append,Nat.zero_add]
  rfl

theorem openLinks_concat (r : Router) (ns : List NeighborConfig) (n : NeighborConfig) :
    openLinks t r (ns++[n]) = (openLinks t r ns).andThen (openLink t ns.length n) :=
  openLinks_append r ns [n]

theorem foldl_openLink_of_error {o : Outcome} {error : Error} (h : o.error = some error)
    (es : List (NeighborConfig × Nat)) :
    es.foldl (fun o e => o.andThen (openLink t e.2 e.1)) o = o := by
  induction es with
  | nil => rfl
  | cons e es ih => rw [List.foldl_cons,Outcome.andThen_of_error h,ih]

/-- Only records were made so far. -/
def Silent (o : Outcome) : Prop := ∀ x ∈ o.actions, ∃ event, x = .told event

theorem Silent.attempts {o : Outcome} (h : Silent o) : o.attempts = [] := by
  refine List.filterMap_eq_nil_iff.mpr fun x hx => ?_
  obtain ⟨event,rfl⟩ := h x hx
  rfl

theorem Silent.under {o : Outcome} (h : Silent o) (faults : LinkFaults) :
    ∀ x ∈ o.actions, x.Under faults := by
  intro x hx
  obtain ⟨event,rfl⟩ := h x hx
  exact Action.under_told faults event

/-- The links to some neighbors have been opened, and the router knows these and nothing else. -/
structure Opened (asn : UInt32) (ns : List NeighborConfig) (o : Outcome) : Prop where
  error : o.error = none
  asn : o.router.asn = asn
  db : o.router.db = {}
  neighbors : ∀ a s, o.router.neighbors.get? a = some s ↔
    ∃ n ∈ ns, n.address = a ∧ n.relationship = s
  silent : Silent o

theorem silent_openLink (i : Nat) (n : NeighborConfig) (r : Router) :
    Silent (openLink t i n r) := by
  unfold openLink
  cases t.openFault i n with
  | some error => exact fun x hx => nomatch hx
  | none =>
    intro x hx
    rcases List.mem_append.mp hx with hx | hx
    · obtain ⟨event,-,rfl⟩ := List.mem_map.mp hx
      exact ⟨event,rfl⟩
    · unfold Router.addNeighbor at hx
      split at hx
      · cases hx
      · exact ⟨_,List.mem_singleton.mp hx⟩

namespace Opened

variable {ns : List NeighborConfig} {n : NeighborConfig} {o : Outcome}

theorem contains_iff (h : Opened asn ns o) (a : Address) :
    o.router.neighbors.contains a = true ↔ a ∈ ns.map (·.address) := by
  simp [Table.contains_iff,h.neighbors]

/-- Opening one more link fails exactly with the reason to refuse the neighbor. -/
theorem error_openLink (h : Opened asn ns o) :
    (openLink t ns.length n o.router).error = refusal? t ns n := by
  unfold openLink refusal?
  cases t.openFault ns.length n with
  | some error => rfl
  | none =>
    by_cases hn : n.address ∈ ns.map (·.address)
    · simp only [if_pos hn,Router.addNeighbor_of_contains ((h.contains_iff n.address).mpr hn)]
    · have hc : ¬ o.router.neighbors.contains n.address = true :=
        fun hc => hn ((h.contains_iff n.address).mp hc)
      simp only [if_neg hn,Router.addNeighbor,if_neg hc]

theorem andThen_openLink (h : Opened asn ns o) (i : Nat) :
    o.andThen (openLink t i n) = { openLink t i n o.router with
      actions := o.actions++(openLink t i n o.router).actions } := by
  simp only [Outcome.andThen,h.error]

theorem silent_andThen (h : Opened asn ns o) (i : Nat) : Silent (o.andThen (openLink t i n)) :=
  Outcome.forall_mem_andThen h.silent (silent_openLink i n o.router)

theorem step (h : Opened asn ns o) (hn : refusal? t ns n = none) :
    Opened asn (ns++[n]) (o.andThen (openLink t ns.length n)) := by
  have herror : (openLink t ns.length n o.router).error = none := h.error_openLink.trans hn
  have hf : t.openFault ns.length n = none := by
    unfold refusal? at hn
    cases hf : t.openFault ns.length n with
    | none => rfl
    | some error => simp [hf] at hn
  have hm : n.address ∉ ns.map (·.address) := by simpa [refusal?,hf] using hn
  have hc : ¬ o.router.neighbors.contains n.address = true := fun hc => hm ((h.contains_iff _).mp hc)
  have hr : (openLink t ns.length n o.router).router =
      (o.router.addNeighbor n.address n.relationship).router := by
    simp only [openLink,hf]
  have hs : Silent (o.andThen (openLink t ns.length n)) := h.silent_andThen _
  rw [h.andThen_openLink] at hs ⊢
  refine ⟨herror,?_,?_,fun a s => ?_,hs⟩
  · dsimp only
    rw [hr,Router.asn_addNeighbor,h.asn]
  · dsimp only
    rw [hr,Router.db_addNeighbor,h.db]
  · dsimp only
    rw [hr,Router.neighbors_addNeighbor]
    simp only [hc,Bool.false_eq_true,not_false_eq_true,and_true,List.mem_append,List.mem_singleton]
    by_cases ha : n.address = a
    · have hns : ¬ ∃ m ∈ ns, m.address = a ∧ m.relationship = s := by
        rintro ⟨m,hmem,hma,-⟩
        exact hm (List.mem_map.mpr ⟨m,hmem,hma.trans ha.symm⟩)
      rw [if_pos ha,Option.some_inj]
      grind
    · rw [if_neg ha,h.neighbors]
      grind

end Opened

theorem opened_openLinks {ns : List NeighborConfig} (h : Admitted t ns) :
    Opened asn ns (openLinks t { asn } ns) := by
  induction ns using List.reverseRecOn with
  | nil => exact ⟨rfl,rfl,rfl,by simp [openLinks],fun x hx => nomatch hx⟩
  | append_singleton ns n ih =>
    obtain ⟨ha,hn⟩ := admitted_concat.mp h
    rw [openLinks_concat]
    exact (ih ha).step hn

theorem start_of_opened {c : RouterConfig}
    (h : Opened c.asn c.neighbors (openLinks t { asn := c.asn } c.neighbors)) :
    let r := (openLinks t { asn := c.asn } c.neighbors).router
    (start t c).router = r ∧ (start t c).error = r.neighbors.keys.findSome? t.receiveFault ∧
      (start t c).attempts =
        r.neighbors.keys.map fun n => (n,Router.envelopeTo n (.handshake Router.emptyObject)) := by
  intro r
  have hs := h.silent.attempts
  have hg := Router.attempts_handshake r t.faults
  rw [Router.handshake_eq] at hg
  unfold Outcome.attempts at hs hg ⊢
  unfold start listen
  simp only [Outcome.andThen,h.error,Router.handshake_eq]
  cases r.neighbors.keys.findSome? t.receiveFault with
  | some error =>
    refine ⟨rfl,rfl,?_⟩
    simp only [List.append_nil,List.filterMap_append,hs,List.nil_append]
    exact hg
  | none =>
    refine ⟨rfl,rfl,?_⟩
    simp only [List.filterMap_append,hs,List.nil_append]
    exact (congrArg (·++[]) hg).trans (List.append_nil _)

theorem sent_start {c : RouterConfig} (h : Silent (openLinks t { asn := c.asn } c.neighbors)) :
    (start t c).sent =
      (start t c).attempts.filter fun m => (t.faults m.1 m.2).isNone := by
  refine Outcome.sent_of_under (Outcome.forall_mem_andThen (h.under t.faults) ?_)
  refine Outcome.forall_mem_andThen (Router.under_handshake _ t.faults) ?_
  refine Outcome.forall_mem_andThen (fun x hx => nomatch hx) ?_
  exact List.forall_mem_singleton.mpr (Action.under_told t.faults _)

theorem start_of_refused {c : RouterConfig} {earlier later : List NeighborConfig}
    {n : NeighborConfig} {error : Error} (hc : c.neighbors = earlier++n::later)
    (ha : Admitted t earlier) (hr : refusal? t earlier n = some error) :
    (start t c).error = some error ∧ (start t c).attempts = [] ∧ (start t c).sent = [] := by
  have h : Opened c.asn earlier (openLinks t { asn := c.asn } earlier) := opened_openLinks ha
  have herror : ((openLinks t { asn := c.asn } earlier).andThen
      (openLink t earlier.length n)).error = some error := by
    rw [h.andThen_openLink]
    exact h.error_openLink.trans hr
  have ho : start t c =
      (openLinks t { asn := c.asn } earlier).andThen (openLink t earlier.length n) := by
    rw [start,hc,openLinks_append,List.zipIdx_cons,List.foldl_cons,foldl_openLink_of_error herror,
      Outcome.andThen_of_error herror]
  have hs : Silent (start t c) := ho ▸ h.silent_andThen _
  rw [Outcome.sent_of_under (hs.under t.faults),hs.attempts]
  exact ⟨ho ▸ herror,rfl,rfl⟩

/-- Neighbors in another order make the same router. -/
theorem Opened.router_congr {ns ms : List NeighborConfig} {o p : Outcome} (ho : Opened asn ns o)
    (hp : Opened asn ms p) (h : ns.Perm ms) : o.router = p.router := by
  have ha := ho.asn.trans hp.asn.symm
  have hd := ho.db.trans hp.db.symm
  have hn : o.router.neighbors = p.router.neighbors := by
    refine Table.ext_get? fun a => Option.ext fun s => ?_
    rw [ho.neighbors,hp.neighbors]
    simp only [h.mem_iff]
  generalize o.router = q at ha hd hn
  generalize p.router = r at ha hd hn
  cases q
  cases r
  simp_all

/-- A router starts in three phases. Neighbors are added in the order of configuration. At the first
that cannot be added the start fails, with the reason of its link before the one that its address is
taken, and no message has been given to a link. If all are added, a handshake is given to each link
once in the order of addresses, and those are sent for which the link has no fault. Then the start
fails with the reason of the first link in that order that cannot be listened to, and if there is
none it succeeds. The router knows the configured neighbors and has learned nothing. All this is the
same for any other order of configuration in which each link opens. -/
theorem start_outcome (t : Transport) (c : RouterConfig) :
    let o := start t c
    (¬ Admitted t c.neighbors → ∃ earlier n later error, c.neighbors = earlier++n::later ∧
      Admitted t earlier ∧ refusal? t earlier n = some error) ∧
    (∀ earlier n later error, c.neighbors = earlier++n::later → Admitted t earlier →
      refusal? t earlier n = some error →
      o.error = some error ∧ o.attempts = [] ∧ o.sent = []) ∧
    (Admitted t c.neighbors →
      (∃ receivers : List Address, receivers.Pairwise (fun a b : Address => a.bits < b.bits) ∧
        (∀ a, a ∈ receivers ↔ ∃ n ∈ c.neighbors, n.address = a) ∧
        o.attempts = receivers.map (fun a => (a,⟨a.gateway,a,.handshake (.object [])⟩)) ∧
        o.sent = o.attempts.filter (fun m => (t.faults m.1 m.2).isNone) ∧
        o.error = receivers.findSome? t.receiveFault) ∧
      (o.router.asn = c.asn ∧ o.router.db = {} ∧ ∀ a s, o.router.neighbors.get? a = some s ↔
        ∃ n ∈ c.neighbors, n.address = a ∧ n.relationship = s) ∧
      ∀ ns, ns.Perm c.neighbors → ∀ openFault : Nat → NeighborConfig → Option Error,
        (∀ i n, ns[i]? = some n → openFault i n = none) →
        let p := start { t with openFault } { c with neighbors := ns }
        p.error = o.error ∧ p.router = o.router ∧ p.attempts = o.attempts ∧ p.sent = o.sent) := by
  intro o
  refine ⟨exists_refused,fun earlier n later error => start_of_refused,fun ha => ?_⟩
  have h : Opened c.asn c.neighbors _ := opened_openLinks ha
  obtain ⟨hrouter,herror,hattempts⟩ := start_of_opened h
  refine ⟨⟨_,?_,fun a => ?_,hattempts,sent_start h.silent,herror⟩,?_,
    fun ns hp openFault ho => ?_⟩
  · exact List.pairwise_map.mpr (Table.ascending _ |>.imp Address.compare_eq_lt.mp)
  · rw [Table.mem_keys_iff,h.contains_iff,List.mem_map]
  · rw [show o.router = _ from hrouter]
    exact ⟨h.asn,h.db,h.neighbors⟩
  · intro p
    have hd : (ns.map (·.address)).Nodup := (hp.map (·.address)).nodup_iff.mpr ha.distinct
    have hq : Opened c.asn ns (openLinks { t with openFault } { asn := c.asn } ns) :=
      opened_openLinks ⟨ho,hd⟩
    obtain ⟨prouter,perror,pattempts⟩ := start_of_opened (c := { c with neighbors := ns }) hq
    have hr := hq.router_congr h hp
    have hat : p.attempts = o.attempts := by
      rw [show p.attempts = _ from pattempts,show o.attempts = _ from hattempts,hr]
    refine ⟨?_,?_,hat,?_⟩
    · rw [show p.error = _ from perror,show o.error = _ from herror,hr]
    · exact prouter.trans (hr.trans hrouter.symm)
    · rw [show p.sent = _ from sent_start hq.silent,show o.sent = _ from sent_start h.silent]
      exact congrArg _ hat

/-- A neighbor is configured twice, and the second link to it cannot be opened. -/
theorem start_outcome_taken :
    let a : Address := .ofOctets 10 0 0 2
    let b : Address := .ofOctets 10 0 1 2
    let t : Transport := { openFault := fun i _ => if i = 2 then some .disconnected else none }
    let c : RouterConfig := ⟨7,[⟨1,b,.peer⟩,⟨2,a,.customer⟩,⟨1,b,.peer⟩,⟨4,a,.provider⟩]⟩
    Admitted t [⟨1,b,.peer⟩,⟨2,a,.customer⟩] ∧ (start t c).error = some .disconnected ∧
      (start t c).attempts = [] ∧ (start t c).sent = [] := by
  intro a b t c
  have h : Admitted t [⟨1,b,.peer⟩,⟨2,a,.customer⟩] := by
    refine ⟨fun i n hi => if_neg ?_,by decide⟩
    have hlt : i < 2 := (List.getElem?_eq_some_iff.mp hi).1
    omega
  exact ⟨h,(start_outcome t c).2.1 _ ⟨1,b,.peer⟩ [⟨4,a,.provider⟩] .disconnected rfl h rfl⟩

end Dispatcher
end PathVector
