import PathVector.Proofs.Relay

/-! The order in which messages of different neighbors come in. Two such messages can be exchanged
without a difference to the database, unless both announce the very same route: what one neighbor
withdraws is never what another has announced last. So it does not matter how the messages of the
neighbors are interleaved, as long as the announcements of each route keep their order. -/
namespace PathVector

namespace Arrival

/-- The route that an update installs. -/
def route? (a : Arrival) : Option Route :=
  match a.envelope.msg with
  | .update u => some u.route
  | _ => none

theorem installs_iff {a : Arrival} {route : Route} : a.Installs route ↔ a.route? = some route := by
  unfold Installs route?
  cases a.envelope.msg <;> simp

instance (a : Arrival) (route : Route) : Decidable (a.Installs route) :=
  decidable_of_iff' _ installs_iff

end Arrival

namespace Database

theorem revoked?_learn_of_ne (db : Database) {a : Arrival} {n : Address} (h : a.sender ≠ n) :
    (db.learn a.sender a.envelope.msg).revoked? n = db.revoked? n := by
  cases a.envelope.msg with
  | withdraw networks => simp [learn,revoked?_withdraw,h]
  | _ => rfl

theorem revoked?_learn_congr {db other : Database} {a : Arrival}
    (h : db.revoked? a.sender = other.revoked? a.sender) :
    (db.learn a.sender a.envelope.msg).revoked? a.sender =
      (other.learn a.sender a.envelope.msg).revoked? a.sender := by
  cases a.envelope.msg with
  | withdraw networks => simp only [learn,revoked?_withdraw,h]
  | _ => exact h

/-- Messages of different neighbors can be exchanged exactly if they do not announce the same route.
-/
theorem learn_comm_iff (db : Database) {a b : Arrival} (h : a.sender ≠ b.sender) :
    (db.learn a.sender a.envelope.msg).learn b.sender b.envelope.msg =
      (db.learn b.sender b.envelope.msg).learn a.sender a.envelope.msg ↔
    ∀ route, ¬ (a.Installs route ∧ b.Installs route) := by
  constructor
  · rintro he route ⟨ha,hb⟩
    have hlast : ((db.learn a.sender a.envelope.msg).learn b.sender b.envelope.msg).nexthop? route =
        some b.sender := (Router.nexthop?_learn _ b route b.sender).mpr (.inl ⟨rfl,hb⟩)
    rw [he,Router.nexthop?_learn] at hlast
    rcases hlast with ⟨hab,-⟩ | ⟨-,hn,-⟩
    · exact h hab
    · exact hn ha
  · intro hr
    apply ext_lookup
    · intro route
      have hr := hr route
      apply Option.ext
      intro n
      simp only [Router.nexthop?_learn]
      by_cases ha : a.sender = n
      · have hb : b.sender ≠ n := fun hb => h (ha.trans hb.symm)
        simp only [ha,hb]
        grind
      · simp only [ha]
        grind
    · intro n
      by_cases ha : a.sender = n
      · subst ha
        rw [revoked?_learn_of_ne _ h.symm]
        exact revoked?_learn_congr (revoked?_learn_of_ne db h.symm).symm
      · rw [revoked?_learn_of_ne _ ha]
        by_cases hb : b.sender = n
        · subst hb
          exact revoked?_learn_congr (revoked?_learn_of_ne db h)
        · rw [revoked?_learn_of_ne _ hb,revoked?_learn_of_ne _ hb,revoked?_learn_of_ne _ ha]

end Database

/-- Two histories in which the messages of each neighbor come in the same order and, of each route,
the updates come from the same neighbors in turn. Links may behave differently in the two. -/
structure Reordered (first second : List Arrival) : Prop where
  own : ∀ n, (first.filter (·.sender = n)).map (·.envelope) =
    (second.filter (·.sender = n)).map (·.envelope)
  turns : ∀ route, (first.filter (·.Installs route)).map (·.sender) =
    (second.filter (·.Installs route)).map (·.sender)

theorem Arrival.installs_congr {a b : Arrival} (h : a.envelope = b.envelope) (route : Route) :
    a.Installs route ↔ b.Installs route := by
  unfold Installs
  rw [h]

namespace Reordered

theorem eq_nil {second : List Arrival} (h : Reordered [] second) : second = [] := by
  cases second with
  | nil => rfl
  | cons b bs => simpa using h.own b.sender

/-- The first message of one history is in the other one the first of its sender. What stands before
it there does not announce the same route, and without it the histories still agree. -/
theorem exists_first {a : Arrival} {as second : List Arrival} (h : Reordered (a::as) second) :
    ∃ before b later, second = before++b::later ∧ b.sender = a.sender ∧ b.envelope = a.envelope ∧
      (∀ c ∈ before, c.sender ≠ b.sender ∧ ∀ route, ¬ (c.Installs route ∧ b.Installs route)) ∧
      Reordered as (before++later) := by
  have ha := h.own a.sender
  rw [List.filter_cons_of_pos (by simp),List.map_cons,eq_comm,List.map_eq_cons_iff] at ha
  obtain ⟨b,rest,hf,hb,hrest⟩ := ha
  obtain ⟨before,later,rfl,hbefore,hs,rfl⟩ := List.filter_eq_cons_iff.mp hf
  have hs : b.sender = a.sender := by simpa using hs
  have hne : ∀ c ∈ before, c.sender ≠ b.sender := fun c hc => by
    rw [hs]
    simpa using hbefore c hc
  have hi : ∀ route, b.Installs route → ∀ c ∈ before, ¬ c.Installs route := by
    intro route hbr c hc hcr
    have ht := h.turns route
    have har : a.Installs route := (Arrival.installs_congr hb route).mp hbr
    rw [List.filter_cons_of_pos (by simpa using har),List.map_cons,List.filter_append,
      List.map_append] at ht
    -- The first to announce the route would be a sender that stands before `b`.
    cases hd : before.filter (·.Installs route) with
    | nil => exact List.filter_eq_nil_iff.mp hd c hc (by simpa using hcr)
    | cons d ds =>
      rw [hd,List.map_cons,List.cons_append,List.cons.injEq] at ht
      have hdm : d ∈ before := List.mem_of_mem_filter (hd ▸ List.mem_cons_self)
      exact hne d hdm (ht.1.symm.trans hs.symm)
  refine ⟨before,b,later,rfl,hs,hb,fun c hc => ⟨hne c hc,fun route hr => hi route hr.2 c hc hr.1⟩,
    ⟨fun n => ?_,fun route => ?_⟩⟩
  · have hn := h.own n
    by_cases han : a.sender = n
    · have hnil : before.filter (·.sender = n) = [] :=
        List.filter_eq_nil_iff.mpr fun c hc => by simpa [← han,← hs] using hne c hc
      simpa [List.filter_cons,han,hnil,hs,hb] using hn
    · simpa [List.filter_cons,han,hs] using hn
  · have ht := h.turns route
    have hab := Arrival.installs_congr hb route
    by_cases har : a.Installs route
    · have hnil : before.filter (·.Installs route) = [] :=
        List.filter_eq_nil_iff.mpr fun c hc => by simpa using hi route (hab.mpr har) c hc
      simpa [List.filter_cons,har,hab,hnil,hs] using ht
    · simpa [List.filter_cons,har,hab] using ht

theorem exchange (before later : List Arrival) {a b : Arrival} (h : a.sender ≠ b.sender)
    (hr : ∀ route, ¬ (a.Installs route ∧ b.Installs route)) :
    Reordered (before++a::b::later) (before++b::a::later) where
  own n := by
    by_cases ha : a.sender = n
    · have hb : b.sender ≠ n := fun hb => h (ha.trans hb.symm)
      simp [ha,hb]
    · simp [List.filter_cons,ha]
  turns route := by
    have hr := hr route
    by_cases ha : a.Installs route
    · have hb : ¬ b.Installs route := fun hb => hr ⟨ha,hb⟩
      simp [ha,hb]
    · simp [List.filter_cons,ha]

theorem exists_of_mem {first second : List Arrival} (h : Reordered first second) {b : Arrival}
    (hb : b ∈ second) : ∃ a ∈ first, a.sender = b.sender ∧ a.envelope = b.envelope := by
  have he : b.envelope ∈ (second.filter (·.sender = b.sender)).map (·.envelope) :=
    List.mem_map_of_mem (List.mem_filter.mpr ⟨hb,by simp⟩)
  rw [← h.own,List.mem_map] at he
  obtain ⟨a,ha,he⟩ := he
  obtain ⟨ha,hs⟩ := List.mem_filter.mp ha
  exact ⟨a,ha,by simpa using hs,he⟩

end Reordered

namespace Router

theorem handleAll_cons (r : Router) (a : Arrival) (as : List Arrival) :
    r.handleAll (a::as) = (r.handleAll [a]).handleAll as := rfl

theorem handleAll_singleton (r : Router) (a : Arrival) :
    r.handleAll [a] =
      if r.neighbors.contains a.sender = true then
        { r with db := r.db.learn a.sender a.envelope.msg }
      else r :=
  router_handle r a.faults a.sender a.envelope

theorem handleAll_pair_comm (r : Router) {a b : Arrival} (h : a.sender ≠ b.sender)
    (hr : ∀ route, ¬ (a.Installs route ∧ b.Installs route)) :
    r.handleAll [a,b] = r.handleAll [b,a] := by
  have hc := (r.db.learn_comm_iff h).mpr hr
  rw [handleAll_cons,handleAll_cons r b]
  simp only [handleAll_singleton]
  by_cases ha : r.neighbors.contains a.sender = true
  · by_cases hb : r.neighbors.contains b.sender = true
    · simp [ha,hb,hc]
    · simp [ha,hb]
  · by_cases hb : r.neighbors.contains b.sender = true
    · simp [ha,hb]
    · simp [ha,hb]

theorem handleAll_front (r : Router) {before : List Arrival} {b : Arrival} (later : List Arrival)
    (h : ∀ c ∈ before, c.sender ≠ b.sender ∧ ∀ route, ¬ (c.Installs route ∧ b.Installs route)) :
    r.handleAll (before++b::later) = r.handleAll (b::(before++later)) := by
  induction before generalizing r with
  | nil => rfl
  | cons c before ih =>
    obtain ⟨hc,hbefore⟩ := List.forall_mem_cons.mp h
    have hpair := handleAll_pair_comm r hc.1 hc.2
    calc r.handleAll (c::before++b::later)
        = (r.handleAll [c]).handleAll (b::(before++later)) := ih (r.handleAll [c]) hbefore
      _ = (r.handleAll [c,b]).handleAll (before++later) := rfl
      _ = (r.handleAll [b,c]).handleAll (before++later) := by rw [hpair]
      _ = r.handleAll (b::(c::before++later)) := rfl

/-- The router comes to the same state in both orders, whatever kinds of messages there are. -/
theorem handleAll_reordered (r : Router) {first second : List Arrival}
    (h : Reordered first second) : r.handleAll first = r.handleAll second := by
  induction first generalizing r second with
  | nil => rw [h.eq_nil]
  | cons a as ih =>
    obtain ⟨before,b,later,rfl,hs,he,hbefore,hrest⟩ := h.exists_first
    have hab : r.handleAll [a] = r.handleAll [b] := by
      rw [handleAll_singleton,handleAll_singleton,hs,he]
    rw [handleAll_front r later hbefore,handleAll_cons,hab,ih _ hrest,← handleAll_cons]

theorem exports_reordered (r : Router) {first second : List Arrival} (h : Reordered first second) :
    (first.flatMap r.exports).Perm (second.flatMap r.exports) := by
  induction first generalizing second with
  | nil => rw [h.eq_nil]
  | cons a as ih =>
    obtain ⟨before,b,later,rfl,hs,he,-,hrest⟩ := h.exists_first
    have hab : r.exports a = r.exports b := by
      simp only [exports,hs,he]
    have hfront : (before++b::later).Perm (b::(before++later)) := List.perm_middle
    have hout := hfront.flatMap_right r.exports
    rw [List.flatMap_cons] at hout ⊢
    rw [hab]
    exact ((ih hrest).append_left _).trans hout.symm

theorem attempts_reordered (r : Router) {first second : List Arrival}
    (hc : ∀ a ∈ first, a.isControl = true) (h : Reordered first second) :
    ((r.deeds first).filterMap Action.attempt?).Perm
      ((r.deeds second).filterMap Action.attempt?) := by
  have hc' : ∀ b ∈ second, b.isControl = true := fun b hb => by
    obtain ⟨a,ha,-,he⟩ := h.exists_of_mem hb
    have hac := hc a ha
    rwa [Arrival.isControl,he] at hac
  rw [attempts_deeds r hc,attempts_deeds r hc']
  exact exports_reordered r h

/-- Announcements and withdrawals of the neighbors may be interleaved in any way that keeps the
order of each neighbor's own and, for each route, the order in which neighbors announce it. The
router comes to the same state, table and records, from any state; each link is given the same
messages in some order; and it takes the same, if the links behave alike throughout. -/
theorem order_independent (r : Router) {first second : List Arrival}
    (hc : ∀ a ∈ first, a.isControl = true) (h : Reordered first second) :
    r.handleAll first = r.handleAll second ∧
    (∀ n, (r.triedTo first n).Perm (r.triedTo second n)) ∧
    ∀ faults, (∀ a ∈ first++second, a.faults = faults) →
      ∀ n, (r.sentTo first n).Perm (r.sentTo second n) := by
  have ha := attempts_reordered r hc h
  refine ⟨handleAll_reordered r h,fun n => ha.filterMap _,fun faults hf n => ?_⟩
  obtain ⟨hfirst,hsecond⟩ := List.forall_mem_append.mp hf
  unfold sentTo
  rw [sent_deeds r hfirst,sent_deeds r hsecond]
  exact (ha.filter _).filterMap _

private def left : Address := .ofOctets 192 168 0 2

private def right : Address := .ofOctets 10 0 0 2

private def observer : Address := .ofOctets 172 168 0 2

private def common : Update := ⟨⟨.ofOctets 10 1 0 0,.ofLength 16⟩,[4],none,none,none⟩

private def announces (n : Address) : Arrival where
  sender := n
  envelope := ⟨n,n.gateway,.update common⟩

private def retracts : Arrival where
  sender := left
  envelope := ⟨left,left.gateway,.withdraw [common.network]⟩

/-- One neighbor withdraws a route that the other has announced or is about to announce. -/
theorem order_independent_retraction :
    let r := configured 7 [(left,.customer),(right,.customer),(observer,.peer)]
    let first := [announces left,announces right,retracts]
    let second := [announces left,retracts,announces right]
    (∀ a ∈ first, a.isControl = true) ∧ Reordered first second ∧
      (r.handleAll second).db.nexthop? common.route = some right ∧
      (r.sentTo first observer).Perm (r.sentTo second observer) := by
  intro r first second
  have hc : ∀ a ∈ first, a.isControl = true := by decide
  have hr : ∀ route, ¬ ((announces right).Installs route ∧ retracts.Installs route) := by
    rintro route ⟨-,u,hu,-⟩
    cases hu
  have h : Reordered first second := Reordered.exchange [announces left] [] (by decide) hr
  obtain ⟨hstate,-,hsent⟩ := order_independent r hc h
  have hn : (r.handleAll first).db.nexthop? common.route = some right := by decide
  exact ⟨hc,h,hstate ▸ hn,hsent (fun _ _ => none) (by simp [first,second,announces,retracts]) _⟩

end Router
end PathVector
