import PathVector.Proofs.Run

/-! The database of a router as a function of what the router has handled. A route leads to the
neighbor whose update for it came last, unless that neighbor has withdrawn the network since; the
record of a neighbor holds all that it ever withdrew. -/
namespace PathVector

namespace Arrival

/-- The arrival is an update that installs `route`. -/
def Installs (a : Arrival) (route : Route) : Prop :=
  ∃ u, a.envelope.msg = .update u ∧ u.route = route

def IsWithdrawal (a : Arrival) : Prop := ∃ networks, a.envelope.msg = .withdraw networks

/-- The arrival is a withdrawal that names `network`. -/
def Withdraws (a : Arrival) (network : Network) : Prop :=
  ∃ networks, a.envelope.msg = .withdraw networks ∧ network ∈ networks

/-- The arrival tells something about routes. -/
def isControl (a : Arrival) : Bool :=
  match a.envelope.msg with
  | .update _ | .withdraw _ => true
  | _ => false

end Arrival

/-- Of the updates for `route` from neighbors the last came from `n`, and `n` has not withdrawn the
network after it. -/
def AnnouncedBy (neighbors : List Address) (history : List Arrival) (route : Route)
    (n : Address) : Prop :=
  ∃ before a later, history = before++a::later ∧ a.sender ∈ neighbors ∧ a.sender = n ∧
    a.Installs route ∧ ∀ b ∈ later, ¬ (b.sender ∈ neighbors ∧ b.Installs route) ∧
      ¬ (b.sender = n ∧ b.Withdraws route.network)

theorem not_announcedBy_nil (neighbors : List Address) (route : Route) (n : Address) :
    ¬ AnnouncedBy neighbors [] route n := by
  rintro ⟨before,a,later,h,-⟩
  simp at h

theorem AnnouncedBy.mem {neighbors : List Address} {history : List Arrival} {route : Route}
    {n : Address} (h : AnnouncedBy neighbors history route n) : n ∈ neighbors := by
  obtain ⟨before,a,later,-,hs,rfl,-⟩ := h
  exact hs

theorem exists_split_append {α : Type} {p q : α → Prop} {xs : List α} {a : α} :
    (∃ before x later, xs++[a] = before++x::later ∧ p x ∧ ∀ y ∈ later, ¬ q y) ↔
      p a ∨ (∃ before x later, xs = before++x::later ∧ p x ∧ ∀ y ∈ later, ¬ q y) ∧ ¬ q a := by
  constructor
  · rintro ⟨before,x,later,h,hx,hl⟩
    rcases List.eq_nil_or_concat later with rfl | ⟨later,y,rfl⟩
    · have ha := List.singleton_inj.mp (List.append_inj' h rfl).2
      exact .inl (ha ▸ hx)
    · have h : xs++[a] = (before++x::later)++[y] := by simpa using h
      obtain ⟨rfl,hy⟩ := List.append_inj' h rfl
      obtain rfl := List.singleton_inj.mp hy
      rw [List.concat_eq_append] at hl
      exact .inr ⟨⟨before,x,later,rfl,hx,fun y hy => hl y (List.mem_append_left _ hy)⟩,
        hl a (by simp)⟩
  · rintro (ha | ⟨⟨before,x,later,rfl,hx,hl⟩,ha⟩)
    · exact ⟨xs,a,[],rfl,ha,by simp⟩
    · refine ⟨before,x,later++[a],by simp,hx,fun y hy => ?_⟩
      rcases List.mem_append.mp hy with hy | hy
      · exact hl y hy
      · exact List.mem_singleton.mp hy ▸ ha

/-- What one more arrival does to the announcements in force. -/
theorem announcedBy_append (neighbors : List Address) (history : List Arrival) (a : Arrival)
    (route : Route) (n : Address) :
    AnnouncedBy neighbors (history++[a]) route n ↔
      (a.sender ∈ neighbors ∧ a.sender = n ∧ a.Installs route) ∨
      (AnnouncedBy neighbors history route n ∧ ¬ (a.sender ∈ neighbors ∧ a.Installs route) ∧
        ¬ (a.sender = n ∧ a.Withdraws route.network)) := by
  let p (b : Arrival) := b.sender ∈ neighbors ∧ b.sender = n ∧ b.Installs route
  let q (b : Arrival) := (b.sender ∈ neighbors ∧ b.Installs route) ∨
    (b.sender = n ∧ b.Withdraws route.network)
  have h : (∃ before x later, history++[a] = before++x::later ∧ p x ∧ ∀ y ∈ later, ¬ q y) ↔ _ :=
    exists_split_append
  simpa only [AnnouncedBy,p,q,not_or,and_assoc] using h

namespace Router

/-- The router with the given neighbors, added one after another. -/
def configured (asn : UInt32) (neighbors : List (Address × Relationship)) : Router :=
  Router.after { asn } (neighbors.map fun n => .add n.1 n.2)

theorem contains_configured (asn : UInt32) (neighbors : List (Address × Relationship))
    (n : Address) :
    (configured asn neighbors).neighbors.contains n = true ↔ n ∈ neighbors.map (·.1) := by
  have h (r : Router) : (r.after (neighbors.map fun n => .add n.1 n.2)).neighbors.contains n =
      true ↔ n ∈ neighbors.map (·.1) ∨ r.neighbors.contains n = true := by
    induction neighbors generalizing r with
    | nil => simp
    | cons m ns ih =>
      simp only [List.map_cons,after_cons,perform,ih,contains_addNeighbor,List.mem_cons]
      tauto
  rw [configured,h]
  simp [Table.contains]

theorem db_configured (asn : UInt32) (neighbors : List (Address × Relationship)) :
    (configured asn neighbors).db = {} := by
  have h (r : Router) : (r.after (neighbors.map fun n => .add n.1 n.2)).db = r.db := by
    induction neighbors generalizing r with
    | nil => rfl
    | cons m ns ih => simp only [List.map_cons,after_cons,perform,ih,db_addNeighbor]
  exact h { asn }

/-- The router after a list of messages. -/
def handleAll (r : Router) (history : List Arrival) : Router := r.after (history.map .receive)

theorem handleAll_append (r : Router) (history : List Arrival) (a : Arrival) :
    r.handleAll (history++[a]) =
      ((r.handleAll history).handle a.faults a.sender a.envelope).router := by
  simp [handleAll,after_append,perform]

theorem neighbors_handleAll (r : Router) (history : List Arrival) :
    (r.handleAll history).neighbors = r.neighbors := by
  induction history generalizing r with
  | nil => rfl
  | cons a as ih =>
    have hs : r.handleAll (a::as) =
        ((r.handle a.faults a.sender a.envelope).router).handleAll as := rfl
    rw [hs,ih,neighbors_handle]

theorem db_handleAll_append (r : Router) (history : List Arrival) (a : Arrival) :
    (r.handleAll (history++[a])).db =
      if r.neighbors.contains a.sender = true then
        (r.handleAll history).db.learn a.sender a.envelope.msg
      else (r.handleAll history).db := by
  rw [handleAll_append,router_handle,neighbors_handleAll]
  split <;> rfl

theorem nexthop?_learn (db : Database) (a : Arrival) (route : Route) (n : Address) :
    (db.learn a.sender a.envelope.msg).nexthop? route = some n ↔
      (a.sender = n ∧ a.Installs route) ∨
      (db.nexthop? route = some n ∧ ¬ a.Installs route ∧
        ¬ (a.sender = n ∧ a.Withdraws route.network)) := by
  unfold Arrival.Installs Arrival.Withdraws
  cases hm : a.envelope.msg with
  | update u =>
    by_cases hu : u.route = route <;> simp [Database.learn,Database.nexthop?_insert,hu]
  | withdraw networks =>
    simp only [Database.learn,Database.nexthop?_withdraw]
    by_cases hn : db.nexthop? route = some a.sender
    · by_cases hw : route.network ∈ networks <;> simp [hn,hw]
    · by_cases ha : a.sender = n
      · simp [← ha,hn]
      · simp [ha,hn]
  | _ => simp [Database.learn]

/-- The routes of the database are the announcements in force. -/
theorem nexthop?_handleAll (asn : UInt32) (neighbors : List (Address × Relationship))
    (history : List Arrival) (route : Route) (n : Address) :
    ((configured asn neighbors).handleAll history).db.nexthop? route = some n ↔
      AnnouncedBy (neighbors.map (·.1)) history route n := by
  induction history using List.reverseRecOn generalizing n with
  | nil =>
    have h : ((configured asn neighbors).handleAll []).db = {} := db_configured asn neighbors
    simp [h,Database.nexthop?,not_announcedBy_nil]
  | append_singleton history a ih =>
    rw [announcedBy_append,db_handleAll_append]
    simp only [contains_configured]
    split
    · rename_i hs
      simp only [nexthop?_learn,ih,hs,true_and]
    · rename_i hs
      -- A stranger announces nothing, and what is in force comes from a neighbor.
      have hn (h : AnnouncedBy (neighbors.map (·.1)) history route n) : a.sender ≠ n :=
        fun he => hs (he ▸ h.mem)
      rw [ih]
      tauto

theorem revoked_learn (db : Database) (a : Arrival) (n : Address) (p : Network) :
    (db.learn a.sender a.envelope.msg).Revoked n p ↔
      db.Revoked n p ∨ (a.sender = n ∧ a.Withdraws p) := by
  unfold Arrival.Withdraws
  cases hm : a.envelope.msg with
  | withdraw networks =>
    simp only [Database.learn,Database.revoked_withdraw,Message.withdraw.injEq,exists_eq_left']
    exact or_comm
  | _ => simp [Database.learn,Database.Revoked,Database.revoked?_insert]

theorem revoked?_learn_eq_none (db : Database) (a : Arrival) (n : Address) :
    (db.learn a.sender a.envelope.msg).revoked? n = none ↔
      db.revoked? n = none ∧ ¬ (a.sender = n ∧ a.IsWithdrawal) := by
  unfold Arrival.IsWithdrawal
  cases hm : a.envelope.msg with
  | withdraw networks =>
    simp only [Database.learn,Database.revoked?_withdraw]
    by_cases ha : a.sender = n <;> simp [ha]
  | _ => simp [Database.learn,Database.revoked?_insert]

theorem revoked_handleAll (asn : UInt32) (neighbors : List (Address × Relationship))
    (history : List Arrival) (n : Address) (p : Network) :
    ((configured asn neighbors).handleAll history).db.Revoked n p ↔
      ∃ a ∈ history, a.sender ∈ neighbors.map (·.1) ∧ a.sender = n ∧ a.Withdraws p := by
  induction history using List.reverseRecOn with
  | nil =>
    have h : ((configured asn neighbors).handleAll []).db = {} := db_configured asn neighbors
    simp [h,Database.Revoked,Database.revoked?]
  | append_singleton history a ih =>
    rw [db_handleAll_append]
    simp only [contains_configured,List.mem_append,List.mem_singleton,or_and_right,exists_or,
      exists_eq_left,← ih]
    split
    · rename_i hs
      simp only [revoked_learn,hs,true_and]
    · rename_i hs
      simp only [hs,false_and,or_false]

/-- There is a record of a neighbor once it has withdrawn anything, if only an empty list. -/
theorem revoked?_handleAll_eq_none (asn : UInt32) (neighbors : List (Address × Relationship))
    (history : List Arrival) (n : Address) :
    ((configured asn neighbors).handleAll history).db.revoked? n = none ↔
      ∀ a ∈ history, ¬ (a.sender ∈ neighbors.map (·.1) ∧ a.sender = n ∧ a.IsWithdrawal) := by
  induction history using List.reverseRecOn with
  | nil =>
    have h : ((configured asn neighbors).handleAll []).db = {} := db_configured asn neighbors
    simp [h,Database.revoked?]
  | append_singleton history a ih =>
    rw [db_handleAll_append]
    simp only [contains_configured,List.forall_mem_append,List.forall_mem_singleton,← ih]
    split
    · rename_i hs
      simp only [revoked?_learn_eq_none,hs,true_and]
    · rename_i hs
      simp only [hs,false_and,not_false_eq_true,and_true]

theorem learn_of_not_isControl {a : Arrival} (h : a.isControl = false) (db : Database) :
    db.learn a.sender a.envelope.msg = db := by
  unfold Arrival.isControl at h
  cases hm : a.envelope.msg with
  | update u => simp [hm] at h
  | withdraw networks => simp [hm] at h
  | _ => rfl

/-- Only what neighbors announce and withdraw counts. -/
theorem db_handleAll_filter (asn : UInt32) (neighbors : List (Address × Relationship))
    (history : List Arrival) :
    ((configured asn neighbors).handleAll
        (history.filter fun a => a.sender ∈ neighbors.map (·.1) && a.isControl)).db =
      ((configured asn neighbors).handleAll history).db := by
  induction history using List.reverseRecOn with
  | nil => rfl
  | append_singleton history a ih =>
    rw [List.filter_append,db_handleAll_append _ history]
    simp only [contains_configured]
    by_cases hs : a.sender ∈ neighbors.map (·.1)
    · cases hc : a.isControl with
      | true =>
        simp only [List.filter_cons,hs,hc,decide_true,Bool.and_self,if_true,List.filter_nil]
        rw [db_handleAll_append,ih]
        simp only [contains_configured,hs,if_true]
      | false =>
        simp only [List.filter_cons,hc,Bool.and_false,Bool.false_eq_true,if_false,List.filter_nil,
          List.append_nil,ih,learn_of_not_isControl hc,ite_self]
    · simp only [List.filter_cons,hs,decide_false,Bool.false_and,Bool.false_eq_true,if_false,
        List.filter_nil,List.append_nil,ih]

/-- The database of a router that was given its neighbors and then handled a list of messages, of
any kinds and senders and over links in any condition. It is a function of the announcements and
withdrawals of neighbors alone. -/
theorem database_of_history (asn : UInt32) (neighbors : List (Address × Relationship))
    (history : List Arrival) :
    let db := ((configured asn neighbors).handleAll history).db
    let senders := neighbors.map (·.1)
    (∀ route n, db.nexthop? route = some n ↔ AnnouncedBy senders history route n) ∧
    (∀ n, db.revoked? n = none ↔
      ∀ a ∈ history, ¬ (a.sender ∈ senders ∧ a.sender = n ∧ a.IsWithdrawal)) ∧
    (∀ n p, (∃ s, db.revoked? n = some s ∧ s.contains p = true) ↔
      ∃ a ∈ history, a.sender ∈ senders ∧ a.sender = n ∧ a.Withdraws p) ∧
    db = ((configured asn neighbors).handleAll
      (history.filter fun a => a.sender ∈ senders && a.isControl)).db := by
  intro db senders
  exact ⟨nexthop?_handleAll asn neighbors history,revoked?_handleAll_eq_none asn neighbors history,
    revoked_handleAll asn neighbors history,(db_handleAll_filter asn neighbors history).symm⟩

end Router
end PathVector
