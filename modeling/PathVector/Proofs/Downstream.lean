import PathVector.Proofs.Agreement
import PathVector.Proofs.Codec

/-! What a neighbor believes that learns from one router only. Of all that the router learns, the
neighbor hears what the policy lets through, without attributes and with the router's number in
front of the path. Routes that differ in their attributes only are one route to it, and a withdrawal
that is let through takes away every path to the network, whoever announced it to the router. -/
namespace PathVector

/-- The arrival is an update for this network and path. -/
def Arrival.Announces (a : Arrival) (network : Network) (path : List UInt32) : Prop :=
  ∃ u, a.envelope.msg = .update u ∧ u.network = network ∧ u.asPath = path

theorem Envelope.carried_of_relayed? {r : Router} {m msg : Message} (h : r.relayed? m = some msg)
    (n : Address) : (Router.envelopeTo n msg).carried = .ok (Router.envelopeTo n msg) := by
  apply ofWire_of_portable
  intro j hj
  cases m with
  | update u =>
    cases h
    cases hj
  | withdraw networks =>
    cases h
    cases hj
  | _ => cases h

namespace Router

/-- The policy lets what `n` tells through to `d`. -/
def Feeds (r : Router) (n d : Address) : Prop :=
  ∃ source target, r.relationship n = .ok source ∧ r.relationship d = .ok target ∧
    source.exports target = true

/-- An update for the network and path was let through to `d`, and no withdrawal of the network has
been let through since. -/
def Conveyed (r : Router) (d : Address) (history : List Arrival) (network : Network)
    (path : List UInt32) : Prop :=
  ∃ before x later, history = before++x::later ∧ (r.Feeds x.sender d ∧ x.Announces network path) ∧
    ∀ y ∈ later, ¬ (r.Feeds y.sender d ∧ y.Withdraws network)

theorem conveyed_append (r : Router) (d : Address) (history : List Arrival) (a : Arrival)
    (network : Network) (path : List UInt32) :
    r.Conveyed d (history++[a]) network path ↔
      (r.Feeds a.sender d ∧ a.Announces network path) ∨
      (r.Conveyed d history network path ∧ ¬ (r.Feeds a.sender d ∧ a.Withdraws network)) :=
  exists_split_append

theorem addressed_append (n : Address) (ms more : List (Address × Envelope)) :
    addressed n (ms++more) = addressed n ms++addressed n more :=
  List.filterMap_append

theorem addressed_eq_nil {n : Address} {ms : List (Address × Envelope)}
    (h : ∀ m ∈ ms, m.1 ≠ n) : addressed n ms = [] :=
  List.filterMap_eq_nil_iff.mpr fun m hm => if_neg (h m hm)

theorem addressed_filter {n : Address} {faults : LinkFaults} (h : ∀ e, faults n e = none)
    (ms : List (Address × Envelope)) :
    addressed n (ms.filter fun m => (faults m.1 m.2).isNone) = addressed n ms := by
  unfold addressed
  rw [List.filterMap_filter]
  apply List.filterMap_congr
  intro m _
  by_cases hm : m.1 = n
  · simp [hm,h]
  · simp [hm]

theorem addressed_map_of_mem {n : Address} {ns : List Address} (hnodup : ns.Nodup) (hn : n ∈ ns)
    (f : Address → Envelope) : addressed n (ns.map fun m => (m,f m)) = [f n] := by
  obtain ⟨before,later,rfl⟩ := List.append_of_mem hn
  have hb : ∀ m ∈ before, m ≠ n := fun m hm he =>
    (List.nodup_append.mp hnodup).2.2 m hm n List.mem_cons_self he
  have hl : ∀ m ∈ later, m ≠ n := fun m hm he =>
    (List.nodup_cons.mp (List.nodup_append.mp hnodup).2.1).1 (he ▸ hm)
  rw [List.map_append,List.map_cons,addressed_append,addressed_eq_nil (by simpa using hb)]
  have hlater : addressed n (later.map fun m => (m,f m)) = [] :=
    addressed_eq_nil (by simpa using hl)
  unfold addressed at hlater ⊢
  simp [hlater]

theorem nodup_audience (r : Router) (sender : Address) (source : Relationship) :
    (r.audience sender source).Nodup :=
  (audience_ascending r sender source).imp fun {a b} h he => by simp [he] at h

theorem addressed_exports_of_feeds {r : Router} {a : Arrival} {d : Address} {msg : Message}
    (h : r.Feeds a.sender d) (hd : a.sender ≠ d) (hm : r.relayed? a.envelope.msg = some msg) :
    addressed d (r.exports a) = [envelopeTo d msg] := by
  obtain ⟨source,target,hs,ht,he⟩ := h
  rw [exports_eq hs hm]
  apply addressed_map_of_mem (nodup_audience r a.sender source)
  exact mem_audience_iff.mpr ⟨hd.symm,target,ht,(Relationship.exports_iff source target).mp he⟩

theorem addressed_exports_of_not_feeds {r : Router} {a : Arrival} {d : Address}
    (h : ¬ r.Feeds a.sender d) : addressed d (r.exports a) = [] := by
  apply addressed_eq_nil
  rintro ⟨n,e⟩ hn rfl
  obtain ⟨source,target,_,hs,ht,-,hc,-⟩ := mem_exports_iff.mp hn
  exact h ⟨source,target,hs,ht,(Relationship.exports_iff source target).mpr hc⟩

theorem receiver_of_mem_attempts {r : Router} {a : Arrival} (h : a.isControl = false)
    {m : Address × Envelope} (hm : m ∈ (r.handle a.faults a.sender a.envelope).attempts) :
    m.1 = a.sender ∨ ∃ route, r.db.nexthop? route = some m.1 := by
  have hr := response_handle r a.faults a.sender a.envelope
  generalize (r.handle a.faults a.sender a.envelope).attempts = ms at hm hr
  cases hr with
  | silence => cases hm
  | propagation _ hk he =>
    rw [← he] at hk
    unfold Arrival.isControl at h
    cases hmsg : a.envelope.msg <;> simp [hmsg,Message.kind] at h hk
  | @forward source target route n payload _ _ hb _ _ =>
    cases List.mem_singleton.mp hm
    exact .inr ⟨route,(Table.get?_eq_some_iff r.db.rib route n).mpr
      (Rib.mem_entries_of_bestPath? hb)⟩
  | answer _ =>
    cases List.mem_singleton.mp hm
    exact .inl rfl

/-- The messages that come out at the far end of the link to `n`, each as its text reads there. -/
def arriving (r : Router) (history : List Arrival) (n : Address) : List Envelope :=
  (r.sentTo history n).filterMap fun e => e.carried.toOption

theorem sentTo_append (r : Router) (history : List Arrival) (a : Arrival) (n : Address) :
    r.sentTo (history++[a]) n = r.sentTo history n++
      addressed n ((r.handleAll history).handle a.faults a.sender a.envelope).sent := by
  rw [sentTo,deeds_append,List.filterMap_append,addressed_append,deeds,deeds,List.append_nil]
  rfl

section Step

variable (r : Router) (history : List Arrival) {a : Arrival} {d : Address}

theorem arriving_append_of_nil
    (h : addressed d ((r.handleAll history).handle a.faults a.sender a.envelope).attempts = []) :
    r.arriving (history++[a]) d = r.arriving history d := by
  have hs : addressed d ((r.handleAll history).handle a.faults a.sender a.envelope).sent = [] := by
    rw [sent_handle]
    apply addressed_eq_nil
    intro m hm he
    have hne := List.filterMap_eq_nil_iff.mp h m (List.mem_of_mem_filter hm)
    simp [he] at hne
  rw [arriving,sentTo_append,hs,List.append_nil]
  rfl

/-- What tells nothing about routes does not reach `d`, if it does not come from there and no route
leads there. -/
theorem arriving_append_of_not_isControl (hc : a.isControl = false) (hd : a.sender ≠ d)
    (hn : ∀ route, (r.handleAll history).db.nexthop? route ≠ some d) :
    r.arriving (history++[a]) d = r.arriving history d := by
  apply arriving_append_of_nil
  apply addressed_eq_nil
  rintro m hm rfl
  rcases receiver_of_mem_attempts hc hm with he | ⟨route,hr⟩
  · exact hd he.symm
  · exact hn route hr

theorem arriving_append_of_not_feeds (hc : a.isControl = true) (hf : ¬ r.Feeds a.sender d) :
    r.arriving (history++[a]) d = r.arriving history d := by
  apply arriving_append_of_nil
  rw [attempts_handle_of_isControl _ hc,exports_handleAll]
  exact addressed_exports_of_not_feeds hf

theorem arriving_append_of_feeds {msg : Message} (hm : r.relayed? a.envelope.msg = some msg)
    (hf : r.Feeds a.sender d) (hd : a.sender ≠ d) (hl : ∀ e, a.faults d e = none) :
    r.arriving (history++[a]) d = r.arriving history d++[envelopeTo d msg] := by
  have hc := isControl_of_relayed? hm
  have hs : addressed d ((r.handleAll history).handle a.faults a.sender a.envelope).sent =
      [envelopeTo d msg] := by
    rw [sent_handle,addressed_filter hl,attempts_handle_of_isControl _ hc,exports_handleAll]
    exact addressed_exports_of_feeds hf hd hm
  rw [arriving,sentTo_append,hs,List.filterMap_append]
  simp only [List.filterMap_cons,List.filterMap_nil,Envelope.carried_of_relayed? hm]
  rfl

end Step

/-- The route that a neighbor installs when the router with this number passes a path on to it. -/
def passedOn (asn : UInt32) (network : Network) (path : List UInt32) : Route :=
  ⟨network,⟨asn::path,defaultLocalPref,false,.unknown⟩⟩

section Relayed

variable {r : Router} {a b : Arrival} (h : r.relayed? a.envelope.msg = some b.envelope.msg)

include h

theorem installs_relayed (route : Route) : b.Installs route ↔
    ∃ network path, route = passedOn r.asn network path ∧ a.Announces network path := by
  unfold Arrival.Installs Arrival.Announces
  cases hm : a.envelope.msg with
  | update u =>
    rw [hm,relayed?,Option.some.injEq] at h
    rw [← h]
    simp only [Message.update.injEq,exists_eq_left']
    constructor
    · rintro rfl
      exact ⟨u.network,u.asPath,rfl,rfl,rfl⟩
    · rintro ⟨_,_,rfl,rfl,rfl⟩
      rfl
  | withdraw networks =>
    rw [hm,relayed?,Option.some.injEq] at h
    rw [← h]
    simp
  | _ => simp [hm,relayed?] at h

theorem withdraws_relayed (network : Network) : b.Withdraws network ↔ a.Withdraws network := by
  unfold Arrival.Withdraws
  cases hm : a.envelope.msg with
  | update u =>
    rw [hm,relayed?,Option.some.injEq] at h
    rw [← h]
    simp
  | withdraw networks =>
    rw [hm,relayed?,Option.some.injEq] at h
    rw [← h]
  | _ => simp [hm,relayed?] at h

end Relayed

/-- All routes of the database lead to `a`, and they are those that number `asn` has passed on of
what was heard there. -/
def Believes (db : Database) (a : Address) (asn : UInt32)
    (heard : Network → List UInt32 → Prop) : Prop :=
  ∀ route n, db.nexthop? route = some n ↔
    n = a ∧ ∃ network path, route = passedOn asn network path ∧ heard network path

namespace Believes

variable {db : Database} {a : Address} {asn : UInt32} {heard : Network → List UInt32 → Prop}

theorem empty (h : ∀ network path, ¬ heard network path) : Believes {} a asn heard := by
  intro route n
  simp [Database.nexthop?,h]

theorem congr (hb : Believes db a asn heard) {other : Network → List UInt32 → Prop}
    (h : ∀ network path, other network path ↔ heard network path) : Believes db a asn other := by
  intro route n
  simp only [h]
  exact hb route n

/-- What is passed on of `x` comes in as `y`. A withdrawal takes away all paths to its networks. -/
theorem learn {r : Router} {x y : Arrival} (hb : Believes db y.sender r.asn heard)
    (h : r.relayed? x.envelope.msg = some y.envelope.msg) :
    Believes (db.learn y.sender y.envelope.msg) y.sender r.asn fun network path =>
      x.Announces network path ∨ heard network path ∧ ¬ x.Withdraws network := by
  intro route n
  rw [nexthop?_learn,hb]
  simp only [installs_relayed h,withdraws_relayed h]
  constructor
  · rintro (⟨rfl,network,path,hr,hp⟩ | ⟨⟨rfl,network,path,rfl,hp⟩,-,hw⟩)
    · exact ⟨rfl,network,path,hr,.inl hp⟩
    · exact ⟨rfl,network,path,rfl,.inr ⟨hp,fun h => hw ⟨rfl,h⟩⟩⟩
  · rintro ⟨rfl,network,path,rfl,hp⟩
    -- What `x` announces is believed anew, whether it was believed before or not.
    by_cases hi : ∃ network' path', passedOn r.asn network path = passedOn r.asn network' path' ∧
        x.Announces network' path'
    · exact .inl ⟨rfl,hi⟩
    · rcases hp with hp | ⟨hp,hw⟩
      · exact absurd ⟨network,path,rfl,hp⟩ hi
      · exact .inr ⟨⟨rfl,network,path,rfl,hp⟩,hi,fun h => hw h.2⟩

end Believes

theorem conveyed_append_of_silent {r : Router} {d : Address} {a : Arrival}
    (h : a.isControl = true → ¬ r.Feeds a.sender d) (history : List Arrival) (network : Network)
    (path : List UInt32) :
    r.Conveyed d (history++[a]) network path ↔ r.Conveyed d history network path := by
  have ha : ¬ (r.Feeds a.sender d ∧ a.Announces network path) := by
    rintro ⟨hf,u,hu,-⟩
    exact h (by simp [Arrival.isControl,hu]) hf
  have hw : ¬ (r.Feeds a.sender d ∧ a.Withdraws network) := by
    rintro ⟨hf,networks,hn,-⟩
    exact h (by simp [Arrival.isControl,hn]) hf
  rw [conveyed_append]
  simp [ha,hw]

theorem nexthop?_ne_of_silent (asn : UInt32) (neighbors : List (Address × Relationship))
    {history : List Arrival} {d : Address} (h : ∀ x ∈ history, x.sender ≠ d) (route : Route) :
    ((configured asn neighbors).handleAll history).db.nexthop? route ≠ some d := by
  intro hn
  obtain ⟨before,x,later,rfl,-,hx,-⟩ := (nexthop?_handleAll asn neighbors history route d).mp hn
  exact h x (by simp) hx

/-- `d` believes what has been conveyed to it, and that all of it leads to the router. -/
theorem believes_downstream (u v : UInt32) (neighbors others : List (Address × Relationship))
    {d a : Address} {history : List Arrival} (faults : LinkFaults) (ha : a ∈ others.map (·.1))
    (hs : ∀ x ∈ history, x.sender ≠ d) (hl : ∀ x ∈ history, ∀ e, x.faults d e = none) :
    Believes ((configured v others).handleAll (((configured u neighbors).arriving history d).map
      fun e => ⟨a,e,faults⟩)).db a u ((configured u neighbors).Conveyed d history) := by
  induction history using List.reverseRecOn with
  | nil =>
    have hdb : ((configured v others).handleAll []).db = {} := db_configured v others
    change Believes ((configured v others).handleAll []).db a u _
    rw [hdb]
    exact .empty fun network path ⟨before,x,later,he,_⟩ => by simp at he
  | append_singleton history x ih =>
    obtain ⟨hs,hx⟩ := List.forall_mem_append.mp hs
    obtain ⟨hl,hlx⟩ := List.forall_mem_append.mp hl
    have ih := ih hs hl
    have hx := hx x List.mem_cons_self
    have hlx := hlx x List.mem_cons_self
    cases hm : (configured u neighbors).relayed? x.envelope.msg with
    | none =>
      have hc : x.isControl = false := by
        rw [← isSome_relayed? (configured u neighbors),hm]
        rfl
      rw [arriving_append_of_not_isControl _ history hc hx (nexthop?_ne_of_silent u neighbors hs)]
      exact ih.congr (conveyed_append_of_silent (by simp [hc]) history)
    | some msg =>
      have hc := isControl_of_relayed? hm
      by_cases hf : (configured u neighbors).Feeds x.sender d
      · have hasn := asn_configured u neighbors
        have hlearn := Believes.learn (x := x) (y := ⟨a,envelopeTo d msg,faults⟩) (hasn ▸ ih) hm
        rw [arriving_append_of_feeds _ history hm hf hx hlx,List.map_append,List.map_singleton,
          db_handleAll_append,if_pos ((contains_configured v others a).mpr ha)]
        rw [hasn] at hlearn
        apply hlearn.congr
        intro network path
        rw [conveyed_append]
        simp only [hf,true_and]
      · rw [arriving_append_of_not_feeds _ history hc hf]
        exact ih.congr (conveyed_append_of_silent (fun _ => hf) history)

/-- The table of a router `v` that hears from one neighbor only, the router `u`, which it knows as
`a`. It holds exactly the routes of number `u` for which `u` has handled an update from a neighbor
that the policy lets through to `v`, and since then no withdrawal of the network from any such
neighbor; all its routes lead to `a`. What `u` handles comes from its other neighbors, and the link
takes what it is given. -/
theorem downstream_table (u v : UInt32) (neighbors others : List (Address × Relationship))
    {d a : Address} {history : List Arrival} (faults : LinkFaults) (ha : a ∈ others.map (·.1))
    (hs : ∀ x ∈ history, x.sender ≠ d) (hl : ∀ x ∈ history, ∀ e, x.faults d e = none) :
    let upstream := configured u neighbors
    let downstream := (configured v others).handleAll
      ((upstream.arriving history d).map fun e => ⟨a,e,faults⟩)
    ∀ route n, downstream.db.nexthop? route = some n ↔
      n = a ∧ ∃ network path,
        route = ⟨network,
          { asPath := u::path, localPref := 100, selfOriginated := false, origin := .unknown }⟩ ∧
        ∃ before x later, history = before++x::later ∧
          (upstream.Feeds x.sender d ∧
            ∃ w, x.envelope.msg = .update w ∧ w.network = network ∧ w.asPath = path) ∧
          ∀ y ∈ later, ¬ (upstream.Feeds y.sender d ∧ y.Withdraws network) :=
  believes_downstream u v neighbors others faults ha hs hl

private def client : Address := .ofOctets 192 168 0 2

private def partner : Address := .ofOctets 172 168 0 2

private def carrier : Address := .ofOctets 10 0 0 2

private def listener : Address := .ofOctets 192 168 1 2

private def quartet : List (Address × Relationship) :=
  [(client,.customer),(partner,.peer),(carrier,.provider),(listener,.customer)]

private def area : Network := ⟨.ofOctets 10 1 0 0,.ofLength 16⟩

private def tells (n : Address) (msg : Message) : Arrival where
  sender := n
  envelope := ⟨n,n.gateway,msg⟩

private theorem feeds_listener {n : Address} {s : Relationship}
    (h : (configured 7 quartet).relationship n = .ok s) :
    (configured 7 quartet).Feeds n listener :=
  ⟨s,.customer,h,rfl,(Relationship.exports_iff s .customer).mpr (.inr rfl)⟩

private def story : List Arrival :=
  [tells client (.update ⟨area,[4],none,none,none⟩),
    tells carrier (.update ⟨area,[5],none,none,none⟩)]++[tells client (.withdraw [area])]++
    [tells partner (.update ⟨area,[6],some 500,some true,some .interior⟩)]

/-- Where the listener believes that a route leads; it knows the router as the carrier. -/
private def believed (route : Route) : Option Address :=
  ((configured 8 [(carrier,.provider)]).handleAll
    (((configured 7 quartet).arriving story listener).map
      fun e => ⟨carrier,e,fun _ _ => none⟩)).db.nexthop? route

/-- The client's withdrawal takes the path of the carrier away from the listener, though the router
itself keeps it; what the partner announces later is believed, without its attributes. -/
theorem downstream_table_flushed :
    carrier ∈ [(carrier,Relationship.provider)].map (·.1) ∧ (∀ x ∈ story, x.sender ≠ listener) ∧
      (∀ x ∈ story, ∀ e, x.faults listener e = none) ∧
      ((configured 7 quartet).handleAll story).db.nexthop? ⟨area,⟨[5],100,false,.unknown⟩⟩ =
        some carrier ∧
      believed ⟨area,⟨[7,5],100,false,.unknown⟩⟩ = none ∧
      believed ⟨area,⟨[7,6],100,false,.unknown⟩⟩ = some carrier := by
  have ha : carrier ∈ [(carrier,Relationship.provider)].map (·.1) := by decide
  have hs : ∀ x ∈ story, x.sender ≠ listener := by decide
  have hl : ∀ x ∈ story, ∀ e, x.faults listener e = none := by simp [story,tells]
  have h := downstream_table 7 8 quartet [(carrier,.provider)] (fun _ _ => none) ha hs hl
  refine ⟨ha,hs,hl,by decide,?_,(h _ _).mpr ⟨rfl,area,[6],rfl,_,_,[],rfl,?_,by simp⟩⟩
  · rw [Option.eq_none_iff_forall_ne_some]
    intro n hn
    obtain ⟨-,network,path,hr,hc⟩ := (h _ n).mp hn
    cases hr
    have hc : (configured 7 quartet).Conveyed listener story area [5] := hc
    rw [story,conveyed_append,conveyed_append] at hc
    rcases hc with ⟨-,w,hw,-,hp⟩ | ⟨⟨-,w,hw,-⟩ | ⟨-,hw⟩,-⟩
    · cases hw
      cases hp
    · cases hw
    · exact hw ⟨feeds_listener rfl,_,rfl,List.mem_singleton.mpr rfl⟩
  · exact ⟨feeds_listener rfl,_,rfl,rfl,rfl⟩

end Router
end PathVector
