import PathVector.Proofs.Payload

/-! Objects that a record does not tell apart. The order of their members does not matter, nor what
unknown members they have, nor whether an optional one is null or absent. -/
namespace PathVector

variable {α σ : Type}

namespace Json

def isNull : Json → Bool
  | null => true
  | _ => false

@[simp] theorem isNull_canonical (j : Json) : j.canonical.isNull = j.isNull := by
  cases j <;> rfl

theorem eq_null_of_isNull {j : Json} (h : j.isNull = true) : j = .null := by
  cases j with
  | null => rfl
  | boolean | number | string | list | object => cases h

def names (ms : List (String × Json)) : List String := ms.map (·.1)

/-- A member with its value in canonical form. -/
def canonicalMember (m : String × Json) : String × Json := (m.1,m.2.canonical)

theorem names_map_canonicalMember (ms : List (String × Json)) :
    names (ms.map canonicalMember) = names ms := by
  rw [names,List.map_map]
  rfl

theorem sortMembers_eq_iff {ms ns : List (String × Json)} (hm : (names ms).Nodup)
    (hn : (names ns).Nodup) : sortMembers ms = sortMembers ns ↔ ms.Perm ns := by
  constructor
  · intro h
    have hp := (sortMembers_perm hm).symm
    rw [h] at hp
    exact hp.trans (sortMembers_perm hn)
  · intro h
    have hmem : ∀ m, m ∈ (Table.ofList ms).entries ↔ m ∈ (Table.ofList ns).entries := by
      intro m
      rw [Table.mem_ofList_iff hm,Table.mem_ofList_iff hn]
      exact h.mem_iff
    exact Table.eq_of_mem_iff Table.lt_asymm (Table.ofList ms).ascending
      (Table.ofList ns).ascending hmem

/-- The canonical form of objects without repeated names is their content up to order. -/
theorem canonical_object_eq_iff {ms ns : List (String × Json)} (hm : (names ms).Nodup)
    (hn : (names ns).Nodup) : (object ms).canonical = (object ns).canonical ↔
      (ms.map canonicalMember).Perm (ns.map canonicalMember) := by
  rw [canonical_object,canonical_object,object.injEq]
  rw [← names_map_canonicalMember] at hm hn
  exact sortMembers_eq_iff hm hn

theorem exists_split {ms : List (String × Json)} (hn : (names ms).Nodup) {m : String × Json}
    (hm : m ∈ ms) : ∃ xs ys, ms = xs++m::ys ∧ (∀ n ∈ xs, n.1 ≠ m.1) ∧ ∀ n ∈ ys, n.1 ≠ m.1 := by
  obtain ⟨xs,ys,rfl⟩ := List.append_of_mem hm
  rw [names,List.map_append,List.map_cons] at hn
  obtain ⟨-,hy,hd⟩ := List.nodup_append.mp hn
  refine ⟨xs,ys,rfl,fun n hx => hd n.1 (List.mem_map_of_mem hx) m.1 List.mem_cons_self,?_⟩
  intro n hmem he
  exact (List.nodup_cons.mp hy).1 (List.mem_map.mpr ⟨n,hmem,he⟩)

/-- Objects without repeated names in which the same members count, in any order. -/
def Alike (counts : String × Json → Bool) : Json → Json → Prop
  | object ms, object ns => (names ms).Nodup ∧ (names ns).Nodup ∧
    (ms.filter counts).Perm (ns.filter counts)
  | _, _ => False

theorem exists_of_alike {counts : String × Json → Bool} {i j : Json} (h : Alike counts i j) :
    ∃ ms ns, i = .object ms ∧ j = .object ns ∧ (names ms).Nodup ∧ (names ns).Nodup ∧
      (ms.filter counts).Perm (ns.filter counts) := by
  cases i with
  | object ms =>
    cases j with
    | object ns => exact ⟨ms,ns,rfl,rfl,h⟩
    | null | boolean | number | string | list => exact False.elim h
  | null | boolean | number | string | list => exact False.elim h

end Json

open Json

namespace Record

variable {r : Record σ α}

/-- A record passes over the members that it does not know. -/
theorem ofMembers_known (ms : List (String × Json)) :
    r.ofMembers (ms.filter fun m => (r.field? m.1).isSome) = r.ofMembers ms := by
  have hf : ∀ s, (ms.filter fun m => (r.field? m.1).isSome).foldlM r.memberOfJson s =
      ms.foldlM r.memberOfJson s := by
    induction ms with
    | nil => exact fun _ => rfl
    | cons m ms ih =>
      intro s
      cases hm : r.field? m.1 with
      | none =>
        rw [List.filter_cons_of_neg (by simp [hm]),List.foldlM_cons,memberOfJson_of_none hm]
        exact ih s
      | some f =>
        rw [List.filter_cons_of_pos (by simp [hm]),List.foldlM_cons,List.foldlM_cons]
        exact congrArg _ (funext ih)
  rw [ofMembers,ofMembers,hf]

/-- The members that a record looks at: those it knows but for an optional one that is null. -/
def counts (r : Record σ α) (m : String × Json) : Bool :=
  (r.field? m.1).any fun f => !(f.optional && m.2.isNull)

/-- No field is filled at the start, and null in an optional one is as good as nothing. -/
structure Lenient (r : Record σ α) : Prop where
  empty : ∀ f ∈ r.fields, f.isSet r.empty = false
  null : ∀ f ∈ r.fields, f.optional = true → ∀ s, f.isSet s = false →
    ∃ t, f.ofJson .null s = .ok t ∧ r.build t = r.build s

theorem null_of_counts {m : String × Json} {f : Field σ α} (hf : r.field? m.1 = some f)
    (h : r.counts m = false) : f.optional = true ∧ m.2 = .null := by
  rw [counts,hf] at h
  simp only [Option.any_some,Bool.not_eq_false',Bool.and_eq_true] at h
  exact ⟨h.1,eq_null_of_isNull h.2⟩

theorem Lawful.isSet_memberOfJson (h : r.Lawful) {g : Field σ α} (hg : g ∈ r.fields)
    {m : String × Json} (hm : m.1 ≠ g.name) {s t : σ} (ht : r.memberOfJson s m = .ok t) :
    g.isSet t = g.isSet s := by
  cases hf : r.field? m.1 with
  | none =>
    rw [memberOfJson_of_none hf] at ht
    cases ht
    rfl
  | some f =>
    obtain ⟨-,ht⟩ := memberOfJson_of_some hf ht
    obtain ⟨hfr,hfn⟩ := mem_of_field? hf
    have hne : f ≠ g := by
      rintro rfl
      exact hm hfn.symm
    exact (h.apart.forall hfr hg hne).left ht

theorem Lawful.isSet_foldlM (h : r.Lawful) {g : Field σ α} (hg : g ∈ r.fields)
    {ms : List (String × Json)} (hm : ∀ m ∈ ms, m.1 ≠ g.name) {s t : σ}
    (ht : ms.foldlM r.memberOfJson s = .ok t) : g.isSet t = g.isSet s := by
  induction ms generalizing s with
  | nil =>
    cases ht
    rfl
  | cons m ms ih =>
    rw [List.foldlM_cons] at ht
    obtain ⟨u,hu,ht⟩ := of_bind_eq_ok ht
    rw [ih (fun n hn => hm n (List.mem_cons_of_mem m hn)) ht,
      h.isSet_memberOfJson hg (hm m List.mem_cons_self) hu]

theorem Lenient.foldlM (hl : r.Lenient) (h : r.Lawful) {ms : List (String × Json)}
    (hc : ∀ m ∈ ms, r.counts m = false) (hn : (names ms).Nodup) {s : σ}
    (hs : ∀ m ∈ ms, ∀ f, r.field? m.1 = some f → f.isSet s = false) :
    ∃ t, ms.foldlM r.memberOfJson s = .ok t ∧ r.build t = r.build s := by
  induction ms generalizing s with
  | nil => exact ⟨s,rfl,rfl⟩
  | cons m ms ih =>
    obtain ⟨hmn,hn⟩ := List.nodup_cons.mp hn
    have hstep : ∃ u, r.memberOfJson s m = .ok u ∧ r.build u = r.build s := by
      cases hf : r.field? m.1 with
      | none => exact ⟨s,memberOfJson_of_none hf s,rfl⟩
      | some f =>
        have hfree := hs m List.mem_cons_self f hf
        obtain ⟨ho,hv⟩ := null_of_counts hf (hc m List.mem_cons_self)
        obtain ⟨u,hu,hb⟩ := hl.null f (mem_of_field? hf).1 ho s hfree
        refine ⟨u,?_,hb⟩
        rw [memberOfJson,hf]
        dsimp only
        rw [if_neg (by simp [hfree]),hv,hu]
    obtain ⟨u,hu,hb⟩ := hstep
    obtain ⟨t,ht,hbt⟩ := ih (fun n hm => hc n (List.mem_cons_of_mem m hm)) hn (s := u) (by
      intro n hnm f hf
      have hne : m.1 ≠ f.name := by
        rw [(mem_of_field? hf).2]
        exact fun he => hmn (List.mem_map.mpr ⟨n,hnm,he.symm⟩)
      rw [h.isSet_memberOfJson (mem_of_field? hf).1 hne hu]
      exact hs n (List.mem_cons_of_mem m hnm) f hf)
    refine ⟨t,?_,hbt.trans hb⟩
    rw [List.foldlM_cons,hu]
    exact ht

/-- Only the members that count make the record. -/
theorem Lenient.ofMembers_filter (hl : r.Lenient) (h : r.Lawful) {ms : List (String × Json)}
    (hn : (names ms).Nodup) {a : α} :
    r.ofMembers ms = .ok a ↔ r.ofMembers (ms.filter r.counts) = .ok a := by
  have hp : (ms.filter r.counts++ms.filter (fun m => !r.counts m)).Perm ms :=
    List.filter_append_perm r.counts ms
  have hn' : (names (ms.filter r.counts++ms.filter fun m => !r.counts m)).Nodup :=
    (hp.map _).nodup_iff.mpr hn
  rw [names,List.map_append] at hn'
  have hrest : ∀ s, (ms.filter r.counts).foldlM r.memberOfJson r.empty = .ok s →
      ∃ t, (ms.filter fun m => !r.counts m).foldlM r.memberOfJson s = .ok t ∧
        r.build t = r.build s := by
    intro s hs
    refine hl.foldlM h (fun m hm => ?_) (List.nodup_append.mp hn').2.1 fun m hm f hf => ?_
    · simpa using (List.mem_filter.mp hm).2
    · obtain ⟨hfr,hfn⟩ := mem_of_field? hf
      rw [← hl.empty f hfr]
      refine h.isSet_foldlM hfr (fun n hnm => ?_) hs
      rw [hfn]
      exact (List.nodup_append.mp hn').2.2 n.1 (List.mem_map_of_mem hnm) m.1
        (List.mem_map_of_mem hm)
  constructor
  · intro ha
    obtain ⟨t,ht,ha⟩ := of_bind_eq_ok (h.ofMembers_perm hp.symm ha)
    rw [List.foldlM_append] at ht
    obtain ⟨s,hs,ht⟩ := of_bind_eq_ok ht
    obtain ⟨t',ht',hb⟩ := hrest s hs
    rw [ht'] at ht
    cases ht
    rw [ofMembers,hs]
    exact hb.symm.trans ha
  · intro ha
    obtain ⟨s,hs,ha⟩ := of_bind_eq_ok ha
    obtain ⟨t,ht,hb⟩ := hrest s hs
    refine h.ofMembers_perm hp ?_
    rw [ofMembers,List.foldlM_append,hs]
    change (List.foldlM r.memberOfJson s _ >>= r.build) = _
    rw [ht]
    exact hb.trans ha

theorem counts_canonicalMember (m : String × Json) :
    r.counts (canonicalMember m) = r.counts m := by
  simp only [counts,canonicalMember,isNull_canonical]

theorem ofJson_canonical (h : r.Lawful) {ms : List (String × Json)} (hn : (names ms).Nodup)
    {a : α} : r.form.ofJson (Json.object ms).canonical = .ok a ↔
      r.ofMembers (ms.map canonicalMember) = .ok a := by
  have hp : (sortMembers (ms.map canonicalMember)).Perm (ms.map canonicalMember) := by
    refine sortMembers_perm ?_
    change (names (ms.map canonicalMember)).Nodup
    rwa [names_map_canonicalMember]
  rw [canonical_object]
  exact ⟨h.ofMembers_perm hp,h.ofMembers_perm hp.symm⟩

theorem Lenient.ofMembers_canonical (hl : r.Lenient) (h : r.Lawful)
    {ms ns : List (String × Json)} (hm : (names ms).Nodup) (hn : (names ns).Nodup)
    (hp : (ms.filter r.counts).Perm (ns.filter r.counts)) {a : α}
    (ha : r.ofMembers (ms.map canonicalMember) = .ok a) :
    r.ofMembers (ns.map canonicalMember) = .ok a := by
  have hc : r.counts ∘ canonicalMember = r.counts := funext counts_canonicalMember
  rw [hl.ofMembers_filter h (by rwa [names_map_canonicalMember]),List.filter_map,hc] at ha ⊢
  exact h.ofMembers_perm (hp.map _) ha

/-- A record comes from alike objects alike. -/
theorem Lenient.ofJson_of_alike (hl : r.Lenient) (h : r.Lawful) {i j : Json}
    (hij : Alike r.counts i j) {a : α} (ha : r.form.ofJson i.canonical = .ok a) :
    r.form.ofJson j.canonical = .ok a := by
  obtain ⟨ms,ns,rfl,rfl,hm,hn,hp⟩ := exists_of_alike hij
  rw [ofJson_canonical h hm] at ha
  rw [ofJson_canonical h hn]
  exact hl.ofMembers_canonical h hm hn hp ha

end Record

theorem Network.lenient_record : Network.record.Lenient where
  empty f hf := by
    simp only [record,List.mem_cons,List.not_mem_nil,or_false] at hf
    rcases hf with rfl | rfl <;> rfl
  null f hf ho := by
    simp only [record,List.mem_cons,List.not_mem_nil,or_false] at hf
    rcases hf with rfl | rfl <;> cases ho

theorem Update.lenient_record : Update.record.Lenient where
  empty f hf := by
    simp only [record,List.mem_cons,List.not_mem_nil,or_false] at hf
    rcases hf with rfl | rfl | rfl | rfl | rfl | rfl <;> rfl
  null f hf ho s hs := by
    simp only [record,List.mem_cons,List.not_mem_nil,or_false] at hf
    obtain ⟨base,mask,asPath,localPref,selfOriginated,origin⟩ := s
    rcases hf with rfl | rfl | rfl | rfl | rfl | rfl
    iterate 3 cases ho
    · cases localPref with
      | some l => cases hs
      | none => exact ⟨_,rfl,rfl⟩
    · cases selfOriginated with
      | some o => cases hs
      | none => exact ⟨_,rfl,rfl⟩
    · cases origin with
      | some o => cases hs
      | none => exact ⟨_,rfl,rfl⟩

namespace TableEntry

theorem lenient_routeRecord : routeRecord.Lenient where
  empty f hf := by
    simp only [routeRecord,Route.recordWith,List.mem_cons,List.not_mem_nil,or_false] at hf
    rcases hf with rfl | rfl | rfl | rfl | rfl | rfl <;> rfl
  null f hf ho := by
    simp only [routeRecord,Route.recordWith,List.mem_cons,List.not_mem_nil,or_false] at hf
    rcases hf with rfl | rfl | rfl | rfl | rfl | rfl <;> cases ho

/-- The members that a line of a table looks at. -/
def counts (m : String × Json) : Bool := m.1 = "peer" || routeRecord.counts m

theorem build_eq_ok_iff {a : Address} {ms : List (String × Json)} {e : TableEntry} :
    build { peer := some a, others := ms.reverse } = .ok e ↔
      a = e.peer ∧ routeRecord.ofMembers ms = .ok e.route := by
  change (routeRecord.ofMembers ms.reverse.reverse >>= fun r => .ok (TableEntry.mk r a)) = _ ↔ _
  rw [List.reverse_reverse]
  cases routeRecord.ofMembers ms with
  | error f => exact ⟨nofun,nofun⟩
  | ok r =>
    change Except.ok (TableEntry.mk r a) = .ok e ↔ _
    obtain ⟨r',a'⟩ := e
    rw [Except.ok.injEq,Except.ok.injEq,TableEntry.mk.injEq,and_comm]

/-- A line is its peer and what the route record makes of the other members. -/
theorem ofJson_eq_ok_iff {ms : List (String × Json)} (hn : (names ms).Nodup) {e : TableEntry} :
    form.ofJson (.object ms) = .ok e ↔
      (∃ j, ("peer",j) ∈ ms ∧ Address.form.ofJson j = .ok e.peer) ∧
        routeRecord.ofMembers ms = .ok e.route := by
  rw [ofJson_object]
  by_cases hp : ∃ j, ("peer",j) ∈ ms
  · obtain ⟨j,hj⟩ := hp
    have hj' : ∀ i, ("peer",i) ∈ ms → i = j :=
      fun i hi => (Prod.mk.inj (List.inj_on_of_nodup_map hn hi hj rfl)).2
    obtain ⟨xs,ys,rfl,hx,hy⟩ := exists_split hn hj
    have hr : routeRecord.ofMembers (xs++("peer",j)::ys) = routeRecord.ofMembers (xs++ys) := by
      rw [← Record.ofMembers_known,← Record.ofMembers_known (xs++ys),List.filter_append,
        List.filter_append]
      rfl
    rw [foldlM_peer hx hy,hr]
    constructor
    · intro h
      obtain ⟨s,hs,h⟩ := of_bind_eq_ok h
      cases ha : Address.form.ofJson j with
      | error f =>
        rw [ha] at hs
        cases hs
      | ok a =>
        rw [ha] at hs
        cases hs
        obtain ⟨rfl,hroute⟩ := build_eq_ok_iff.mp h
        exact ⟨⟨j,hj,ha⟩,hroute⟩
    · rintro ⟨⟨i,hi,ha⟩,hroute⟩
      rw [hj' i hi] at ha
      rw [ha]
      exact build_eq_ok_iff.mpr ⟨rfl,hroute⟩
  · have hx : ∀ m ∈ ms, m.1 ≠ "peer" := by
      rintro ⟨k,j⟩ hm rfl
      exact hp ⟨j,hm⟩
    rw [foldlM_others hx]
    constructor
    · intro h
      cases h
    · rintro ⟨⟨j,hj,-⟩,-⟩
      exact absurd ⟨j,hj⟩ hp

theorem counts_canonicalMember (m : String × Json) : counts (canonicalMember m) = counts m := by
  rw [counts,counts,Record.counts_canonicalMember]
  rfl

theorem ofJson_canonical {ms : List (String × Json)} (hn : (names ms).Nodup) {e : TableEntry} :
    form.ofJson (Json.object ms).canonical = .ok e ↔
      (∃ j, ("peer",j) ∈ ms.map canonicalMember ∧ Address.form.ofJson j = .ok e.peer) ∧
        routeRecord.ofMembers (ms.map canonicalMember) = .ok e.route := by
  rw [← names_map_canonicalMember] at hn
  have hp := sortMembers_perm hn
  have hroute : routeRecord.ofMembers (sortMembers (ms.map canonicalMember)) = .ok e.route ↔
      routeRecord.ofMembers (ms.map canonicalMember) = .ok e.route :=
    ⟨lawful_routeRecord.ofMembers_perm hp,lawful_routeRecord.ofMembers_perm hp.symm⟩
  rw [canonical_object]
  change form.ofJson (.object (sortMembers (ms.map canonicalMember))) = _ ↔ _
  rw [ofJson_eq_ok_iff ((hp.map _).nodup_iff.mpr hn),hroute]
  simp only [hp.mem_iff]

theorem ofJson_of_alike {i j : Json} (hij : Alike counts i j) {e : TableEntry}
    (he : form.ofJson i.canonical = .ok e) : form.ofJson j.canonical = .ok e := by
  obtain ⟨ms,ns,rfl,rfl,hm,hn,hp⟩ := exists_of_alike hij
  obtain ⟨⟨j,hj,ha⟩,hroute⟩ := (ofJson_canonical hm).mp he
  refine (ofJson_canonical hn).mpr ⟨⟨j,?_,ha⟩,?_⟩
  · obtain ⟨m,hmem,hmj⟩ := List.mem_map.mp hj
    have hc : counts m = true := by
      rw [← counts_canonicalMember,hmj]
      rfl
    have hf := hp.mem_iff.mp (List.mem_filter.mpr ⟨hmem,hc⟩)
    exact List.mem_map.mpr ⟨m,(List.mem_filter.mp hf).1,hmj⟩
  · have hsub : ∀ xs : List (String × Json),
        (xs.filter counts).filter routeRecord.counts = xs.filter routeRecord.counts := by
      intro xs
      rw [List.filter_filter]
      refine List.filter_congr fun m _ => ?_
      rw [counts]
      cases routeRecord.counts m <;> simp
    have hp' := hp.filter routeRecord.counts
    rw [hsub,hsub] at hp'
    exact lenient_routeRecord.ofMembers_canonical lawful_routeRecord hm hn hp' hroute

end TableEntry

namespace Json

/-- Lists of objects that are alike one by one. -/
def AlikeItems (counts : String × Json → Bool) : Json → Json → Prop
  | list xs, list ys => List.Forall₂ (Alike counts) xs ys
  | _, _ => False

theorem exists_of_alikeItems {counts : String × Json → Bool} {i j : Json}
    (h : AlikeItems counts i j) :
    ∃ xs ys, i = .list xs ∧ j = .list ys ∧ List.Forall₂ (Alike counts) xs ys := by
  cases i with
  | list xs =>
    cases j with
    | list ys => exact ⟨xs,ys,rfl,rfl,h⟩
    | null | boolean | number | string | object => exact False.elim h
  | null | boolean | number | string | object => exact False.elim h

end Json

theorem Form.ofJson_list_of_alikeItems {f : Form α} {counts : String × Json → Bool}
    (hf : ∀ i j a, Alike counts i j → f.ofJson i.canonical = .ok a → f.ofJson j.canonical = .ok a)
    {i j : Json} (h : AlikeItems counts i j) {as : List α}
    (ha : (Form.list f).ofJson i.canonical = .ok as) :
    (Form.list f).ofJson j.canonical = .ok as := by
  obtain ⟨xs,ys,rfl,rfl,hs⟩ := exists_of_alikeItems h
  clear h
  rw [canonical_list] at ha ⊢
  change (xs.map canonical).mapM f.ofJson = _ at ha
  change (ys.map canonical).mapM f.ofJson = _
  induction hs generalizing as with
  | nil => exact ha
  | cons hxy _ ih =>
    rw [List.map_cons,List.mapM_cons] at ha ⊢
    obtain ⟨a,hx,ha⟩ := of_bind_eq_ok ha
    obtain ⟨bs,hxs,ha⟩ := of_bind_eq_ok ha
    rw [hf _ _ a hxy hx,ih hxs]
    exact ha

namespace Message

/-- Payloads that a message of the kind does not tell apart. Of a payload that is passed on all
members count, but not their order; that of a dump is not looked at. -/
def Alike (k : MessageKind) (i j : Json) : Prop :=
  match k with
  | .update => Json.Alike Update.record.counts i j
  | .withdraw => Json.AlikeItems Network.record.counts i j
  | .table => Json.AlikeItems TableEntry.counts i j
  | .dump => True
  | .data | .noRoute | .handshake => i.canonical = j.canonical

theorem ofPayload_of_alike {k : MessageKind} {i j : Json} (h : Alike k i j) {m : Message}
    (hm : ofPayload i.canonical k = .ok m) : ofPayload j.canonical k = .ok m := by
  cases k with
  | update =>
    obtain ⟨u,hu,rfl⟩ := of_map_eq_ok hm
    have hj := Update.lenient_record.ofJson_of_alike Update.lawful_record h hu
    change update <$> Update.record.form.ofJson j.canonical = _
    rw [hj]
    rfl
  | withdraw =>
    obtain ⟨ns,hns,rfl⟩ := of_map_eq_ok hm
    have hj : (Form.list Network.form).ofJson j.canonical = .ok ns :=
      Form.ofJson_list_of_alikeItems (fun _ _ _ h ha =>
        Network.lenient_record.ofJson_of_alike Network.lawful_record h ha) h hns
    change withdraw <$> (Form.list Network.form).ofJson j.canonical = _
    rw [hj]
    rfl
  | table =>
    obtain ⟨es,hes,rfl⟩ := of_map_eq_ok hm
    have hj := Form.ofJson_list_of_alikeItems (fun _ _ _ h ha =>
      TableEntry.ofJson_of_alike h ha) h hes
    change table <$> (Form.list TableEntry.form).ofJson j.canonical = _
    rw [hj]
    rfl
  | dump => exact hm
  | data | noRoute | handshake =>
    change i.canonical = j.canonical at h
    rwa [h] at hm

end Message
end PathVector
