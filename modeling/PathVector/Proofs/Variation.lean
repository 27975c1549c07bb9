import PathVector.Proofs.Alike
import PathVector.Proofs.Codec
import PathVector.Proofs.Members

/-! Datagrams that give the same envelope. What comes of one depends on its header and on what
counts of its payload, and not on the order of the members, on other members or on blanks. -/
namespace PathVector

open Reader Json

theorem toOption_eq_some_iff {ε α : Type} {x : Except ε α} {a : α} :
    x.toOption = some a ↔ x = .ok a := by
  cases x with
  | error e => exact ⟨nofun,nofun⟩
  | ok b => exact ⟨fun h => congrArg Except.ok (Option.some.inj h),fun h => by rw [h]; rfl⟩

theorem mapM_eq_some_iff {α β : Type} {f : α → Option β} {xs : List α} {ys : List β} :
    xs.mapM f = some ys ↔ (∀ x ∈ xs, (f x).isSome) ∧ xs.filterMap f = ys := by
  induction xs generalizing ys with
  | nil => simp
  | cons x xs ih =>
    rw [List.mapM_cons]
    constructor
    · intro h
      obtain ⟨z,hz,h⟩ := Option.bind_eq_some_iff.mp h
      obtain ⟨zs,hzs,h⟩ := Option.bind_eq_some_iff.mp h
      obtain ⟨hs,rfl⟩ := ih.mp hzs
      cases h
      refine ⟨List.forall_mem_cons.mpr ⟨?_,hs⟩,List.filterMap_cons_some hz⟩
      rw [hz]
      rfl
    · rintro ⟨h,rfl⟩
      obtain ⟨hx,h⟩ := List.forall_mem_cons.mp h
      obtain ⟨y,hy⟩ := Option.isSome_iff_exists.mp hx
      rw [hy,ih.mpr ⟨h,rfl⟩,List.filterMap_cons_some hy]
      rfl

namespace Envelope

/-- Every member has a name, and no two have the same. -/
structure Unrepeated (ms : List (Quoted × Source)) : Prop where
  named : ∀ m ∈ ms, m.1.text?.isSome
  nodup : (ms.map fun m => m.1.text?).Nodup

/-- The members that say where the message goes and what it is. -/
def headerNames : List String := ["src","dst","type"]

def isHeader (m : Quoted × Source) : Bool := m.1.text?.any fun k => k ∈ headerNames

/-- What the payload means: null if there is none. -/
def payload? (ms : List (Quoted × Source)) : Option Json :=
  match ms.find? fun m => m.1.text? = some "msg" with
  | some m => m.2.tree? 126
  | none => some .null

namespace Sealed

theorem exact_fields : ∀ f ∈ record.fields, f.Exact := by
  intro f hf
  simp only [record,List.mem_cons,List.not_mem_nil,or_false] at hf
  rcases hf with rfl | rfl | rfl | rfl
  · exact Field.exact_ofForm (Form.exact_string _).map
  · exact Field.exact_ofForm (Form.exact_string _).map
  · exact Field.exact_ofForm (Form.exact_string _)
  · exact Field.exact_ofForm Form.exact_json

-- The payload has a slot of its own.
theorem field?_eq_none {k : String} (h : k ∉ headerNames) (hm : k ≠ "msg") :
    record.field? k = none := by
  simp only [headerNames,List.mem_cons,List.not_mem_nil,or_false,not_or] at h
  rw [Record.field?,List.find?_eq_none]
  intro f hf
  simp only [record,List.mem_cons,List.not_mem_nil,or_false] at hf
  rcases hf with rfl | rfl | rfl | rfl
  · exact fun he => h.1 (of_decide_eq_true he).symm
  · exact fun he => h.2.1 (of_decide_eq_true he).symm
  · exact fun he => h.2.2 (of_decide_eq_true he).symm
  · exact fun he => hm (of_decide_eq_true he).symm

theorem isSome_field?_iff {k : String} (hm : k ≠ "msg") :
    (record.field? k).isSome ↔ k ∈ headerNames := by
  constructor
  · intro h
    by_contra hk
    rw [field?_eq_none hk hm] at h
    cases h
  · intro h
    simp only [headerNames,List.mem_cons,List.not_mem_nil,or_false] at h
    rcases h with rfl | rfl | rfl <;> rfl

theorem memberOfJson_payload {m : String × Json} (hm : m.1 ≠ "msg") (t : Slots)
    (p : Option Json) : record.memberOfJson { t with payload := p } m =
      (record.memberOfJson t m).map ({ · with payload := p }) := by
  let u (s : Slots) : Slots := { s with payload := p }
  change record.memberOfJson (u t) m = (record.memberOfJson t m).map u
  rw [Record.memberOfJson,Record.memberOfJson]
  cases hf : record.field? m.1 with
  | none => rfl
  | some f =>
    obtain ⟨hmem,hname⟩ := Record.mem_of_field? hf
    have hu : f.isSet (u t) = f.isSet t ∧ f.ofJson m.2 (u t) = (f.ofJson m.2 t).map u := by
      simp only [record,List.mem_cons,List.not_mem_nil,or_false] at hmem
      rcases hmem with rfl | rfl | rfl | rfl
      · exact ⟨rfl,Field.ofJson_ofForm_map (u := u) (fun _ _ => rfl) m.2 t⟩
      · exact ⟨rfl,Field.ofJson_ofForm_map (u := u) (fun _ _ => rfl) m.2 t⟩
      · exact ⟨rfl,Field.ofJson_ofForm_map (u := u) (fun _ _ => rfl) m.2 t⟩
      · exact absurd hname.symm hm
    dsimp only
    rw [hu.1]
    split
    · rfl
    · exact hu.2

theorem foldlM_payload {js : List (String × Json)} (h : ∀ m ∈ js, m.1 ≠ "msg") (t : Slots)
    (p : Option Json) : js.foldlM record.memberOfJson { t with payload := p } =
      (js.foldlM record.memberOfJson t).map ({ · with payload := p }) := by
  induction js generalizing t with
  | nil => rfl
  | cons m js ih =>
    rw [List.foldlM_cons,List.foldlM_cons,memberOfJson_payload (h m List.mem_cons_self)]
    cases record.memberOfJson t m with
    | error f => rfl
    | ok u => exact ih (fun n hn => h n (List.mem_cons_of_mem m hn)) u

/-- The other members do not see the payload. -/
theorem build_payload {js : List (String × Json)} (h : ∀ m ∈ js, m.1 ≠ "msg")
    (p : Option Json) :
    (js.foldlM record.memberOfJson { payload := p } >>= record.build) =
      (record.ofMembers js).map ({ · with payload := p.getD .null }) := by
  have hf := foldlM_payload h {} p
  rw [Record.ofMembers]
  change (js.foldlM record.memberOfJson { ({} : Slots) with payload := p } >>= _) = _
  rw [hf]
  change _ = Except.map _ (js.foldlM record.memberOfJson {} >>= record.build)
  cases js.foldlM record.memberOfJson {} with
  | error f => rfl
  | ok t =>
    obtain ⟨src,dst,kind,q⟩ := t
    cases src <;> cases dst <;> cases kind <;> rfl

def header (js : List (String × Json)) : List (String × Json) :=
  js.filter fun m => m.1 ∈ headerNames

def content (js : List (String × Json)) : Json :=
  match js.find? fun m => m.1 = "msg" with
  | some m => m.2
  | none => .null

theorem ofMembers_header {js : List (String × Json)} (h : ∀ m ∈ js, m.1 ≠ "msg") :
    record.ofMembers (header js) = record.ofMembers js := by
  rw [← Record.ofMembers_known js,header]
  refine congrArg _ (List.filter_congr fun m hm => ?_)
  rw [Bool.eq_iff_iff,decide_eq_true_eq]
  exact (isSome_field?_iff (h m hm)).symm

theorem ofMembers_eq_ok_iff {js : List (String × Json)} (hn : (names js).Nodup) {s : Sealed} :
    record.ofMembers js = .ok s ↔
      ∃ t, record.ofMembers (header js) = .ok t ∧ { t with payload := content js } = s := by
  cases hm : js.find? fun m => m.1 = "msg" with
  | none =>
    have h : ∀ m ∈ js, m.1 ≠ "msg" := fun m hjs he =>
      List.find?_eq_none.mp hm m hjs (decide_eq_true he)
    have hb : record.ofMembers js = (record.ofMembers js).map ({ · with payload := .null }) :=
      build_payload h none
    rw [ofMembers_header h,content,hm]
    constructor
    · intro hs
      refine ⟨s,hs,?_⟩
      rw [hs] at hb
      exact (Except.ok.inj hb).symm
    · rintro ⟨t,ht,rfl⟩
      rw [ht] at hb
      rw [ht]
      exact hb
  | some m =>
    have hname : m.1 = "msg" := by simpa using List.find?_some hm
    obtain ⟨xs,ys,rfl,hx,hy⟩ := exists_split hn (List.mem_of_find?_eq_some hm)
    have hp : (xs++m::ys).Perm (m::(xs++ys)) := List.perm_middle
    have h : ∀ n ∈ xs++ys, n.1 ≠ "msg" := by
      rw [← hname]
      exact List.forall_mem_append.mpr ⟨hx,hy⟩
    have hh : header (xs++m::ys) = header (xs++ys) := by
      rw [header,header,List.filter_append,List.filter_append,List.filter_cons_of_neg]
      rw [hname]
      decide
    have hb : record.ofMembers (m::(xs++ys)) =
        (record.ofMembers (xs++ys)).map ({ · with payload := m.2 }) := by
      obtain ⟨k,j⟩ := m
      cases hname
      exact build_payload h (some j)
    have hj : record.ofMembers (xs++m::ys) = .ok s ↔ record.ofMembers (m::(xs++ys)) = .ok s :=
      ⟨lawful_record.ofMembers_perm hp,lawful_record.ofMembers_perm hp.symm⟩
    rw [hj,hh,ofMembers_header h,hb,content,hm]
    cases record.ofMembers (xs++ys) with
    | error f => simp [Except.map]
    | ok t => simp [Except.map]

section Written

variable {ms : List (Quoted × Source)} {js : List (String × Json)}

theorem names_nodup (hm : Unrepeated ms) (h : ms.mapM (record.seen? 126) = some js) :
    (names js).Nodup := by
  obtain ⟨-,rfl⟩ := mapM_eq_some_iff.mp h
  have hp := List.pairwise_map.mp hm.nodup
  rw [names,List.Nodup,List.pairwise_map,List.pairwise_filterMap]
  refine hp.imp fun hne i hi j hj he => hne ?_
  rw [Record.text?_of_seen? hi,Record.text?_of_seen? hj,he]

theorem mapM_header (h : ms.mapM (record.seen? 126) = some js) :
    (ms.filter isHeader).mapM (record.seen? 126) = some (header js) := by
  obtain ⟨hs,rfl⟩ := mapM_eq_some_iff.mp h
  refine mapM_eq_some_iff.mpr ⟨fun m hm => hs m (List.mem_filter.mp hm).1,?_⟩
  rw [header,List.filter_filterMap,List.filterMap_filter]
  refine List.filterMap_congr fun m hm => ?_
  obtain ⟨j,hj⟩ := Option.isSome_iff_exists.mp (hs m hm)
  rw [isHeader,Record.text?_of_seen? hj,hj]
  rfl

theorem payload?_eq (h : ms.mapM (record.seen? 126) = some js) :
    (payload? ms).map canonical = some (content js) := by
  obtain ⟨hs,rfl⟩ := mapM_eq_some_iff.mp h
  have hf : (ms.find? fun m => (record.seen? 126 m).any fun j => j.1 = "msg") =
      ms.find? fun m => m.1.text? = some "msg" := by
    refine List.find?_congr fun m hm => ?_
    obtain ⟨j,hj⟩ := Option.isSome_iff_exists.mp (hs m hm)
    rw [Record.text?_of_seen? hj,hj]
    simp
  rw [payload?,content,List.find?_filterMap,hf]
  cases hm : ms.find? fun m => m.1.text? = some "msg" with
  | none => rfl
  | some m =>
    have hk : m.1.text? = some "msg" := by simpa using List.find?_some hm
    obtain ⟨j,hj⟩ := Option.isSome_iff_exists.mp (hs m (List.mem_of_find?_eq_some hm))
    have hj1 : j.1 = "msg" := Option.some.inj ((Record.text?_of_seen? hj).symm.trans hk)
    obtain ⟨i,hi,hc⟩ := Record.tree?_of_seen? hj (by rw [hj1]; rfl)
    rw [Option.bind_some,hj]
    dsimp only
    rw [hi,← hc]
    rfl

theorem exists_mapM (hm : Unrepeated ms) {hs : List (String × Json)} {j : Json}
    (hh : (ms.filter isHeader).mapM (record.seen? 126) = some hs) (hj : payload? ms = some j) :
    ∃ js, ms.mapM (record.seen? 126) = some js := by
  refine ⟨_,mapM_eq_some_iff.mpr ⟨fun m hmem => ?_,rfl⟩⟩
  obtain ⟨k,hk⟩ := Option.isSome_iff_exists.mp (hm.named m hmem)
  by_cases hp : k = "msg"
  · subst hp
    have hf : ms.find? (fun m => m.1.text? = some "msg") = some m := by
      obtain ⟨n,hn⟩ : ∃ n, ms.find? (fun m => m.1.text? = some "msg") = some n :=
        Option.isSome_iff_exists.mp (List.find?_isSome.mpr ⟨m,hmem,decide_eq_true hk⟩)
      have hnk : n.1.text? = some "msg" := by simpa using List.find?_some hn
      rw [hn,List.inj_on_of_nodup_map hm.nodup (List.mem_of_find?_eq_some hn) hmem
        (hnk.trans hk.symm)]
    rw [payload?,hf] at hj
    dsimp only at hj
    rw [Record.seen?_of_known hk rfl,hj]
    rfl
  by_cases hkh : k ∈ headerNames
  · refine (mapM_eq_some_iff.mp hh).1 m (List.mem_filter.mpr ⟨hmem,?_⟩)
    rw [isHeader,hk]
    exact decide_eq_true hkh
  · rw [Record.seen?_of_unknown hk (field?_eq_none hkh hp)]
    rfl

/-- What the text of an object comes to, from the header and the payload. -/
theorem readText_eq_ok_iff {bs : List UInt8} (hb : (Source.object ms).Text bs)
    (hm : Unrepeated ms) {s : Sealed} : record.form.readText bs = .ok s ↔
      ∃ hs j t, (ms.filter isHeader).mapM (record.seen? 126) = some hs ∧ payload? ms = some j ∧
        record.ofMembers hs = .ok t ∧ { t with payload := j.canonical } = s := by
  have hr := Record.toOption_readText exact_fields hb
  rw [← toOption_eq_some_iff,hr]
  constructor
  · intro h
    obtain ⟨js,hjs,h⟩ := Option.bind_eq_some_iff.mp h
    obtain ⟨t,ht,hs⟩ := (ofMembers_eq_ok_iff (names_nodup hm hjs)).mp (toOption_eq_some_iff.mp h)
    obtain ⟨j,hj,hc⟩ := Option.map_eq_some_iff.mp (payload?_eq hjs)
    rw [← hc] at hs
    exact ⟨header js,j,t,mapM_header hjs,hj,ht,hs⟩
  · rintro ⟨hs,j,t,hh,hj,ht,rfl⟩
    obtain ⟨js,hjs⟩ := exists_mapM hm hh hj
    have hc := payload?_eq hjs
    rw [hj] at hc
    rw [mapM_header hjs] at hh
    cases hh
    rw [hjs,Option.bind_some,toOption_eq_some_iff,Option.some.inj hc]
    exact (ofMembers_eq_ok_iff (names_nodup hm hjs)).mpr ⟨t,ht,rfl⟩

end Written

theorem kind_memberOfJson {m : String × Json} {t u : Slots}
    (h : record.memberOfJson t m = .ok u) :
    u.kind = t.kind ∨ ∃ x, u.kind = some x ∧ m = ("type",.string x) := by
  obtain ⟨k,j⟩ := m
  cases hf : record.field? k with
  | none =>
    rw [Record.memberOfJson_of_none hf] at h
    cases h
    exact .inl rfl
  | some f =>
    obtain ⟨-,h⟩ := Record.memberOfJson_of_some hf h
    obtain ⟨hm,rfl⟩ := Record.mem_of_field? hf
    simp only [record,List.mem_cons,List.not_mem_nil,or_false] at hm
    rcases hm with rfl | rfl | rfl | rfl
    · obtain ⟨b,_,rfl⟩ := Field.ofForm_eq_ok.mp h
      exact .inl rfl
    · obtain ⟨b,_,rfl⟩ := Field.ofForm_eq_ok.mp h
      exact .inl rfl
    · obtain ⟨b,hb,rfl⟩ := Field.ofForm_eq_ok.mp h
      right
      cases j with
      | string x =>
        cases hb
        exact ⟨b,rfl,rfl⟩
      | null | boolean | number | list | object => cases hb
    · obtain ⟨b,_,rfl⟩ := Field.ofForm_eq_ok.mp h
      exact .inl rfl

theorem kind_foldlM {js : List (String × Json)} {t u : Slots}
    (h : js.foldlM record.memberOfJson t = .ok u) :
    u.kind = t.kind ∨ ∃ x, u.kind = some x ∧ ("type",.string x) ∈ js := by
  induction js generalizing t with
  | nil =>
    cases h
    exact .inl rfl
  | cons m js ih =>
    rw [List.foldlM_cons] at h
    obtain ⟨v,hv,h⟩ := of_bind_eq_ok h
    rcases ih h with hk | ⟨x,hk,hx⟩
    · rcases kind_memberOfJson hv with hkv | ⟨x,hx,rfl⟩
      · exact .inl (hk.trans hkv)
      · exact .inr ⟨x,hk.trans hx,List.mem_cons_self⟩
    · exact .inr ⟨x,hk,List.mem_cons_of_mem m hx⟩

theorem type_mem_of_ofMembers {js : List (String × Json)} {s : Sealed}
    (h : record.ofMembers js = .ok s) : ("type",.string s.kind) ∈ js := by
  obtain ⟨t,ht,h⟩ := of_bind_eq_ok h
  obtain ⟨src,_,h⟩ := of_bind_eq_ok h
  obtain ⟨dst,_,h⟩ := of_bind_eq_ok h
  obtain ⟨kind,hk,h⟩ := of_bind_eq_ok h
  cases h
  rcases kind_foldlM ht with hn | ⟨x,hx,hmem⟩
  · rw [hn] at hk
    cases hk
  · rw [hx] at hk
    cases hk
    exact hmem

theorem decode_eq_ok_iff {s : Sealed} {e : Envelope} : s.decode = .ok e ↔
    (s.src = e.src ∧ s.dst = e.dst ∧ s.kind = e.kind.text) ∧
      Message.ofPayload s.payload e.kind = .ok e.msg := by
  constructor
  · intro h
    obtain ⟨k,hk,h⟩ := of_bind_eq_ok h
    obtain ⟨m,hm,h⟩ := of_bind_eq_ok h
    cases h
    have hm := of_mapError_eq_ok hm
    have hkind : m.kind = k := Message.kind_of_ofPayload hm
    have ht : k.text = s.kind := by
      rw [MessageKind.parse] at hk
      split at hk
      · cases hk
        exact MessageKind.text_of_ofText? ‹_›
      · cases hk
    subst hkind
    exact ⟨⟨rfl,rfl,ht.symm⟩,hm⟩
  · rintro ⟨⟨hs,hd,hk⟩,hm⟩
    have hkind : MessageKind.parse s.kind = .ok e.kind := by
      rw [MessageKind.parse,hk,MessageKind.ofText?_text]
    rw [decode,hkind,hs,hd]
    change ((Message.ofPayload s.payload e.kind).mapError Error.json >>= _) = _
    rw [hm]
    rfl

end Sealed

section Written

variable {ms ns : List (Quoted × Source)} {bs cs : List UInt8} {e : Envelope}

theorem ofWire_eq_ok_iff (hb : (Source.object ms).Text bs) (hm : Unrepeated ms) :
    ofWire bs = .ok e ↔ ∃ hs j t, (ms.filter isHeader).mapM (Sealed.record.seen? 126) = some hs ∧
      payload? ms = some j ∧ Sealed.record.ofMembers hs = .ok t ∧
      (t.src = e.src ∧ t.dst = e.dst ∧ t.kind = e.kind.text) ∧
      Message.ofPayload j.canonical e.kind = .ok e.msg := by
  constructor
  · intro h
    obtain ⟨s,hr,h⟩ := of_bind_eq_ok h
    obtain ⟨hs,j,t,hh,hj,ht,rfl⟩ :=
      (Sealed.readText_eq_ok_iff hb hm).mp (of_mapError_eq_ok hr)
    exact ⟨hs,j,t,hh,hj,ht,Sealed.decode_eq_ok_iff.mp h⟩
  · rintro ⟨hs,j,t,hh,hj,ht,h⟩
    have hr := (Sealed.readText_eq_ok_iff hb hm).mpr ⟨hs,j,t,hh,hj,ht,rfl⟩
    rw [ofWire,hr]
    exact Sealed.decode_eq_ok_iff.mpr h

theorem mapM_header_perm (hp : (ms.filter isHeader).Perm (ns.filter isHeader))
    {hs : List (String × Json)} (h : (ms.filter isHeader).mapM (Sealed.record.seen? 126) = some hs) :
    ∃ hs', (ns.filter isHeader).mapM (Sealed.record.seen? 126) = some hs' ∧ hs.Perm hs' := by
  obtain ⟨hsome,rfl⟩ := mapM_eq_some_iff.mp h
  exact ⟨_,mapM_eq_some_iff.mpr ⟨fun m hm => hsome m (hp.mem_iff.mpr hm),rfl⟩,hp.filterMap _⟩

/-- The member of the header that names the kind. -/
theorem exists_type_of_ofWire (hb : (Source.object ms).Text bs) (hm : Unrepeated ms)
    (he : ofWire bs = .ok e) :
    ∃ k v, (k,Source.string v) ∈ ms ∧ k.text? = some "type" ∧ v.text? = some e.kind.text := by
  obtain ⟨hs,j,t,hh,_,ht,⟨_,_,hk⟩,_⟩ := (ofWire_eq_ok_iff hb hm).mp he
  obtain ⟨-,rfl⟩ := mapM_eq_some_iff.mp hh
  obtain ⟨⟨k,s⟩,hmem,hseen⟩ := List.mem_filterMap.mp (Sealed.type_mem_of_ofMembers ht)
  obtain ⟨i,hi,hc⟩ := Record.tree?_of_seen? hseen rfl
  have hi' : i = .string t.kind := by
    cases i with
    | string x => exact hc
    | null | boolean | number | list | object => cases hc
  rw [hi'] at hi
  obtain ⟨v,rfl⟩ := Source.eq_string_of_tree? hi
  obtain ⟨x,hx,hv⟩ := Option.map_eq_some_iff.mp hi
  cases hv
  rw [← hk]
  exact ⟨k,v,(List.mem_filter.mp hmem).1,Record.text?_of_seen? hseen,hx⟩

end Written

/-- Datagrams whose headers have the same members, in any order, give the same envelope if their
payloads are alike; where the payload is passed on, only then. The kind is the one that is named. -/
theorem ofWire_alike {ms ns : List (Quoted × Source)} {bs cs : List UInt8} {e : Envelope}
    (hb : (Source.object ms).Text bs) (hc : (Source.object ns).Text cs) (hm : Unrepeated ms)
    (hn : Unrepeated ns) (hp : (ms.filter isHeader).Perm (ns.filter isHeader))
    (he : ofWire bs = .ok e) :
    (∃ k v, (k,Source.string v) ∈ ms ∧ k.text? = some "type" ∧ v.text? = some e.kind.text) ∧
    ∃ i, payload? ms = some i ∧ ∀ j, payload? ns = some j →
      (Message.Alike e.kind i j → ofWire cs = .ok e) ∧
      (e.msg.content?.isSome →
        (ofWire cs = .ok e ↔ i.canonical = j.canonical) ∧
        ∀ xs ys, i = .object xs → j = .object ys → (names xs).Nodup → (names ys).Nodup →
          (ofWire cs = .ok e ↔ (xs.map canonicalMember).Perm (ys.map canonicalMember))) := by
  refine ⟨exists_type_of_ofWire hb hm he,?_⟩
  obtain ⟨hs,i,t,hh,hi,ht,hhead,hmsg⟩ := (ofWire_eq_ok_iff hb hm).mp he
  obtain ⟨hs',hh',hperm⟩ := mapM_header_perm hp hh
  have ht' := Sealed.lawful_record.ofMembers_perm hperm ht
  refine ⟨i,hi,fun j hj => ?_⟩
  have hw : ofWire cs = .ok e ↔ Message.ofPayload j.canonical e.kind = .ok e.msg := by
    rw [ofWire_eq_ok_iff hc hn]
    constructor
    · rintro ⟨_,j',_,_,hj',_,_,h⟩
      rw [hj] at hj'
      cases hj'
      exact h
    · exact fun h => ⟨hs',j,t,hh',hj,ht',hhead,h⟩
  refine ⟨fun ha => hw.mpr (Message.ofPayload_of_alike ha hmsg),fun hcontent => ?_⟩
  have hcanonical : ofWire cs = .ok e ↔ i.canonical = j.canonical := by
    rw [hw]
    constructor
    · intro h
      obtain ⟨c,hc⟩ := Option.isSome_iff_exists.mp hcontent
      rw [← Message.content_of_ofPayload hmsg hc,← Message.content_of_ofPayload h hc]
    · intro h
      rwa [← h]
  refine ⟨hcanonical,?_⟩
  rintro xs ys rfl rfl hx hy
  exact hcanonical.trans (canonical_object_eq_iff hx hy)

private def announced : Envelope :=
  ⟨.ofOctets 10 0 0 2,.ofOctets 10 0 0 1,
    .update ⟨⟨.ofOctets 172 169 0 0,.ofLength 16⟩,[1],none,none,none⟩⟩

private def one : Source :=
  .number false ⟨[0x31],@Magnitude.mk [0x31] [] [] ⟨by decide,by simp [isDigit]⟩ (by decide) .absent
    .absent⟩

private theorem tree?_one (d : Nat) : one.tree? d = some (.number (.integer 1)) := by
  cases d <;> rfl

private def written : List (Quoted × Source) := [
  (.plain "src" (by decide +kernel),.string (.plain "10.0.0.2" (by decide +kernel))),
  (.plain "dst" (by decide +kernel),.string (.plain "10.0.0.1" (by decide +kernel))),
  (.plain "type" (by decide +kernel),.string (.plain "update" (by decide +kernel))),
  (.plain "msg" (by decide +kernel),.object [
    (.plain "ASPath" (by decide +kernel),.list [one]),
    (.plain "netmask" (by decide +kernel),.string (.plain "255.255.0.0" (by decide +kernel))),
    (.plain "network" (by decide +kernel),.string (.plain "172.169.0.0" (by decide +kernel)))])]

private def rewritten : List (Quoted × Source) := [
  (.plain "msg" (by decide +kernel),.object [
    (.plain "network" (by decide +kernel),.string (.plain "172.169.0.0" (by decide +kernel))),
    (.plain "localpref" (by decide +kernel),.null),
    (.plain "netmask" (by decide +kernel),.string (.plain "255.255.0.0" (by decide +kernel))),
    (.plain "communities" (by decide +kernel),.list [.object [],.boolean true]),
    (.plain "ASPath" (by decide +kernel),.list [one])]),
  (.plain "type" (by decide +kernel),.string (.plain "update" (by decide +kernel))),
  (.plain "hops" (by decide +kernel),one),
  (.plain "dst" (by decide +kernel),.string (.plain "10.0.0.1" (by decide +kernel))),
  (.plain "src" (by decide +kernel),.string (.plain "10.0.0.2" (by decide +kernel)))]

/-- The payload first and in another order, with blanks, a null and two unknown members. -/
theorem ofWire_rewritten :
    (Source.object written).tokens.flatten = announced.toWire ∧
    ofWire ((Source.object rewritten).tokens.flatMap fun t => [0x20,0x0a]++t) =
      .ok announced := by
  have htext : (Source.object written).tokens.flatten = announced.toWire := by decide +kernel
  have hb : (Source.object written).Text announced.toWire := htext ▸ spaced_flatten _
  have hc : (Source.object rewritten).Text
      ((Source.object rewritten).tokens.flatMap fun t => [0x20,0x0a]++t) :=
    spaced_flatMap (by simp [isSpace]) _
  have hm : Unrepeated written := ⟨by simp [written],by simp [written]⟩
  have hn : Unrepeated rewritten := ⟨by simp [rewritten],by simp [rewritten]⟩
  have hp : rewritten.filter isHeader = (written.filter isHeader).reverse := by
    simp [rewritten,written,isHeader,headerNames]
  have he : ofWire announced.toWire = .ok announced := ofWire_of_portable fun j hj => by cases hj
  let xs : List (String × Json) := [("ASPath",.list [.number (.integer 1)]),
    ("netmask",.string "255.255.0.0"),("network",.string "172.169.0.0")]
  let ys : List (String × Json) := [("network",.string "172.169.0.0"),("localpref",.null),
    ("netmask",.string "255.255.0.0"),("communities",.list [.object [],.boolean true]),
    ("ASPath",.list [.number (.integer 1)])]
  have hi : payload? written = some (.object xs) := by
    simp [payload?,written,Source.tree?,Source.itemTrees?,Source.memberTrees?,tree?_one,xs]
  have hj : payload? rewritten = some (.object ys) := by
    simp [payload?,rewritten,Source.tree?,Source.itemTrees?,Source.memberTrees?,tree?_one,ys]
  have halike : Json.Alike Update.record.counts (.object xs) (.object ys) :=
    ⟨by decide,by decide,(List.reverse_perm _).symm⟩
  obtain ⟨i,hi',h⟩ := (ofWire_alike hb hc hm hn (hp ▸ (List.reverse_perm _).symm) he).2
  rw [hi] at hi'
  cases hi'
  exact ⟨htext,(h (.object ys) hj).1 halike⟩

end Envelope
end PathVector
