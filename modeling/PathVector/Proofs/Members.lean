import PathVector.Json.Record
import PathVector.Proofs.Record
import PathVector.Proofs.Skipping

/-! Records read from text. What comes of an object depends on the known members only: on the trees
that they mean, in canonical form. -/
namespace PathVector

open Reader

variable {α β σ : Type}

theorem Reader.leads_mismatch (wanted : String) (ts us : List Token) :
    Leads (mismatch wanted : Reader α) ts (outcome none) us := by
  refine leads_of_fails (fun bs => ?_) ts us
  rw [run?]
  cases h : StateT.run (mismatch wanted : Reader α) bs with
  | error e => rfl
  | ok p => exact (yields_mismatch (P := fun _ => False) wanted bs p.1 p.2 h).elim

theorem Source.eq_string_of_tree? {s : Source} {d : Nat} {t : String}
    (h : s.tree? d = some (.string t)) : ∃ q, s = .string q := by
  cases s with
  | string q => exact ⟨q,rfl⟩
  | null | boolean => cases h
  | number negative u =>
    obtain ⟨n,_,hn⟩ := Option.map_eq_some_iff.mp h
    cases hn
  | list xs =>
    cases d with
    | zero => cases h
    | succ d =>
      obtain ⟨js,_,hj⟩ := Option.map_eq_some_iff.mp h
      cases hj
  | object ms =>
    cases d with
    | zero => cases h
    | succ d =>
      obtain ⟨js,_,hj⟩ := Option.map_eq_some_iff.mp h
      cases hj

namespace Form

/-- The form is read from text as it is taken from the tree that the text means. -/
def Exact (f : Form α) : Prop :=
  ∀ (s : Source) (d : Nat) (more : List Token), Delimited more →
    Leads (f.read d) (s.tokens++more)
      (outcome ((s.tree? d).bind fun j => (f.ofJson j.canonical).toOption)) more

theorem exact_json : json.Exact := by
  intro s d more hd
  have h := (leads_value s d more hd).map_outcome Json.canonical
  rw [bind_pure_comp,Option.map_eq_bind] at h
  exact h

theorem toOption_ofJson_string {wanted : String} {j : Json} (h : ∀ t, j ≠ .string t) :
    ((string wanted).ofJson j.canonical).toOption = none := by
  cases j with
  | string t => exact absurd rfl (h t)
  | null | boolean | number | list | object => rfl

theorem exact_string (wanted : String) : (string wanted).Exact := by
  intro s d more hd
  obtain ⟨c,t,us,ht,hc,hs,_,hq⟩ := s.exists_first
  by_cases h : c = '"'
  · obtain ⟨q,rfl⟩ := hq.mp h
    refine leads_token (c := '"') (by decide) (by decide) fun bs _ => ?_
    change run? (do advance; Reader.string) _ = _
    rw [run?_bind_ok (run_advance _ _),List.append_assoc]
    refine (run?_string q bs).trans ?_
    rw [Source.tree?]
    cases q.text? <;> rfl
  · have hn : (s.tree? d).bind (fun j => ((string wanted).ofJson j.canonical).toOption) = none := by
      rw [Option.bind_eq_none_iff]
      intro j hj
      refine toOption_ofJson_string ?_
      rintro t rfl
      exact h (hq.mpr (Source.eq_string_of_tree? hj))
    rw [hn,ht]
    refine leads_stay hc hs ?_
    rw [if_neg (by simp [h])]
    exact leads_mismatch wanted _ _

theorem toOption_bind (x : Except Fault α) (f : α → Except Fault β) :
    (x >>= f).toOption = x.toOption.bind fun a => (f a).toOption := by
  cases x <;> rfl

theorem leads_lift (x : Except Fault α) (ts : List Token) :
    Leads (StateT.lift x) ts (outcome x.toOption) ts := by
  intro bs hb
  refine ⟨bs,hb,?_⟩
  cases x <;> rfl

theorem Exact.map {f : Form α} {decode : α → Except Fault β} {encode : β → α} (h : f.Exact) :
    (f.map decode encode).Exact := by
  intro s d more hd
  have hb := (h s d more hd).bind_outcome fun a _ => leads_lift (decode a) more
  rw [Option.bind_assoc] at hb
  have hj : ∀ j, ((f.map decode encode).ofJson j).toOption =
      (f.ofJson j).toOption.bind fun a => (decode a).toOption := fun j => toOption_bind _ _
  simp only [hj]
  exact hb

end Form

namespace Field

/-- The field is read from text as it is taken from the tree that the text means. -/
def Exact (f : Field σ α) : Prop :=
  ∀ (s : Source) (d : Nat) (t : σ) (more : List Token), Delimited more →
    Leads (f.read d t) (s.tokens++more)
      (outcome ((s.tree? d).bind fun j => (f.ofJson j.canonical t).toOption)) more

theorem exact_ofForm {name : String} {f : Form β} {slot : σ → Option β} {fill : σ → β → σ}
    {toJson? : α → Option Json} {optional : Bool} (h : f.Exact) :
    (ofForm name f slot fill toJson? optional : Field σ α).Exact := by
  intro s d t more hd
  have hb := (h s d more hd).map_outcome (fill t)
  rw [Option.map_bind] at hb
  have hj : ∀ j, ((ofForm name f slot fill toJson? optional : Field σ α).ofJson j t).toOption =
      (f.ofJson j).toOption.map (fill t) := by
    intro j
    change (f.ofJson j >>= fun b => .ok (fill t b)).toOption = _
    cases f.ofJson j <;> rfl
  simp only [hj]
  exact hb

end Field

namespace Record

variable {r : Record σ α}

/-- A member as the record sees it: of an unknown one only the name. -/
def seen? (r : Record σ α) (d : Nat) (m : Quoted × Source) : Option (String × Json) := do
  let k ← m.1.text?
  if (r.field? k).isSome then return (k,(← m.2.tree? d).canonical) else return (k,.null)

section Seen

variable {d : Nat} {m : Quoted × Source} {k : String}

theorem seen?_of_none (hk : m.1.text? = none) : r.seen? d m = none := by
  rw [seen?,hk]
  rfl

theorem seen?_of_unknown (hk : m.1.text? = some k) (hf : r.field? k = none) :
    r.seen? d m = some (k,.null) := by
  rw [seen?,hk]
  simp [hf]

theorem seen?_of_known (hk : m.1.text? = some k) (hf : (r.field? k).isSome) :
    r.seen? d m = (m.2.tree? d).map fun j => (k,j.canonical) := by
  rw [seen?,hk]
  simp only [Option.bind_eq_bind,Option.bind_some,hf,if_true]
  cases m.2.tree? d <;> rfl

theorem text?_of_seen? {j : String × Json} (h : r.seen? d m = some j) :
    m.1.text? = some j.1 := by
  cases hk : m.1.text? with
  | none =>
    rw [seen?_of_none hk] at h
    cases h
  | some k =>
    cases hf : r.field? k with
    | none =>
      rw [seen?_of_unknown hk hf] at h
      cases h
      rfl
    | some f =>
      rw [seen?_of_known hk (by rw [hf]; rfl)] at h
      obtain ⟨i,_,rfl⟩ := Option.map_eq_some_iff.mp h
      rfl

theorem tree?_of_seen? {j : String × Json} (h : r.seen? d m = some j)
    (hf : (r.field? j.1).isSome) : ∃ i, m.2.tree? d = some i ∧ i.canonical = j.2 := by
  rw [seen?_of_known (text?_of_seen? h) hf] at h
  obtain ⟨i,hi,h⟩ := Option.map_eq_some_iff.mp h
  exact ⟨i,hi,(Prod.mk.inj h).2⟩

end Seen

/-- What reading a member comes to. -/
def step? (r : Record σ α) (d : Nat) (k : String) (t : σ) (v : Source) : Option σ :=
  match r.field? k with
  | some f =>
    if f.isSet t then none else (v.tree? d).bind fun j => (f.ofJson j.canonical t).toOption
  | none => some t

theorem leads_readMember (hr : ∀ f ∈ r.fields, f.Exact) (d : Nat) (k : String) (t : σ)
    (v : Source) {more : List Token} (hd : Delimited more) :
    Leads (r.readMember d k t) (mark ':'::(v.tokens++more)) (outcome (r.step? d k t v)) more := by
  rw [readMember,step?]
  cases hf : r.field? k with
  | none => exact (leads_colon _).bind_pure ((leads_skipValue v hd).bind_pure (Leads.refl _ _))
  | some f =>
    dsimp only
    split
    · exact leads_of_fails (fun _ => rfl) _ _
    · exact (leads_colon _).bind_pure (hr f (mem_of_field? hf).1 v d t more hd)

theorem toOption_foldlM_cons (t : σ) (m : String × Json) (js : List (String × Json)) :
    ((m::js).foldlM r.memberOfJson t).toOption =
      (r.memberOfJson t m).toOption.bind fun u => (js.foldlM r.memberOfJson u).toOption := by
  rw [List.foldlM_cons,Form.toOption_bind]

/-- A member that is unknown changes nothing, and one that is known counts by its tree alone. -/
theorem foldMembers_step? (d : Nat) (ms : List (Quoted × Source)) (t : σ) :
    foldMembers (r.step? d) ms t =
      (ms.mapM (r.seen? d)).bind fun js => (js.foldlM r.memberOfJson t).toOption := by
  induction ms generalizing t with
  | nil => rfl
  | cons m ms ih =>
    rw [foldMembers_cons,List.mapM_cons]
    simp only [Option.bind_eq_bind]
    cases hk : m.1.text? with
    | none => simp [seen?_of_none hk]
    | some k =>
      rw [Option.bind_some,step?]
      cases hf : r.field? k with
      | none =>
        have hm : r.memberOfJson t (k,.null) = .ok t := memberOfJson_of_none hf t
        rw [seen?_of_unknown hk hf]
        cases hs : ms.mapM (r.seen? d) with
        | none => simp [ih,hs]
        | some js =>
          simp only [ih,hs,Option.bind_some]
          change _ = (((k,.null)::js).foldlM r.memberOfJson t).toOption
          rw [toOption_foldlM_cons,hm]
          rfl
      | some f =>
        rw [seen?_of_known hk (by rw [hf]; rfl)]
        cases m.2.tree? d with
        | none => simp
        | some j =>
          have hm : r.memberOfJson t (k,j.canonical) =
              if f.isSet t then .error (.duplicateField k) else f.ofJson j.canonical t := by
            rw [memberOfJson,hf]
          cases hs : ms.mapM (r.seen? d) with
          | none => simp [ih,hs]
          | some js =>
            simp only [ih,hs,Option.bind_some,Option.map_some]
            change _ = (((k,j.canonical)::js).foldlM r.memberOfJson t).toOption
            rw [toOption_foldlM_cons,hm]
            split <;> rfl

/-- An object comes to what the record makes of the members that it sees. -/
theorem leads_form (hr : ∀ f ∈ r.fields, f.Exact) (d : Nat) (ms : List (Quoted × Source))
    (more : List Token) :
    Leads (r.form.read (d+1)) ((Source.object ms).tokens++more)
      (outcome ((ms.mapM (r.seen? d)).bind fun js => (r.ofMembers js).toOption)) more := by
  have ho := leads_object (r.step? d) ms (fun m _ k t _ hd => leads_readMember hr d k t m.2 hd)
    r.empty more
  rw [foldMembers_step?] at ho
  have hb := ho.bind_outcome fun s _ => Form.leads_lift (r.build s) more
  rw [Option.bind_assoc] at hb
  have hj : ∀ js, (r.ofMembers js).toOption =
      (js.foldlM r.memberOfJson r.empty).toOption.bind fun s => (r.build s).toOption :=
    fun js => Form.toOption_bind _ _
  simp only [hj]
  rw [Source.tokens,List.cons_append,List.append_assoc]
  exact (leads_mark (by decide) (by decide) rfl).trans hb

theorem toOption_readText (hr : ∀ f ∈ r.fields, f.Exact) {ms : List (Quoted × Source)}
    {bs : List UInt8} (h : (Source.object ms).Text bs) : (r.form.readText bs).toOption =
      (ms.mapM (r.seen? 126)).bind fun js => (r.ofMembers js).toOption := by
  rw [Source.Text,← List.append_nil (Source.object ms).tokens] at h
  obtain ⟨cs,hc,he⟩ := leads_form hr 126 ms [] bs h
  obtain ⟨hc⟩ := hc
  have hs : cs.all isSpace = true := List.all_eq_true.mpr hc
  rw [Form.readText,toOption_run]
  change (run? (r.form.read (126+1)) bs).bind _ = _
  rw [he]
  cases (ms.mapM (r.seen? 126)).bind fun js => (r.ofMembers js).toOption with
  | none => rfl
  | some a =>
    change (if cs.all isSpace = true then _ else _) = _
    rw [if_pos hs]

end Record
end PathVector
