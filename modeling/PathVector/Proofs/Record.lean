import PathVector.Json.Record
import PathVector.Proofs.Form
import PathVector.Proofs.Yield

/-! Laws of records. The fields of a record fill different slots, so the members of an object may
stand in any order. Reading the text of a record is taking it from the tree, and what is written
comes back. -/
namespace PathVector

variable {σ α β γ : Type}

theorem foldlM_perm {step : σ → β → Except Fault σ}
    (hc : ∀ s t u x y, step s x = .ok t → step t y = .ok u →
      ∃ t', step s y = .ok t' ∧ step t' x = .ok u)
    {xs ys : List β} (p : xs.Perm ys) {s t : σ} (h : xs.foldlM step s = .ok t) :
    ys.foldlM step s = .ok t := by
  induction p generalizing s with
  | nil => exact h
  | cons x _ ih =>
    rw [List.foldlM_cons] at h ⊢
    obtain ⟨u,hu,h⟩ := of_bind_eq_ok h
    rw [hu]
    exact ih h
  | swap x y zs =>
    rw [List.foldlM_cons] at h
    obtain ⟨u,hu,h⟩ := of_bind_eq_ok h
    rw [List.foldlM_cons] at h
    obtain ⟨v,hv,h⟩ := of_bind_eq_ok h
    obtain ⟨w,hw,hv⟩ := hc s u v y x hu hv
    rw [List.foldlM_cons,hw]
    change (y::zs).foldlM step w = _
    rw [List.foldlM_cons,hv]
    exact h
  | trans _ _ ih₁ ih₂ => exact ih₂ (ih₁ h)

namespace Field

open Reader

/-- Where the tree has a value for the field, its text has the same. -/
def Agrees (f : Field σ α) : Prop :=
  ∀ (d : Nat) (j : Json) (s t : σ), j.Portable d → f.ofJson j s = .ok t → ∀ bs, Stops bs →
    StateT.run (f.read d s) (Utf8.encode j.chars++bs) = .ok (t,bs)

/-- A field that has been read counts as filled. -/
def Fills (f : Field σ α) : Prop := ∀ j s t, f.ofJson j s = .ok t → f.isSet t = true

/-- The trees that the field writes are at most so deep and have exact numbers. -/
def Fits (f : Field σ α) (d : Nat) : Prop :=
  ∀ a j, f.toJson? a = some j → j.depth ≤ d ∧ ∀ n ∈ j.numbers, n.Exact

/-- Fields of different slots: neither sees whether the other is filled, and they may be filled in
either order. -/
structure Apart (f g : Field σ α) : Prop where
  left : ∀ {j s t}, f.ofJson j s = .ok t → g.isSet t = g.isSet s
  right : ∀ {j s t}, g.ofJson j s = .ok t → f.isSet t = f.isSet s
  swap : ∀ {i j s t u}, f.ofJson i s = .ok t → g.ofJson j t = .ok u →
    ∃ t', g.ofJson j s = .ok t' ∧ f.ofJson i t' = .ok u
  swap' : ∀ {i j s t u}, g.ofJson i s = .ok t → f.ofJson j t = .ok u →
    ∃ t', f.ofJson j s = .ok t' ∧ g.ofJson i t' = .ok u

theorem Apart.symm {f g : Field σ α} (h : f.Apart g) : g.Apart f :=
  ⟨h.right,h.left,h.swap',h.swap⟩

instance : Std.Symm (Apart : Field σ α → Field σ α → Prop) := ⟨fun _ _ h => h.symm⟩

section OfForm

variable {name : String} {f : Form β} {slot : σ → Option β} {fill : σ → β → σ}
  {toJson? : α → Option Json} {optional : Bool}

theorem ofForm_eq_ok {j : Json} {s t : σ} :
    (ofForm name f slot fill toJson? optional).ofJson j s = .ok t ↔
      ∃ b, f.ofJson j = .ok b ∧ fill s b = t := by
  change (f.ofJson j >>= fun b => .ok (fill s b)) = _ ↔ _
  cases f.ofJson j with
  | error e => simp [bind,Except.bind]
  | ok b => simp [bind,Except.bind]

theorem ofJson_ofForm_map {u : σ → σ} (h : ∀ s b, fill (u s) b = u (fill s b)) (j : Json)
    (s : σ) : (ofForm name f slot fill toJson? optional : Field σ α).ofJson j (u s) =
      ((ofForm name f slot fill toJson? optional : Field σ α).ofJson j s).map u := by
  change (f.ofJson j >>= fun b => .ok (fill (u s) b)) =
    Except.map u (f.ofJson j >>= fun b => .ok (fill s b))
  cases f.ofJson j with
  | error e => rfl
  | ok b => exact congrArg Except.ok (h s b)

theorem fills_ofForm (h : ∀ s b, slot (fill s b) = some b) :
    (ofForm name f slot fill toJson? optional : Field σ α).Fills := by
  intro j s t ht
  obtain ⟨b,_,rfl⟩ := ofForm_eq_ok.mp ht
  exact congrArg Option.isSome (h s b)

theorem yields_ofForm {I : σ → Prop} {P : β → Prop} {d : Nat} (h : (f.read d).Yields P) {s : σ}
    (hI : ∀ b, P b → I (fill s b)) :
    ((ofForm name f slot fill toJson? optional).read d s).Yields I :=
  h.bind fun b hb => yields_pure (hI b hb)

theorem agrees_ofForm (h : f.Agrees) :
    (ofForm name f slot fill toJson? optional : Field σ α).Agrees := by
  intro d j s t hp ht bs hs
  obtain ⟨b,hb,rfl⟩ := ofForm_eq_ok.mp ht
  change StateT.run (f.read d >>= fun b => pure (fill s b)) _ = _
  rw [run_bind_ok ((h d j b hp hb).2 bs hs)]
  rfl

variable {name' : String} {g : Form γ} {slot' : σ → Option γ} {fill' : σ → γ → σ}
  {toJson?' : α → Option Json} {optional' : Bool}

theorem apart_ofForm (hs : ∀ s b, slot' (fill s b) = slot' s)
    (hs' : ∀ s c, slot (fill' s c) = slot s)
    (hf : ∀ s b c, fill' (fill s b) c = fill (fill' s c) b) :
    Apart (ofForm name f slot fill toJson? optional)
      (ofForm name' g slot' fill' toJson?' optional') where
  left h := by
    obtain ⟨b,_,rfl⟩ := ofForm_eq_ok.mp h
    exact congrArg Option.isSome (hs _ b)
  right h := by
    obtain ⟨c,_,rfl⟩ := ofForm_eq_ok.mp h
    exact congrArg Option.isSome (hs' _ c)
  swap h₁ h₂ := by
    obtain ⟨b,hb,rfl⟩ := ofForm_eq_ok.mp h₁
    obtain ⟨c,hc,rfl⟩ := ofForm_eq_ok.mp h₂
    exact ⟨_,ofForm_eq_ok.mpr ⟨c,hc,rfl⟩,ofForm_eq_ok.mpr ⟨b,hb,(hf _ b c).symm⟩⟩
  swap' h₁ h₂ := by
    obtain ⟨c,hc,rfl⟩ := ofForm_eq_ok.mp h₁
    obtain ⟨b,hb,rfl⟩ := ofForm_eq_ok.mp h₂
    exact ⟨_,ofForm_eq_ok.mpr ⟨b,hb,rfl⟩,ofForm_eq_ok.mpr ⟨c,hc,hf _ b c⟩⟩

theorem fits_required {get : α → β} {d : Nat} (h : f.Fits d) :
    (required name f slot fill get).Fits d := by
  intro a j hj
  cases hj
  exact h (get a)

theorem fits_optionally {slot : σ → Option (Option β)} {fill : σ → Option β → σ}
    {get : α → Option β} {d : Nat} (h : f.Fits d) :
    (optionally name f slot fill get).Fits d := by
  intro a j hj
  obtain ⟨b,_,rfl⟩ := Option.map_eq_some_iff.mp hj
  exact h b

/-- What the field writes of `a`, if anything, leads from the slots `s` to `t`. -/
def Restores (f : Field σ α) (a : α) (s t : σ) : Prop :=
  match f.toJson? a with
  | some j => f.isSet s = false ∧ f.ofJson j.canonical s = .ok t
  | none => s = t

theorem restores_required {get : α → β} (h : f.Inverts) {a : α} {s : σ} (hs : slot s = none) :
    (required name f slot fill get).Restores a s (fill s (get a)) :=
  ⟨congrArg Option.isSome hs,ofForm_eq_ok.mpr ⟨get a,h (get a),rfl⟩⟩

theorem optional_ofJson {j : Json} (h : j ≠ .null) :
    f.optional.ofJson j = some <$> f.ofJson j := by
  cases j with
  | null => exact absurd rfl h
  | boolean | number | string | list | object => rfl

theorem restores_optionally {slot : σ → Option (Option β)} {fill : σ → Option β → σ}
    {get : α → Option β} (h : f.Inverts) (hn : ∀ b, (f.toJson b).canonical ≠ .null) {a : α}
    {s : σ} (hs : slot s = none) : (optionally name f slot fill get).Restores a s
      (match get a with
      | some b => fill s (some b)
      | none => s) := by
  unfold Restores optionally ofForm
  dsimp only
  cases get a with
  | none => rfl
  | some b =>
    refine ⟨congrArg Option.isSome hs,?_⟩
    dsimp only
    rw [optional_ofJson (hn b),h b]
    rfl

end OfForm

end Field

namespace Record

open Reader

variable {r : Record σ α}

/-- A record whose fields have different names and fill different slots, each its own. -/
structure Lawful (r : Record σ α) : Prop where
  names : (r.fields.map (·.name)).Nodup
  fills : ∀ f ∈ r.fields, f.Fills
  apart : r.fields.Pairwise Field.Apart

theorem mem_of_field? {name : String} {f : Field σ α} (h : r.field? name = some f) :
    f ∈ r.fields ∧ f.name = name :=
  ⟨List.mem_of_find?_eq_some h,by simpa using List.find?_some h⟩

theorem memberOfJson_of_some {m : String × Json} {f : Field σ α} (hf : r.field? m.1 = some f)
    {s t : σ} (h : r.memberOfJson s m = .ok t) : f.isSet s = false ∧ f.ofJson m.2 s = .ok t := by
  rw [memberOfJson,hf] at h
  dsimp only at h
  split at h
  · cases h
  · exact ⟨eq_false_of_ne_true ‹¬ f.isSet s = true›,h⟩

theorem memberOfJson_of_none {m : String × Json} (hf : r.field? m.1 = none) (s : σ) :
    r.memberOfJson s m = .ok s := by
  rw [memberOfJson,hf]

/-- Two members may be exchanged: they belong to different fields, or one to none. -/
theorem Lawful.swap_members (h : r.Lawful) (s t u : σ) (m n : String × Json)
    (hm : r.memberOfJson s m = .ok t) (hn : r.memberOfJson t n = .ok u) :
    ∃ t', r.memberOfJson s n = .ok t' ∧ r.memberOfJson t' m = .ok u := by
  cases hf : r.field? m.1 with
  | none =>
    rw [memberOfJson_of_none hf] at hm
    cases hm
    exact ⟨u,hn,memberOfJson_of_none hf u⟩
  | some f =>
    cases hg : r.field? n.1 with
    | none =>
      rw [memberOfJson_of_none hg] at hn
      cases hn
      exact ⟨s,memberOfJson_of_none hg s,hm⟩
    | some g =>
      obtain ⟨hfs,hfm⟩ := memberOfJson_of_some hf hm
      obtain ⟨hgs,hgn⟩ := memberOfJson_of_some hg hn
      obtain ⟨hfr,hfn⟩ := mem_of_field? hf
      obtain ⟨hgr,hgn'⟩ := mem_of_field? hg
      have hfg : f ≠ g := by
        rintro rfl
        rw [h.fills f hfr _ _ _ hfm] at hgs
        cases hgs
      have ha : Field.Apart f g := h.apart.forall hfr hgr hfg
      obtain ⟨t',ht,hu⟩ := ha.swap hfm hgn
      refine ⟨t',?_,?_⟩
      · rw [memberOfJson,hg]
        dsimp only
        rw [← ha.left hfm,hgs]
        exact ht
      · rw [memberOfJson,hf]
        dsimp only
        rw [ha.right ht,hfs]
        exact hu

/-- The order of the members does not matter. -/
theorem Lawful.ofMembers_perm (h : r.Lawful) {ms ns : List (String × Json)} (p : ms.Perm ns)
    {a : α} (ha : r.ofMembers ms = .ok a) : r.ofMembers ns = .ok a := by
  obtain ⟨s,hs,ha⟩ := of_bind_eq_ok ha
  rw [ofMembers,foldlM_perm h.swap_members p hs]
  exact ha

theorem follows_readMember (hr : ∀ f ∈ r.fields, f.Agrees) {d : Nat} {m : String × Json}
    (hk : (r.field? m.1).isSome) (hp : m.2.Portable d) :
    Follows (r.readMember d) r.memberOfJson m := by
  intro s t hst bs hbs
  obtain ⟨f,hf⟩ := Option.isSome_iff_exists.mp hk
  obtain ⟨hs,ht⟩ := memberOfJson_of_some hf hst
  rw [readMember,hf]
  dsimp only
  rw [if_neg (by simp [hs]),run_bind_ok (run_colon _ _)]
  exact hr f (mem_of_field? hf).1 d m.2 s t hp ht bs hbs

theorem takes_object (hr : ∀ f ∈ r.fields, f.Agrees) {d : Nat} {ms : List (String × Json)}
    (hk : ∀ m ∈ ms, (r.field? m.1).isSome) (hp : ∀ m ∈ ms, m.2.Portable d) {a : α}
    (h : r.ofMembers ms = .ok a) : Takes (r.form.read (d+1)) (Json.object ms).chars a := by
  obtain ⟨s,hs,ha⟩ := of_bind_eq_ok h
  refine ⟨⟨'\x7b',_,rfl,by decide,by decide,by decide⟩,fun bs _ => ?_⟩
  have ho := run_object (fun m hm => follows_readMember hr (hk m hm) (hp m hm)) hs bs
  rw [Json.chars,List.cons_append,encode_ascii (by decide)]
  change StateT.run (peekToken >>= fun c => _) _ = _
  rw [run_bind_ok (run_peekToken (by decide) (by decide) _)]
  change StateT.run (do
    advance
    let s ← object (r.readMember d) r.empty
    StateT.lift (r.build s)) _ = _
  rw [run_bind_ok (run_advance _ _),run_bind_ok ho,ha]
  rfl

theorem sublist_names (r : Record σ α) (a : α) :
    ((r.members a).map (·.1)).Sublist (r.fields.map (·.name)) := by
  rw [members]
  induction r.fields with
  | nil => simp
  | cons f fs ih =>
    cases hf : f.toJson? a with
    | none =>
      rw [List.filterMap_cons_none (by simp [hf])]
      exact ih.cons _
    | some j =>
      rw [List.filterMap_cons_some (by simp [hf]; rfl)]
      exact ih.cons_cons _

theorem Lawful.field?_of_mem (h : r.Lawful) {f : Field σ α} (hf : f ∈ r.fields) :
    r.field? f.name = some f := by
  obtain ⟨g,hg⟩ := Option.isSome_iff_exists.mp
    (List.find?_isSome.mpr ⟨f,hf,decide_eq_true rfl⟩ :
      (r.fields.find? fun g => decide (g.name = f.name)).isSome)
  obtain ⟨hm,hn⟩ := mem_of_field? hg
  exact hg.trans (congrArg some (List.inj_on_of_nodup_map h.names hm hf hn))

/-- What the fields write of `a`, one after another, leads from the slots `s` to `t`. -/
inductive Restores (a : α) : List (Field σ α) → σ → σ → Prop where
  | nil {s : σ} : Restores a [] s s
  | cons {f : Field σ α} {fs : List (Field σ α)} {s t u : σ} (h : f.Restores a s t)
    (hs : Restores a fs t u) : Restores a (f::fs) s u

theorem Lawful.foldlM_of_restores (h : r.Lawful) {a : α} {fs : List (Field σ α)} {s t : σ}
    (hr : Restores a fs s t) (hf : ∀ f ∈ fs, f ∈ r.fields) :
    ((fs.filterMap fun f => (f.toJson? a).map (f.name,·)).map
      fun m => (m.1,m.2.canonical)).foldlM r.memberOfJson s = .ok t := by
  induction hr with
  | nil => rfl
  | @cons f fs s t u hft _ ih =>
    have ih := ih fun g hg => hf g (List.mem_cons_of_mem f hg)
    unfold Field.Restores at hft
    cases hj : f.toJson? a with
    | none =>
      rw [hj] at hft
      cases hft
      rw [List.filterMap_cons_none (by simp [hj])]
      exact ih
    | some j =>
      rw [hj] at hft
      have hm : r.memberOfJson s (f.name,j.canonical) = .ok t := by
        rw [memberOfJson,h.field?_of_mem (hf f List.mem_cons_self)]
        dsimp only
        rw [if_neg (by simp [hft.1])]
        exact hft.2
      rw [List.filterMap_cons_some (by simp [hj]; rfl),List.map_cons,List.foldlM_cons,hm]
      exact ih

theorem Lawful.ofMembers_members (h : r.Lawful) {a : α}
    (hr : ∃ s, Restores a r.fields r.empty s ∧ r.build s = .ok a) :
    r.ofMembers ((r.members a).map fun m => (m.1,m.2.canonical)) = .ok a := by
  obtain ⟨s,hs,ha⟩ := hr
  rw [ofMembers,members,h.foldlM_of_restores hs fun f hf => hf]
  exact ha

theorem Lawful.inverts (h : r.Lawful)
    (hr : ∀ a, ∃ s, Restores a r.fields r.empty s ∧ r.build s = .ok a) : r.form.Inverts := by
  intro a
  change r.form.ofJson (Json.object (r.members a)).canonical = _
  rw [Json.canonical_object]
  have hk : (((r.members a).map fun m => (m.1,m.2.canonical)).map (·.1)).Nodup := by
    rw [List.map_map]
    exact (r.sublist_names a).nodup h.names
  exact h.ofMembers_perm (Json.sortMembers_perm hk).symm (h.ofMembers_members (hr a))

theorem fits_members {d : Nat} (h : ∀ f ∈ r.fields, f.Fits d) {a : α} {m : String × Json}
    (hm : m ∈ r.members a) : m.2.depth ≤ d ∧ ∀ n ∈ m.2.numbers, n.Exact := by
  obtain ⟨f,hf,hfm⟩ := List.mem_filterMap.mp hm
  obtain ⟨j,hj,rfl⟩ := Option.map_eq_some_iff.mp hfm
  exact h f hf a j hj

theorem fits_form {d : Nat} (h : ∀ f ∈ r.fields, f.Fits d) : r.form.Fits (d+1) :=
  fun _ => Json.fits_object fun _ hm => fits_members h hm

section Yields

variable {I : σ → Prop} {d : Nat}

theorem yields_readItems (fs : List (Field σ α))
    (h : ∀ f ∈ fs, ∀ s, I s → (f.read d s).Yields I) (i : Nat) {s : σ} (hs : I s) :
    (r.readItems d i fs s).Yields I := by
  induction fs generalizing i s with
  | nil => exact yields_pure hs
  | cons f fs ih =>
    have ih := fun i {s} => ih (fun g hg => h g (List.mem_cons_of_mem f hg)) i (s := s)
    refine yields_bind fun more => ?_
    split
    · exact (h f List.mem_cons_self s hs).bind fun t ht => ih (i+1) ht
    split
    · exact ih (i+1) hs
    · exact yields_throw _

theorem yields_readMember (h : ∀ f ∈ r.fields, ∀ s, I s → (f.read d s).Yields I)
    (name : String) (s : σ) (hs : I s) : (r.readMember d name s).Yields I := by
  unfold readMember
  split
  · rename_i f hf
    split
    · exact yields_throw _
    · exact yields_bind fun _ => h f (mem_of_field? hf).1 s hs
  · exact yields_bind fun _ => yields_bind fun _ => yields_pure hs

/-- What every field preserves holds of the slots that the record is built from. -/
theorem yields_form (h : ∀ f ∈ r.fields, ∀ s, I s → (f.read d s).Yields I) (h₀ : I r.empty) :
    (r.form.read (d+1)).Yields fun a => ∃ s, I s ∧ r.build s = .ok a := by
  have hb : ∀ s, I s → Yields (StateT.lift (r.build s)) fun a => ∃ s, I s ∧ r.build s = .ok a :=
    fun s hs bs a cs hr => ⟨s,hs,yields_lift _ bs a cs hr⟩
  refine yields_bind fun c => ?_
  split
  · dsimp only
    split
    · omega
    refine yields_bind fun _ => ?_
    split
    · exact (yields_readItems r.fields h 0 h₀).bind fun s hs =>
        yields_bind fun _ => (yields_pure hs).bind hb
    · exact (yields_object (yields_readMember h) h₀).bind hb
  · exact yields_mismatch _

end Yields

end Record
end PathVector
