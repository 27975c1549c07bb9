import PathVector.Proofs.Layout

/-! Reading text that is laid out in tokens. Each reader is told by what it does to the tokens that
are left, so blanks between them make no difference. -/
namespace PathVector

namespace Reader

variable {α β : Type} {ts us vs : List Token}

/-- Before the tokens `ts`, `r` comes to the same as `s` before `us`. -/
def Leads (r : Reader α) (ts : List Token) (s : Reader α) (us : List Token) : Prop :=
  ∀ bs, Spaced ts bs → ∃ cs, Spaced us cs ∧ run? r bs = run? s cs

/-- The reader that returns a value or stops. -/
def outcome : Option α → Reader α
  | some a => return a
  | none => throw .expectedValue

namespace Leads

variable {r s t : Reader α}

theorem refl (r : Reader α) (ts : List Token) : Leads r ts r ts := fun bs h => ⟨bs,h,rfl⟩

theorem trans (h : Leads r ts s us) (h' : Leads s us t vs) : Leads r ts t vs := by
  intro bs hb
  obtain ⟨cs,hc,he⟩ := h bs hb
  obtain ⟨ds,hd,he'⟩ := h' cs hc
  exact ⟨ds,hd,he.trans he'⟩

theorem bind (h : Leads r ts s us) (f : α → Reader β) : Leads (r >>= f) ts (s >>= f) us := by
  intro bs hb
  obtain ⟨cs,hc,he⟩ := h bs hb
  refine ⟨cs,hc,?_⟩
  rw [run?_bind,run?_bind,he]

theorem bind_pure {a : α} (h : Leads r ts (pure a) us) {f : α → Reader β} {s : Reader β}
    (hf : Leads (f a) us s vs) : Leads (r >>= f) ts s vs := by
  have hb := h.bind f
  rw [pure_bind] at hb
  exact hb.trans hf

end Leads

theorem leads_of_fails {r : Reader α} (h : ∀ bs, run? r bs = none) (ts us : List Token) :
    Leads r ts (outcome none) us :=
  fun bs _ => ⟨us.flatten,spaced_flatten us,h bs⟩

theorem Leads.bind_outcome {r : Reader α} {f : α → Reader β} {o : Option α} {g : α → Option β}
    (h : Leads r ts (outcome o) us) (hf : ∀ a, o = some a → Leads (f a) us (outcome (g a)) vs) :
    Leads (r >>= f) ts (outcome (o.bind g)) vs := by
  cases o with
  | some a => exact h.bind_pure (hf a rfl)
  | none =>
    intro bs hb
    obtain ⟨cs,_,he⟩ := h bs hb
    refine ⟨vs.flatten,spaced_flatten vs,?_⟩
    rw [run?_bind,he]
    rfl

theorem run_peekToken_blanks {ws : List UInt8} (h : ∀ b ∈ ws, isSpace b = true)
    (bs : List UInt8) : StateT.run peekToken (ws++bs) = StateT.run peekToken bs := by
  have hd : (ws++bs).dropWhile isSpace = bs.dropWhile isSpace := List.dropWhile_append_of_pos h
  change StateT.run peek ((ws++bs).dropWhile isSpace) = StateT.run peek (bs.dropWhile isSpace)
  rw [hd]

/-- A reader that looks at the next token stands right before it. -/
theorem leads_peekToken {f : Option Char → Reader α} {s : Reader α} {c : Char} {t : List UInt8}
    (hc : c.toNat ≤ 0x7f) (hs : isSpace (UInt8.ofNat c.toNat) = false)
    (h : ∀ bs, Spaced ts bs → ∃ cs, Spaced us cs ∧
      run? (f (some c)) (UInt8.ofNat c.toNat::(t++bs)) = run? s cs) :
    Leads (peekToken >>= f) ((UInt8.ofNat c.toNat::t)::ts) s us := by
  rintro _ (_ | @⟨ws,_,_,bs,hw,hb⟩)
  obtain ⟨cs,hcs,he⟩ := h bs hb
  refine ⟨cs,hcs,?_⟩
  rw [← he]
  refine run?_bind_ok ?_ f
  rw [run_peekToken_blanks hw,List.cons_append,run_peekToken hc hs]

theorem leads_mark {f : Option Char → Reader α} {s : Reader α} {c : Char} (hc : c.toNat ≤ 0x7f)
    (hs : isSpace (UInt8.ofNat c.toNat) = false) (h : f (some c) = do advance; s) :
    Leads (peekToken >>= f) (mark c::ts) s ts := by
  refine leads_peekToken hc hs fun bs hb => ⟨bs,hb,?_⟩
  rw [h]
  exact run?_bind_ok (run_advance _ _) _

theorem leads_stay {f : Option Char → Reader α} {s : Reader α} {c : Char} {t : List UInt8}
    (hc : c.toNat ≤ 0x7f) (hs : isSpace (UInt8.ofNat c.toNat) = false)
    (h : Leads (f (some c)) ((UInt8.ofNat c.toNat::t)::ts) s us) :
    Leads (peekToken >>= f) ((UInt8.ofNat c.toNat::t)::ts) s us :=
  leads_peekToken hc hs fun _ hb => h _ hb.cons_nil

theorem leads_token {f : Option Char → Reader α} {o : Option α} {c : Char} {t : List UInt8}
    (hc : c.toNat ≤ 0x7f) (hs : isSpace (UInt8.ofNat c.toNat) = false)
    (h : ∀ bs, Spaced ts bs → run? (f (some c)) (UInt8.ofNat c.toNat::(t++bs)) = o.map (·,bs)) :
    Leads (peekToken >>= f) ((UInt8.ofNat c.toNat::t)::ts) (outcome o) ts := by
  refine leads_peekToken hc hs fun bs hb => ⟨bs,hb,?_⟩
  rw [h bs hb]
  cases o <;> rfl

theorem leads_hasItem_end (first : Bool) (ts : List Token) :
    Leads (hasItem first) (mark ']'::ts) (pure false) (mark ']'::ts) :=
  leads_stay (by decide) (by decide) (Leads.refl _ _)

theorem leads_hasItem_first (h : OpensValue ts) : Leads (hasItem true) ts (pure true) ts := by
  obtain ⟨c,t,us,rfl,hc,hs,hb⟩ := h
  refine leads_stay hc hs ?_
  split
  · simp_all
  · simp_all
  · exact Leads.refl _ _

theorem leads_hasItem_next (h : OpensValue ts) :
    Leads (hasItem false) (mark ','::ts) (pure true) ts := by
  obtain ⟨c,t,us,rfl,hc,hs,hb⟩ := h
  refine (leads_mark (by decide) (by decide) rfl).trans (leads_stay hc hs ?_)
  split
  · simp_all
  · simp_all
  · exact Leads.refl _ _

theorem leads_endList (ts : List Token) : Leads endList (mark ']'::ts) (pure ()) ts :=
  leads_mark (by decide) (by decide) rfl

theorem leads_items_end (item : Reader α) (n : Nat) (first : Bool) (ts : List Token) :
    Leads (items item (n+1) first) (mark ']'::ts) (pure []) ts := by
  refine (leads_hasItem_end first ts).bind_pure ?_
  exact (leads_endList ts).bind_pure (Leads.refl _ _)

section Items

variable {item : Reader α} {o : Source → Option α}

theorem leads_items_rest {xs : List Source} (hx : ∀ x ∈ xs, OpensValue x.tokens ∧
      ∀ more, Delimited more → Leads item (x.tokens++more) (outcome (o x)) more)
    {n : Nat} (hn : xs.length < n) (more : List Token) :
    Leads (items item n false) ((xs.flatMap fun x => mark ','::x.tokens)++mark ']'::more)
      (outcome (xs.mapM o)) more := by
  induction xs generalizing n with
  | nil =>
    obtain ⟨n,rfl⟩ : ∃ m, n = m+1 := ⟨n-1,by simp at hn; omega⟩
    exact leads_items_end item n false more
  | cons x xs ih =>
    obtain ⟨n,rfl⟩ : ∃ m, n = m+1 := ⟨n-1,by omega⟩
    have ih := ih (fun y hy => hx y (List.mem_cons_of_mem x hy)) (n := n) (by simpa using hn)
    obtain ⟨ho,hx⟩ := hx x List.mem_cons_self
    have hd := delimited_rest xs Source.tokens (c := ']') (by decide) more
    rw [List.flatMap_cons,List.cons_append,List.cons_append,List.append_assoc,List.mapM_cons]
    refine (leads_hasItem_next (ho.append _)).bind_pure ?_
    refine (hx _ hd).bind_outcome fun a ha => ?_
    refine ih.bind_outcome fun as has => ?_
    exact Leads.refl _ _

theorem leads_items {xs : List Source} (hx : ∀ x ∈ xs, OpensValue x.tokens ∧
      ∀ more, Delimited more → Leads item (x.tokens++more) (outcome (o x)) more)
    {n : Nat} (hn : xs.length < n) (more : List Token) :
    Leads (items item n true) (Source.itemTokens xs++mark ']'::more) (outcome (xs.mapM o))
      more := by
  obtain ⟨n,rfl⟩ : ∃ m, n = m+1 := ⟨n-1,by omega⟩
  cases xs with
  | nil => exact leads_items_end item n true more
  | cons x xs =>
    have hr := leads_items_rest (fun y hy => hx y (List.mem_cons_of_mem x hy)) (n := n)
      (by simpa using hn) more
    obtain ⟨ho,hx⟩ := hx x List.mem_cons_self
    rw [Source.itemTokens_cons,List.append_assoc,List.mapM_cons]
    refine (leads_hasItem_first (ho.append _)).bind_pure ?_
    refine (hx _ (delimited_rest xs _ (by decide) more)).bind_outcome fun a ha => ?_
    exact hr.bind_outcome fun as has => Leads.refl _ _

theorem leads_list {xs : List Source} (hx : ∀ x ∈ xs, OpensValue x.tokens ∧
      ∀ more, Delimited more → Leads item (x.tokens++more) (outcome (o x)) more)
    (more : List Token) :
    Leads (list item) (Source.itemTokens xs++mark ']'::more) (outcome (xs.mapM o)) more := by
  intro bs hb
  obtain ⟨cs,hc,he⟩ := leads_items hx (Source.length_lt_of_items hb) more bs hb
  refine ⟨cs,hc,?_⟩
  rw [list,run?_bind_ok (run_get _),he]

end Items

theorem run?_name (k : Quoted) (bs : List UInt8) :
    run? name (k.token++bs) = k.text?.map (·,bs) := by
  rw [name,Quoted.token,List.cons_append,run?_bind_ok (run_advance _ _),List.append_assoc]
  exact run?_string k bs

section Name

variable {f : Bool → Reader β} {g : String → Reader β} {o : String → Option β} {k : Quoted}

/-- The name of a member is read right where it was found. -/
theorem run?_bind_name (hg : ∀ k', Leads (g k') ts (outcome (o k')) us) {bs : List UInt8}
    (hb : Spaced ts bs) : ∃ cs, Spaced us cs ∧
      run? (name >>= g) (k.token++bs) = run? (outcome (k.text?.bind o)) cs := by
  rw [run?_bind,run?_name]
  cases k.text? with
  | none => exact ⟨us.flatten,spaced_flatten us,rfl⟩
  | some k => exact hg k bs hb

theorem leads_hasMember_first (hf : f true = name >>= g)
    (hg : ∀ k', Leads (g k') ts (outcome (o k')) us) :
    Leads (hasMember true >>= f) (k.token::ts) (outcome (k.text?.bind o)) us := by
  rw [hasMember,bind_assoc]
  refine leads_peekToken (c := '"') (by decide) (by decide) fun bs hb => ?_
  change ∃ cs, _ ∧ run? (f true) _ = _
  rw [hf]
  exact run?_bind_name hg hb

theorem leads_hasMember_next (hf : f true = name >>= g)
    (hg : ∀ k', Leads (g k') ts (outcome (o k')) us) :
    Leads (hasMember false >>= f) (mark ','::k.token::ts) (outcome (k.text?.bind o)) us := by
  have hcomma : Leads (hasMember false) (mark ','::k.token::ts) _ (k.token::ts) :=
    leads_mark (by decide) (by decide) rfl
  refine (hcomma.bind f).trans ?_
  rw [bind_assoc]
  refine leads_peekToken (c := '"') (by decide) (by decide) fun bs hb => ?_
  change ∃ cs, _ ∧ run? (f true) _ = _
  rw [hf]
  exact run?_bind_name hg hb

end Name

theorem leads_members_end (member : String → α → Reader α) (n : Nat) (first : Bool) (a : α)
    (ts : List Token) :
    Leads (members member (n+1) first a) (mark '\x7d'::ts) (pure a) ts := by
  have hh : Leads (hasMember first) (mark '\x7d'::ts) (pure false) (mark '\x7d'::ts) :=
    leads_stay (by decide) (by decide) (Leads.refl _ _)
  have he : Leads endObject (mark '\x7d'::ts) (pure ()) ts :=
    leads_mark (by decide) (by decide) rfl
  refine hh.bind_pure ?_
  exact he.bind_pure (Leads.refl _ _)

theorem leads_colon (ts : List Token) : Leads colon (mark ':'::ts) (pure ()) ts :=
  leads_mark (by decide) (by decide) rfl

section Members

variable {member : String → α → Reader α} {step : String → α → Source → Option α}

/-- The members in order, each with the name that is meant. -/
def foldMembers (step : String → α → Source → Option α) (ms : List (Quoted × Source)) (a : α) :
    Option α :=
  ms.foldlM (fun a m => m.1.text?.bind fun k => step k a m.2) a

theorem foldMembers_cons (m : Quoted × Source) (ms : List (Quoted × Source)) (a : α) :
    foldMembers step (m::ms) a =
      m.1.text?.bind fun k => (step k a m.2).bind (foldMembers step ms) := by
  rw [foldMembers,List.foldlM_cons]
  exact Option.bind_assoc _ _ _

theorem leads_members_rest {ms : List (Quoted × Source)}
    (hm : ∀ m ∈ ms, ∀ k a more, Delimited more →
      Leads (member k a) (mark ':'::(m.2.tokens++more)) (outcome (step k a m.2)) more)
    {n : Nat} (hn : ms.length < n) (a : α) (more : List Token) :
    Leads (members member n false a)
      ((ms.flatMap fun m => mark ','::Source.tokensOfMember m)++mark '\x7d'::more)
      (outcome (foldMembers step ms a)) more := by
  induction ms generalizing n a with
  | nil =>
    obtain ⟨n,rfl⟩ : ∃ m, n = m+1 := ⟨n-1,by simp at hn; omega⟩
    exact leads_members_end member n false a more
  | cons m ms ih =>
    obtain ⟨n,rfl⟩ : ∃ m, n = m+1 := ⟨n-1,by omega⟩
    have ih := ih (fun k hk => hm k (List.mem_cons_of_mem m hk)) (n := n) (by simpa using hn)
    rw [List.flatMap_cons,List.cons_append,List.cons_append,Source.tokensOfMember,List.cons_append,
      List.cons_append,List.cons_append,List.cons_append,List.append_assoc,foldMembers_cons]
    refine leads_hasMember_next rfl fun k => ?_
    have hd := delimited_rest ms Source.tokensOfMember (c := '\x7d') (by decide) more
    exact (hm m List.mem_cons_self k a _ hd).bind_outcome fun b hb => ih b

theorem leads_members {ms : List (Quoted × Source)}
    (hm : ∀ m ∈ ms, ∀ k a more, Delimited more →
      Leads (member k a) (mark ':'::(m.2.tokens++more)) (outcome (step k a m.2)) more)
    {n : Nat} (hn : ms.length < n) (a : α) (more : List Token) :
    Leads (members member n true a) (Source.memberTokens ms++mark '\x7d'::more)
      (outcome (foldMembers step ms a)) more := by
  obtain ⟨n,rfl⟩ : ∃ m, n = m+1 := ⟨n-1,by omega⟩
  cases ms with
  | nil => exact leads_members_end member n true a more
  | cons m ms =>
    have hr := leads_members_rest (fun k hk => hm k (List.mem_cons_of_mem m hk)) (n := n)
      (by simpa using hn)
    rw [Source.memberTokens_cons,List.append_assoc,Source.tokensOfMember,List.cons_append,
      List.cons_append,foldMembers_cons]
    refine leads_hasMember_first rfl fun k => ?_
    have hd := delimited_rest ms Source.tokensOfMember (c := '\x7d') (by decide) more
    exact (hm m List.mem_cons_self k a _ hd).bind_outcome fun b hb => hr b more

theorem leads_object (step : String → α → Source → Option α) (ms : List (Quoted × Source))
    (hm : ∀ m ∈ ms, ∀ k a more, Delimited more →
      Leads (member k a) (mark ':'::(m.2.tokens++more)) (outcome (step k a m.2)) more)
    (a : α) (more : List Token) :
    Leads (object member a) (Source.memberTokens ms++mark '\x7d'::more)
      (outcome (foldMembers step ms a)) more := by
  intro bs hb
  obtain ⟨cs,hc,he⟩ := leads_members hm (Source.length_lt_of_members hb) a more bs hb
  refine ⟨cs,hc,?_⟩
  rw [object,run?_bind_ok (run_get _),he]

end Members

theorem Leads.map_outcome {r : Reader α} {o : Option α} (h : Leads r ts (outcome o) us)
    (f : α → β) : Leads (r >>= fun a => pure (f a)) ts (outcome (o.map f)) us := by
  rw [Option.map_eq_bind]
  exact h.bind_outcome fun a _ => Leads.refl _ _

theorem leads_throw {f : Option Char → Reader α} {c : Char} {t : List UInt8}
    (hc : c.toNat ≤ 0x7f) (hs : isSpace (UInt8.ofNat c.toNat) = false) {e : Fault}
    (h : f (some c) = throw e) (us : List Token) :
    Leads (peekToken >>= f) ((UInt8.ofNat c.toNat::t)::ts) (outcome none) us :=
  leads_peekToken hc hs fun _ _ => ⟨us.flatten,spaced_flatten us,by rw [h]; rfl⟩

theorem foldMembers_tree (ms : List (Quoted × Source)) (d : Nat) (ns : List (String × Json)) :
    foldMembers (fun k ns v => (v.tree? d).map fun j => (k,j)::ns) ms ns =
      (Source.memberTrees? ms d).map (·.reverse++ns) := by
  induction ms generalizing ns with
  | nil => rfl
  | cons m ms ih =>
    obtain ⟨k,v⟩ := m
    rw [foldMembers_cons,Source.memberTrees?]
    cases k.text? with
    | none => rfl
    | some k =>
      cases v.tree? d with
      | none => rfl
      | some j =>
        simp only [Option.bind_some,Option.map_some,ih]
        cases Source.memberTrees? ms d <;> simp

theorem itemTrees?_eq_mapM (xs : List Source) (d : Nat) :
    Source.itemTrees? xs d = xs.mapM (·.tree? d) := by
  induction xs with
  | nil => rfl
  | cons x xs ih => rw [Source.itemTrees?,ih,List.mapM_cons]

theorem run?_map_outcome {r : Reader α} {o : Option α} {bs cs : List UInt8}
    (h : run? r bs = o.map (·,cs)) (f : α → β) :
    run? (r >>= fun a => pure (f a)) bs = (o.map f).map (·,cs) := by
  rw [run?_bind,h]
  cases o <;> rfl

theorem leads_valueOver_number (inner : Option (Reader Json)) (negative : Bool)
    (u : { bs : List UInt8 // Magnitude bs }) (d : Nat) {more : List Token} (hd : Delimited more) :
    Leads (valueOver inner) ((Source.number negative u).tokens++more)
      (outcome ((Source.number negative u).tree? d)) more := by
  cases negative with
  | true =>
    refine leads_token (c := '-') (by decide) (by decide) fun bs hb => ?_
    change run? (do advance; return Json.number (← number true)) _ = _
    rw [run?_bind_ok (run_advance _ _)]
    exact run?_map_outcome (run?_number u.2 true (hd.stops hb)) Json.number
  | false =>
    obtain ⟨c,us,hc,hu⟩ := u.2.exists_cons
    have hn := toNat_of_isDigit hc
    rw [Source.tokens,Source.tree?,hu]
    refine leads_token (by omega) (isSpace_of_isDigit hc) fun bs hb => ?_
    have hr := run?_map_outcome (run?_number u.2 false (hd.stops hb)) Json.number
    rw [hu,List.cons_append] at hr
    -- The digit is none of the characters that start another value.
    split
    iterate 8 simp_all
    · rw [if_pos (by simp_all)]
      exact hr

section Containers

variable {d : Nat}

theorem leads_value_list {xs : List Source}
    (h : ∀ x ∈ xs, ∀ more, Delimited more →
      Leads (value d) (x.tokens++more) (outcome (x.tree? d)) more)
    (more : List Token) : Leads (value (d+1)) ((Source.list xs).tokens++more)
      (outcome ((Source.list xs).tree? (d+1))) more := by
  have hx := leads_list (fun x hx => ⟨x.opensValue,h x hx⟩) more
  rw [Source.tokens,List.cons_append,List.append_assoc,Source.tree?,itemTrees?_eq_mapM]
  exact (leads_mark (by decide) (by decide) rfl).trans (hx.map_outcome Json.list)

theorem leads_value_object {ms : List (Quoted × Source)}
    (h : ∀ m ∈ ms, ∀ more, Delimited more →
      Leads (value d) (m.2.tokens++more) (outcome (m.2.tree? d)) more)
    (more : List Token) : Leads (value (d+1)) ((Source.object ms).tokens++more)
      (outcome ((Source.object ms).tree? (d+1))) more := by
  have hm : ∀ m ∈ ms, ∀ (k : String) (ns : List (String × Json)) (more : List Token),
      Delimited more → Leads (do colon; return (k,← value d)::ns)
        (mark ':'::(m.2.tokens++more)) (outcome ((m.2.tree? d).map fun j => (k,j)::ns)) more :=
    fun m hm k ns more hd =>
      (leads_colon _).bind_pure ((h m hm more hd).map_outcome fun j => (k,j)::ns)
  have ho := leads_object (fun k ns v => (v.tree? d).map fun j => (k,j)::ns) ms hm [] more
  rw [foldMembers_tree] at ho
  have ho := ho.map_outcome fun ns => Json.object ns.reverse
  have hr : (fun ns : List (String × Json) => Json.object ns.reverse) ∘ (·.reverse++[]) =
      Json.object := by
    funext ns
    simp
  rw [Option.map_map,hr] at ho
  rw [Source.tokens,List.cons_append,List.append_assoc,Source.tree?]
  exact (leads_mark (by decide) (by decide) rfl).trans ho

end Containers

/-- A value is read as the tree that it means, or not at all. -/
theorem leads_value (s : Source) : ∀ (d : Nat) (more : List Token), Delimited more →
    Leads (value d) (s.tokens++more) (outcome (s.tree? d)) more := by
  induction s with
  | null =>
    intro d more _
    obtain ⟨inner,hv⟩ := value_eq d
    rw [hv]
    exact leads_token (c := 'n') (o := some Json.null) (by decide) (by decide) fun bs _ => rfl
  | boolean b =>
    intro d more _
    obtain ⟨inner,hv⟩ := value_eq d
    rw [hv]
    cases b with
    | true =>
      exact leads_token (c := 't') (o := some (Json.boolean true)) (by decide) (by decide)
        fun bs _ => rfl
    | false =>
      exact leads_token (c := 'f') (o := some (Json.boolean false)) (by decide) (by decide)
        fun bs _ => rfl
  | number negative u =>
    intro d more hd
    obtain ⟨inner,hv⟩ := value_eq d
    rw [hv]
    exact leads_valueOver_number inner negative u d hd
  | string s =>
    intro d more _
    obtain ⟨inner,hv⟩ := value_eq d
    rw [hv]
    refine leads_token (c := '"') (by decide) (by decide) fun bs _ => ?_
    change run? (do advance; return Json.string (← string)) _ = _
    rw [run?_bind_ok (run_advance _ _),List.append_assoc]
    exact run?_map_outcome (run?_string s bs) Json.string
  | list xs ih =>
    intro d more _
    cases d with
    | zero => exact leads_throw (c := '[') (by decide) (by decide) rfl more
    | succ d => exact leads_value_list (fun x hx => ih x hx d) more
  | object ms ih =>
    intro d more _
    cases d with
    | zero => exact leads_throw (c := '\x7b') (by decide) (by decide) rfl more
    | succ d => exact leads_value_object (fun m hm => ih m hm d) more

end Reader
end PathVector
