import PathVector.Proofs.Reading

/-! Skipping takes exactly the tokens of one value, whatever its strings and numbers stand for and
however deep it is nested. -/
namespace PathVector
namespace Reader

variable {ts us : List Token}

/-- What is done with the frames around the next value. -/
def resume (n : Nat) : Option (List Frame) → Reader Unit
  | some frames => skipWithin n frames
  | none => return

/-- Skipping after a value. -/
def skipOn (n : Nat) (frames : List Frame) : Reader Unit := skipClosed true frames >>= resume n

/-- Skipping takes the value in some of its turns, and goes on with what surrounds it. -/
def Skips (s : Source) : Prop :=
  ∃ k ≤ s.tokens.length, ∀ n frames more, Delimited more →
    Leads (skipWithin (n+k) frames) (s.tokens++more) (skipOn n frames) more

theorem leads_skipWithin_scalar (h : Leads skipStart ts (pure none) us) (n : Nat)
    (frames : List Frame) : Leads (skipWithin (n+1) frames) ts (skipOn n frames) us :=
  h.bind_pure (Leads.refl _ _)

theorem leads_skipWithin_frame {F : Frame} (h : Leads skipStart ts (pure (some F)) us) (n : Nat)
    (frames : List Frame) :
    Leads (skipWithin (n+1) frames) ts (skipClosed false (F::frames) >>= resume n) us :=
  h.bind_pure (Leads.refl _ _)

theorem skips_scalar {s : Source} {t : Token} (ht : s.tokens = [t])
    (h : ∀ more, Delimited more → Leads skipStart (t::more) (pure none) more) : Skips s := by
  refine ⟨1,by simp [ht],fun n frames more hd => ?_⟩
  rw [ht]
  exact leads_skipWithin_scalar (h more hd) n frames

theorem skips_string (s : Quoted) : Skips (.string s) := by
  refine skips_scalar rfl fun more _ => ?_
  refine leads_token (c := '"') (o := some none) (by decide) (by decide) fun bs _ => ?_
  change run? (do advance; skipString; return none) _ = _
  rw [run?_bind_ok (run_advance _ _),List.append_assoc]
  exact run?_bind_ok (run_skipString s bs) _

theorem skips_number (negative : Bool) (u : { bs : List UInt8 // Magnitude bs }) :
    Skips (.number negative u) := by
  cases negative with
  | true =>
    refine skips_scalar rfl fun more hd => ?_
    refine leads_token (c := '-') (o := some none) (by decide) (by decide) fun bs hb => ?_
    change run? (do advance; skipNumber; return none) _ = _
    rw [run?_bind_ok (run_advance _ _)]
    exact run?_bind_ok (run_skipNumber u.2 (hd.stops hb)) _
  | false =>
    refine skips_scalar rfl fun more hd => ?_
    obtain ⟨c,us,hc,hu⟩ := u.2.exists_cons
    have hn := toNat_of_isDigit hc
    rw [hu]
    refine leads_token (o := some none) (by omega) (isSpace_of_isDigit hc) fun bs hb => ?_
    have hr := run_skipNumber u.2 (hd.stops hb)
    rw [hu,List.cons_append] at hr
    split
    iterate 8 simp_all
    · rw [if_pos (by simp_all)]
      exact run?_bind_ok hr _

/-- A part of a list or an object: a value with the tokens of its name, if any. -/
abbrev Part := List Token × Source

namespace Part

def tokens (p : Part) : List Token := p.1++p.2.tokens

/-- A part that does not look like the end of its frame, and whose name is passed over. -/
structure Fits (F : Frame) (p : Part) : Prop where
  opens : ∃ c t us, p.tokens = (UInt8.ofNat c.toNat::t)::us ∧ c.toNat ≤ 0x7f ∧
    isSpace (UInt8.ofNat c.toNat) = false ∧ c ≠ F.close
  name : ∀ us, Leads (skipName F) (p.1++us) (pure ()) us
  skips : Skips p.2

end Part

theorem leads_skipClosed_end (first : Bool) (F : Frame) (frames : List Frame) (ts : List Token) :
    Leads (skipClosed first (F::frames)) (mark F.close::ts) (skipClosed true frames) ts := by
  cases F with
  | list => exact leads_mark (by decide) (by decide) rfl
  | object => exact leads_mark (by decide) (by decide) rfl

theorem leads_skipClosed_next {F : Frame} {p : Part} (h : p.Fits F) (frames : List Frame)
    (ts : List Token) :
    Leads (skipClosed true (F::frames)) (mark ','::(p.tokens++ts)) (pure (some (F::frames)))
      (p.2.tokens++ts) := by
  have hcomma : ∀ us, Leads (skipClosed true (F::frames)) (mark ','::us)
      (do skipName F; return some (F::frames)) us := by
    cases F with
    | list => exact fun us => leads_mark (by decide) (by decide) rfl
    | object => exact fun us => leads_mark (by decide) (by decide) rfl
  rw [Part.tokens,List.append_assoc]
  exact (hcomma _).trans ((h.name _).bind_pure (Leads.refl _ _))

theorem leads_skipClosed_first {F : Frame} {p : Part} (h : p.Fits F) (frames : List Frame)
    (ts : List Token) :
    Leads (skipClosed false (F::frames)) (p.tokens++ts) (pure (some (F::frames)))
      (p.2.tokens++ts) := by
  have hname := h.name (p.2.tokens++ts)
  rw [← List.append_assoc] at hname
  change Leads _ (p.tokens++ts) _ _ at hname
  obtain ⟨c,t,us,ht,hc,hs,hne⟩ := h.opens
  rw [ht,List.cons_append] at hname ⊢
  refine leads_stay hc hs ?_
  dsimp only
  rw [if_neg hne,if_neg (by decide)]
  exact hname.bind_pure (Leads.refl _ _)

def restTokens (ps : List Part) : List Token := ps.flatMap fun p => mark ','::p.tokens

theorem delimited_restTokens (ps : List Part) (F : Frame) (more : List Token) :
    Delimited (restTokens ps++mark F.close::more) :=
  delimited_rest ps Part.tokens (by cases F <;> decide) more

theorem exists_leads_skipOn {F : Frame} {ps : List Part} (h : ∀ p ∈ ps, p.Fits F) :
    ∃ k ≤ (restTokens ps).length, ∀ n frames more,
      Leads (skipOn (n+k) (F::frames)) (restTokens ps++mark F.close::more) (skipOn n frames)
        more := by
  induction ps with
  | nil => exact ⟨0,by simp,fun n frames more => (leads_skipClosed_end true F frames more).bind _⟩
  | cons p ps ih =>
    obtain ⟨k,hk,ih⟩ := ih fun q hq => h q (List.mem_cons_of_mem p hq)
    have hp := h p List.mem_cons_self
    obtain ⟨l,hl,hv⟩ := hp.skips
    have hlen : (restTokens (p::ps)).length = p.1.length+p.2.tokens.length+1+
        (restTokens ps).length := by
      simp [restTokens,Part.tokens]
      omega
    refine ⟨k+l,by omega,fun n frames more => ?_⟩
    have hc : restTokens (p::ps)++mark F.close::more =
        mark ','::(p.tokens++(restTokens ps++mark F.close::more)) := by
      simp [restTokens]
    rw [hc,← Nat.add_assoc]
    refine (leads_skipClosed_next hp frames _).bind_pure ?_
    exact (hv (n+k) (F::frames) _ (delimited_restTokens ps F more)).trans (ih n frames more)

/-- The parts with commas between them. -/
def partTokens : List Part → List Token
  | [] => []
  | p::ps => p.tokens++restTokens ps

theorem skips_container {s : Source} {F : Frame} {ps : List Part} {o : Token}
    (hs : s.tokens = o::(partTokens ps++[mark F.close]))
    (ho : ∀ ts, Leads skipStart (o::ts) (pure (some F)) ts) (h : ∀ p ∈ ps, p.Fits F) :
    Skips s := by
  cases ps with
  | nil =>
    refine ⟨1,by simp [hs],fun n frames more _ => ?_⟩
    rw [hs]
    refine (leads_skipWithin_frame (ho _) n frames).trans ?_
    exact (leads_skipClosed_end false F frames more).bind _
  | cons p ps =>
    obtain ⟨k,hk,hr⟩ := exists_leads_skipOn fun q hq => h q (List.mem_cons_of_mem p hq)
    have hp := h p List.mem_cons_self
    obtain ⟨l,hl,hv⟩ := hp.skips
    have hlen : s.tokens.length = p.1.length+p.2.tokens.length+(restTokens ps).length+2 := by
      simp [hs,partTokens,Part.tokens]
      omega
    refine ⟨k+l+1,by omega,fun n frames more _ => ?_⟩
    rw [hs,List.cons_append,List.append_assoc,partTokens,List.append_assoc,← Nat.add_assoc,
      ← Nat.add_assoc]
    refine (leads_skipWithin_frame (ho _) _ frames).trans ?_
    refine (leads_skipClosed_first hp frames _).bind_pure ?_
    exact (hv (n+k) (F::frames) _ (delimited_restTokens ps F more)).trans (hr n frames more)

def ofItem (x : Source) : Part := ([],x)

def ofMember (m : Quoted × Source) : Part := ([m.1.token,mark ':'],m.2)

theorem itemTokens_eq (xs : List Source) : Source.itemTokens xs = partTokens (xs.map ofItem) := by
  cases xs with
  | nil => rfl
  | cons x xs =>
    rw [Source.itemTokens_cons,List.map_cons,partTokens,restTokens,List.flatMap_map]
    rfl

theorem memberTokens_eq (ms : List (Quoted × Source)) :
    Source.memberTokens ms = partTokens (ms.map ofMember) := by
  cases ms with
  | nil => rfl
  | cons m ms =>
    rw [Source.memberTokens_cons,List.map_cons,partTokens,restTokens,List.flatMap_map]
    rfl

theorem leads_skipName (k : Quoted) (ts : List Token) :
    Leads (skipName .object) (k.token::mark ':'::ts) (pure ()) ts := by
  have hk : Leads (skipName .object) (k.token::mark ':'::ts) colon (mark ':'::ts) := by
    refine leads_peekToken (c := '"') (by decide) (by decide) fun bs hb => ⟨bs,hb,?_⟩
    change run? (do advance; skipString; colon) _ = _
    rw [run?_bind_ok (run_advance _ _),List.append_assoc]
    exact run?_bind_ok (run_skipString k bs) _
  exact hk.trans (leads_colon ts)

theorem skips (s : Source) : Skips s := by
  induction s with
  | null =>
    exact skips_scalar rfl fun more _ =>
      leads_token (c := 'n') (o := some none) (by decide) (by decide) fun bs _ => rfl
  | boolean b =>
    cases b with
    | true =>
      exact skips_scalar rfl fun more _ =>
        leads_token (c := 't') (o := some none) (by decide) (by decide) fun bs _ => rfl
    | false =>
      exact skips_scalar rfl fun more _ =>
        leads_token (c := 'f') (o := some none) (by decide) (by decide) fun bs _ => rfl
  | number negative u => exact skips_number negative u
  | string s => exact skips_string s
  | list xs ih =>
    have hs : (Source.list xs).tokens =
        mark '['::(partTokens (xs.map ofItem)++[mark Frame.list.close]) := by
      rw [Source.tokens,itemTokens_eq]
      rfl
    refine skips_container hs (fun ts => leads_mark (by decide) (by decide) rfl) fun p hp => ?_
    obtain ⟨x,hx,rfl⟩ := List.mem_map.mp hp
    exact ⟨x.opensValue,fun us => Leads.refl _ us,ih x hx⟩
  | object ms ih =>
    have hs : (Source.object ms).tokens =
        mark '\x7b'::(partTokens (ms.map ofMember)++[mark Frame.object.close]) := by
      rw [Source.tokens,memberTokens_eq]
      rfl
    refine skips_container hs (fun ts => leads_mark (by decide) (by decide) rfl) fun p hp => ?_
    obtain ⟨m,hm,rfl⟩ := List.mem_map.mp hp
    exact ⟨⟨'"',_,_,rfl,by decide,by decide,by decide⟩,leads_skipName m.1,ih m hm⟩

/-- A value is passed over. -/
theorem leads_skipValue (s : Source) {more : List Token} (hd : Delimited more) :
    Leads skipValue (s.tokens++more) (pure ()) more := by
  obtain ⟨k,hk,h⟩ := skips s
  intro bs hb
  have hl := hb.length_le (Source.ne_nil_of_mem_tokens s)
  obtain ⟨cs,hc,he⟩ := h (bs.length+1-k) [] more hd bs hb
  refine ⟨cs,hc,?_⟩
  rw [skipValue,run?_bind_ok (run_get _)]
  rw [Nat.sub_add_cancel (by omega)] at he
  exact he

end Reader
end PathVector
