import PathVector.Proofs.Lexeme
import PathVector.Proofs.Value

/-! Sources laid out in text: where their tokens begin and end, and how many bytes they need. -/
namespace PathVector

open Reader

theorem spaced_flatMap {ws : List UInt8} (h : ∀ b ∈ ws, isSpace b = true) (ts : List Token) :
    Spaced ts (ts.flatMap fun t => ws++t) := by
  induction ts with
  | nil => exact .nil (by simp)
  | cons t ts ih =>
    rw [List.flatMap_cons,List.append_assoc]
    exact .cons h ih

theorem spaced_flatten (ts : List Token) : Spaced ts ts.flatten := by
  have h : Spaced ts (ts.flatMap fun t => []++t) := spaced_flatMap (by simp) ts
  simpa using h

theorem Spaced.cons_nil {t : Token} {ts : List Token} {bs : List UInt8} (h : Spaced ts bs) :
    Spaced (t::ts) (t++bs) := by
  have hn : ∀ b ∈ ([] : List UInt8), isSpace b = true := by simp
  exact .cons hn h

theorem Spaced.length_le {ts us : List Token} {bs : List UInt8} (h : Spaced (ts++us) bs)
    (hne : ∀ t ∈ ts, t ≠ []) : ts.length ≤ bs.length := by
  induction ts generalizing bs with
  | nil => simp
  | cons t ts ih =>
    obtain _ | @⟨ws,_,_,bs,_,h⟩ := h
    have ht := List.length_pos_of_ne_nil (hne t List.mem_cons_self)
    have ih := ih h fun u hu => hne u (List.mem_cons_of_mem t hu)
    simp only [List.length_cons,List.length_append]
    omega

/-- The tokens that are left do not go on with a number: they are none, or a comma or an end comes
first. -/
def Delimited (ts : List Token) : Prop :=
  ∀ t, ts.head? = some t → ∃ c ∈ [',',']','\x7d'], t = mark c

theorem delimited_mark {c : Char} (hc : c ∈ [',',']','\x7d']) (ts : List Token) :
    Delimited (mark c::ts) := by
  rintro t ⟨⟩
  exact ⟨c,hc,rfl⟩

theorem delimited_rest {α : Type} (xs : List α) (tokens : α → List Token) {c : Char}
    (hc : c ∈ [',',']','\x7d']) (more : List Token) :
    Delimited ((xs.flatMap fun x => mark ','::tokens x)++mark c::more) := by
  cases xs with
  | nil => exact delimited_mark hc _
  | cons x xs => exact delimited_mark (by decide) _

theorem Delimited.stops {ts : List Token} (h : Delimited ts) {bs : List UInt8}
    (hs : Spaced ts bs) : Stops bs := by
  have blank : ∀ b, isSpace b = true → ∀ bs, Stops (b::bs) := by
    intro b hb bs
    refine stops_cons ?_ bs
    simp only [isSpace,Bool.or_eq_true,decide_eq_true_eq] at hb
    rcases hb with ((rfl | rfl) | rfl) | rfl <;> decide
  cases hs with
  | nil hw =>
    cases bs with
    | nil => exact stops_nil
    | cons b bs => exact blank b (hw b List.mem_cons_self) bs
  | @cons ws t ts bs hw hs =>
    cases ws with
    | nil =>
      obtain ⟨c,hc,rfl⟩ := h t rfl
      simp only [List.mem_cons,List.not_mem_nil,or_false] at hc
      rcases hc with rfl | rfl | rfl <;> exact stops_cons (by decide) _
    | cons b ws => exact blank b (hw b List.mem_cons_self) _

theorem exists_isDigit_char {b : UInt8} (h : isDigit b = true) :
    ∃ c : Char, c.isDigit = true ∧ b = UInt8.ofNat c.toNat := by
  simp only [isDigit,Bool.and_eq_true,decide_eq_true_eq,UInt8.le_iff_toNat_le] at h
  have hl : 48 ≤ b.toNat := h.1
  have hr : b.toNat ≤ 57 := h.2
  refine ⟨Char.ofNat b.toNat,Char.isDigit_iff_toNat.mpr ?_,?_⟩
  · rw [toNat_ofNat_toNat]
    exact ⟨hl,hr⟩
  · rw [toNat_ofNat_toNat,UInt8.ofNat_toNat]

theorem Reader.Magnitude.exists_cons {u : List UInt8} (h : Magnitude u) :
    ∃ (c : Char) (us : List UInt8), c.isDigit = true ∧ u = UInt8.ofNat c.toNat::us := by
  obtain @⟨whole,f,x,hw,_,_,_⟩ := h
  obtain ⟨d,ds,rfl⟩ := List.exists_cons_of_ne_nil hw.1
  obtain ⟨c,hc,rfl⟩ := exists_isDigit_char (hw.2 d List.mem_cons_self)
  exact ⟨c,_,hc,rfl⟩

/-- Tokens that start like a value: with a character that is no blank and closes no list. -/
def OpensValue (ts : List Token) : Prop :=
  ∃ c t us, ts = (UInt8.ofNat c.toNat::t)::us ∧ c.toNat ≤ 0x7f ∧
    isSpace (UInt8.ofNat c.toNat) = false ∧ c ≠ ']'

theorem OpensValue.append {ts : List Token} (h : OpensValue ts) (us : List Token) :
    OpensValue (ts++us) := by
  obtain ⟨c,t,vs,rfl,hc⟩ := h
  exact ⟨c,t,vs++us,rfl,hc⟩

namespace Source

/-- The first character of a value tells a string from all others. -/
theorem exists_first (s : Source) : ∃ c t us, s.tokens = (UInt8.ofNat c.toNat::t)::us ∧
    c.toNat ≤ 0x7f ∧ isSpace (UInt8.ofNat c.toNat) = false ∧ c ≠ ']' ∧
    (c = '"' ↔ ∃ q, s = .string q) := by
  cases s with
  | null => exact ⟨'n',_,_,rfl,by decide,by decide,by decide,by simp⟩
  | boolean b =>
    cases b with
    | true => exact ⟨'t',_,_,rfl,by decide,by decide,by decide,by simp⟩
    | false => exact ⟨'f',_,_,rfl,by decide,by decide,by decide,by simp⟩
  | number negative u =>
    cases negative with
    | true => exact ⟨'-',_,_,rfl,by decide,by decide,by decide,by simp⟩
    | false =>
      obtain ⟨c,us,hc,hu⟩ := u.2.exists_cons
      have hn := toNat_of_isDigit hc
      refine ⟨c,us,[],by rw [tokens,hu],by omega,isSpace_of_isDigit hc,?_,?_⟩
      · rintro rfl
        exact absurd hc (by decide)
      · have hq : c ≠ '"' := by
          rintro rfl
          exact absurd hc (by decide)
        simp [hq]
  | string s => exact ⟨'"',_,_,rfl,by decide,by decide,by decide,by simp⟩
  | list xs => exact ⟨'[',_,_,rfl,by decide,by decide,by decide,by simp⟩
  | object ms => exact ⟨'\x7b',_,_,rfl,by decide,by decide,by decide,by simp⟩

theorem opensValue (s : Source) : OpensValue s.tokens := by
  obtain ⟨c,t,us,ht,hc,hs,hb,_⟩ := s.exists_first
  exact ⟨c,t,us,ht,hc,hs,hb⟩

theorem mem_itemTokens {xs : List Source} {t : Token} (h : t ∈ itemTokens xs) :
    t = mark ',' ∨ ∃ x ∈ xs, t ∈ x.tokens := by
  cases xs with
  | nil => cases h
  | cons x xs =>
    rw [itemTokens_cons,List.mem_append,List.mem_flatMap] at h
    rcases h with h | ⟨y,hy,h⟩
    · exact .inr ⟨x,List.mem_cons_self,h⟩
    rcases List.mem_cons.mp h with h | h
    · exact .inl h
    · exact .inr ⟨y,List.mem_cons_of_mem x hy,h⟩

theorem mem_memberTokens {ms : List (Quoted × Source)} {t : Token} (h : t ∈ memberTokens ms) :
    t = mark ',' ∨ ∃ m ∈ ms, t ∈ tokensOfMember m := by
  cases ms with
  | nil => cases h
  | cons m ms =>
    rw [memberTokens_cons,List.mem_append,List.mem_flatMap] at h
    rcases h with h | ⟨n,hn,h⟩
    · exact .inr ⟨m,List.mem_cons_self,h⟩
    rcases List.mem_cons.mp h with h | h
    · exact .inl h
    · exact .inr ⟨n,List.mem_cons_of_mem m hn,h⟩

theorem ne_nil_of_mem_tokens (s : Source) : ∀ t ∈ s.tokens, t ≠ [] := by
  induction s with
  | null => simp [tokens]
  | boolean b => cases b <;> simp [tokens]
  | number negative u =>
    obtain ⟨c,us,hc,hu⟩ := u.2.exists_cons
    cases negative <;> simp [tokens,hu]
  | string s => simp [tokens,Quoted.token]
  | list xs ih =>
    intro t ht
    simp only [tokens,List.mem_cons,List.mem_append,List.not_mem_nil,or_false] at ht
    rcases ht with rfl | ht | rfl
    · simp [mark]
    · rcases mem_itemTokens ht with rfl | ⟨x,hx,ht⟩
      · simp [mark]
      · exact ih x hx t ht
    · simp [mark]
  | object ms ih =>
    intro t ht
    simp only [tokens,List.mem_cons,List.mem_append,List.not_mem_nil,or_false] at ht
    rcases ht with rfl | ht | rfl
    · simp [mark]
    · rcases mem_memberTokens ht with rfl | ⟨m,hm,ht⟩
      · simp [mark]
      simp only [tokensOfMember,List.mem_cons] at ht
      rcases ht with rfl | rfl | ht
      · simp [Quoted.token]
      · simp [mark]
      · exact ih m hm t ht
    · simp [mark]

-- Each part of a container has a token of its own.
theorem length_le_flatMap {α : Type} (xs : List α) (tokens : α → List Token) :
    xs.length ≤ (xs.flatMap fun x => mark ','::tokens x).length := by
  induction xs with
  | nil => simp
  | cons x xs ih =>
    simp only [List.flatMap_cons,List.length_append,List.length_cons] at ih ⊢
    omega

theorem length_lt_of_items {xs : List Source} {more : List Token} {bs : List UInt8}
    (h : Spaced (itemTokens xs++mark ']'::more) bs) : xs.length < bs.length := by
  rw [← List.singleton_append,← List.append_assoc] at h
  have hb := h.length_le fun t ht => by
    refine ne_nil_of_mem_tokens (.list xs) t ?_
    exact List.mem_cons_of_mem _ ht
  have hx : xs.length ≤ (itemTokens xs).length := by
    cases xs with
    | nil => simp
    | cons x xs =>
      obtain ⟨c,t,us,ht,_⟩ := x.opensValue
      have hl := length_le_flatMap xs tokens
      rw [itemTokens_cons,ht]
      simp only [List.length_append,List.length_cons] at hl ⊢
      omega
  simp only [List.length_append,List.length_singleton] at hb
  omega

theorem length_lt_of_members {ms : List (Quoted × Source)} {more : List Token}
    {bs : List UInt8} (h : Spaced (memberTokens ms++mark '\x7d'::more) bs) :
    ms.length < bs.length := by
  rw [← List.singleton_append,← List.append_assoc] at h
  have hb := h.length_le fun t ht => by
    refine ne_nil_of_mem_tokens (.object ms) t ?_
    exact List.mem_cons_of_mem _ ht
  have hm : ms.length ≤ (memberTokens ms).length := by
    cases ms with
    | nil => simp
    | cons m ms =>
      have hl := length_le_flatMap ms tokensOfMember
      rw [memberTokens_cons,tokensOfMember]
      simp only [List.length_append,List.length_cons] at hl ⊢
      omega
  simp only [List.length_append,List.length_singleton] at hb
  omega

end Source

end PathVector
