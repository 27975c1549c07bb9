import PathVector.Proofs.Source
import PathVector.Json.Skip

/-! Strings and numbers as they are spelled. What a reader makes of such a token does not depend on
what follows it, and skipping takes the token whatever it stands for. -/
namespace PathVector
namespace Reader

variable {α β : Type}

/-- What a reader returns, if anything. -/
def run? (r : Reader α) (bs : List UInt8) : Option (α × List UInt8) := (StateT.run r bs).toOption

theorem run?_bind (r : Reader α) (f : α → Reader β) (bs : List UInt8) :
    run? (r >>= f) bs = (run? r bs).bind fun p => run? (f p.1) p.2 := by
  rw [run?,StateT.run_bind,run?]
  cases StateT.run r bs <;> rfl

theorem run?_of_run {r : Reader α} {bs cs : List UInt8} {a : α}
    (h : StateT.run r bs = .ok (a,cs)) : run? r bs = some (a,cs) := by
  rw [run?,h]
  rfl

theorem run?_bind_ok {r : Reader α} {bs cs : List UInt8} {a : α}
    (h : StateT.run r bs = .ok (a,cs)) (f : α → Reader β) :
    run? (r >>= f) bs = run? (f a) cs := by
  rw [run?,run_bind_ok h,run?]

theorem run?_map (f : α → β) (r : Reader α) (bs : List UInt8) :
    run? (f <$> r) bs = (run? r bs).map fun p => (f p.1,p.2) := by
  rw [← bind_pure_comp,run?_bind,Option.map_eq_bind]
  rfl

theorem toOption_run (r : Reader α) (bs : List UInt8) : (Reader.run r bs).toOption =
    (run? r bs).bind fun p => if p.2.all isSpace then some p.1 else none := by
  rw [Reader.run,run?]
  rcases StateT.run r bs with e | ⟨a,cs⟩
  · rfl
  · change Except.toOption (if cs.all isSpace then _ else _) = if cs.all isSpace then _ else _
    split <;> rfl

@[simp] theorem run?_pure (a : α) (bs : List UInt8) : run? (pure a) bs = some (a,bs) := rfl

@[simp] theorem run?_throw (e : Fault) (bs : List UInt8) :
    run? (throw e : Reader α) bs = none := rfl

@[simp] theorem run?_peek_nil : run? peek [] = some (none,[]) := rfl

@[simp] theorem run?_peek_cons (b : UInt8) (bs : List UInt8) :
    run? peek (b::bs) = some (some (Char.ofNat b.toNat),b::bs) := rfl

@[simp] theorem run?_advance_cons (b : UInt8) (bs : List UInt8) :
    run? advance (b::bs) = some ((),bs) := rfl

theorem run_skipEscape {c : Char} (hc : c ∈ ['"','\\','/','b','f','n','r','t'])
    (bs : List UInt8) : StateT.run skipEscape (UInt8.ofNat c.toNat::bs) = .ok ((),bs) := by
  simp only [List.mem_cons,List.not_mem_nil,or_false] at hc
  rcases hc with rfl | rfl | rfl | rfl | rfl | rfl | rfl | rfl
  all_goals rfl

/-- The value of the digits of an escape. -/
def codeUnit (ds : List Nat) : Nat := ds.foldl (fun n x => n*16+x) 0

theorem eq_ofNat_of_peek {b : UInt8} {c : Char} (h : Char.ofNat b.toNat = c) :
    b = UInt8.ofNat c.toNat := by
  have hb : [b].head? = some (UInt8.ofNat c.toNat) := head?_of_peek (congrArg some h)
  exact Option.some.inj hb

section Unicode

variable {a b c d : UInt8} {ds : List Nat}

/-- The second half of a surrogate pair is an escape as well. -/
def trailing (n : Nat) : List UInt8 → Option (Char × List UInt8)
  | x::y::bs =>
    if x = 0x5c ∧ y = 0x75 then (run? hex4 bs).bind fun p =>
      if p.1 < 0xdc00 ∨ 0xdfff < p.1 then none
      else some (Char.ofNat ((n-0xd800)*0x400+(p.1-0xdc00)+0x10000),p.2)
    else none
  | _ => none

theorem run?_unicodeEscape (hd : [a,b,c,d].mapM hexValue? = some ds) (bs : List UInt8) :
    run? unicodeEscape (a::b::c::d::bs) =
      if 0xdc00 ≤ codeUnit ds ∧ codeUnit ds ≤ 0xdfff then none
      else if codeUnit ds < 0xd800 ∨ 0xdbff < codeUnit ds then some (Char.ofNat (codeUnit ds),bs)
      else trailing (codeUnit ds) bs := by
  rw [unicodeEscape,run?_bind_ok (run_hex4 hd bs),← codeUnit]
  by_cases hl : 0xdc00 ≤ codeUnit ds ∧ codeUnit ds ≤ 0xdfff
  · simp only [hl,and_self,if_true]
    rfl
  by_cases hh : codeUnit ds < 0xd800 ∨ 0xdbff < codeUnit ds
  · simp only [hl,hh,if_true,if_false]
    rfl
  simp only [hl,hh,if_false,List.forIn_cons,List.forIn_nil]
  generalize codeUnit ds = n
  rcases bs with _ | ⟨x,bs⟩
  · rfl
  by_cases hx : Char.ofNat x.toNat = '\\'
  · rcases bs with _ | ⟨y,bs⟩
    · simp [run?_bind,run?_map,hx,trailing]
    by_cases hy : Char.ofNat y.toNat = 'u'
    · obtain rfl : x = 0x5c := eq_ofNat_of_peek hx
      obtain rfl : y = 0x75 := eq_ofNat_of_peek hy
      simp only [run?_bind,run?_map,run?_peek_cons,run?_advance_cons,hx,hy,if_true,
        Option.bind_some,Option.map_some,run?_pure,bind_pure_comp]
      rw [trailing,if_pos ⟨rfl,rfl⟩]
      refine congrArg _ (funext fun p => ?_)
      split <;> rfl
    · have hy' : y ≠ 0x75 := by
        rintro rfl
        exact hy rfl
      simp [run?_bind,run?_map,hx,hy,trailing,hy']
  · have hx' : x ≠ 0x5c := by
      rintro rfl
      exact hx rfl
    simp [run?_bind,run?_map,hx]
    rcases bs with _ | ⟨y,bs⟩ <;> simp [trailing,hx']

/-- The second half is taken out of the same string, or is not there whatever follows. -/
theorem trailing_cases (n : Nat) {body : List UInt8} (h : StringBody body) :
    (∀ bs, trailing n (body++0x22::bs) = none) ∨
    ∃ c rest, StringBody rest ∧ rest.length < body.length ∧
      ∀ bs, trailing n (body++0x22::bs) = some (c,rest++0x22::bs) := by
  cases h with
  | nil =>
    left
    rintro (_ | ⟨y,bs⟩) <;> simp [trailing]
  | @plain b bs hb h =>
    left
    intro cs
    have hb' := hb.2.1
    cases hc : bs++0x22::cs <;> simp [trailing,hc,hb']
  | @escape c bs hc h =>
    left
    intro cs
    have hu : ∀ c ∈ ['"','\\','/','b','f','n','r','t'], UInt8.ofNat c.toNat ≠ 0x75 := by
      simp
    rw [List.cons_append,List.cons_append,trailing,if_neg fun h => hu c hc h.2]
  | @unicode a b c d ds bs hd h =>
    have hx := fun cs => run?_of_run (run_hex4 hd (bs++0x22::cs))
    by_cases hm : codeUnit ds < 0xdc00 ∨ 0xdfff < codeUnit ds
    · left
      intro cs
      simp only [List.cons_append,trailing,and_self,if_true,hx,Option.bind_some]
      exact if_pos hm
    · right
      refine ⟨Char.ofNat ((n-0xd800)*0x400+(codeUnit ds-0xdc00)+0x10000),bs,h,?_,fun cs => ?_⟩
      · simp only [List.length_cons]
        omega
      · simp only [List.cons_append,trailing,and_self,if_true,hx,Option.bind_some]
        exact if_neg hm

end Unicode

/-- An escape is the same character, or none, whatever follows the closing quote. -/
theorem escape_cases {body : List UInt8} (h : StringBody (0x5c::body)) :
    (∀ bs, run? escape (body++0x22::bs) = none) ∨
    ∃ c rest, StringBody rest ∧ rest.length < body.length ∧
      ∀ bs, run? escape (body++0x22::bs) = some (c,rest++0x22::bs) := by
  cases h with
  | plain hb => exact absurd rfl hb.2.1
  | @escape c body hc h =>
    right
    have hl : body.length < (UInt8.ofNat c.toNat::body).length := by simp
    simp only [List.mem_cons,List.not_mem_nil,or_false] at hc
    rcases hc with rfl | rfl | rfl | rfl | rfl | rfl | rfl | rfl
    all_goals exact ⟨_,body,h,hl,fun _ => rfl⟩
  | @unicode a b c d ds body hd h =>
    have hu : ∀ bs, run? escape (0x75::a::b::c::d::body++0x22::bs) =
        run? unicodeEscape (a::b::c::d::(body++0x22::bs)) := fun _ => rfl
    simp only [hu,run?_unicodeEscape hd]
    split
    · exact .inl fun _ => rfl
    split
    · exact .inr ⟨_,body,h,by simp; omega,fun _ => rfl⟩
    · rcases trailing_cases (codeUnit ds) h with ht | ⟨e,rest,hr,hlt,ht⟩
      · exact .inl ht
      · exact .inr ⟨e,rest,hr,by simp; omega,ht⟩

theorem run?_stringBytes_cons (n : Nat) (b : UInt8) (bs : List UInt8) :
    run? (stringBytes (n+1)) (b::bs) = run? (if b = 0x22 then return []
      else if b = 0x5c then do
        let c ← escape
        return String.utf8EncodeChar c++(← stringBytes n)
      else if b < 0x20 then throw .controlCharacter
      else do return b::(← stringBytes n) : Reader (List UInt8)) bs := rfl

theorem exists_run?_stringBytes {body : List UInt8} (h : StringBody body) :
    ∃ o : Option (List UInt8), ∀ n bs, body.length < n →
      run? (stringBytes n) (body++0x22::bs) = o.map (·,bs) := by
  -- The two halves of a surrogate pair are taken at once, so the induction is on the length.
  induction hl : body.length using Nat.strongRecOn generalizing body with
  | ind l ih =>
  subst hl
  have backslash : ∀ tail, body = 0x5c::tail → ∃ o : Option (List UInt8), ∀ n bs,
      body.length < n → run? (stringBytes n) (body++0x22::bs) = o.map (·,bs) := by
    rintro tail rfl
    rcases escape_cases h with he | ⟨c,rest,hr,hlt,he⟩
    · refine ⟨none,fun n bs hn => ?_⟩
      obtain ⟨n,rfl⟩ : ∃ m, n = m+1 := ⟨n-1,by omega⟩
      rw [List.cons_append,run?_stringBytes_cons,if_neg (by decide),if_pos rfl,run?_bind,he]
      rfl
    · obtain ⟨o,ho⟩ := ih rest.length (by simp; omega) hr rfl
      refine ⟨o.map (String.utf8EncodeChar c++·),fun n bs hn => ?_⟩
      obtain ⟨n,rfl⟩ : ∃ m, n = m+1 := ⟨n-1,by omega⟩
      rw [List.cons_append,run?_stringBytes_cons,if_neg (by decide),if_pos rfl,run?_bind,he,
        Option.bind_some,run?_bind,ho n bs (by simp at hn; omega)]
      cases o <;> rfl
  cases h with
  | nil =>
    refine ⟨some [],fun n bs hn => ?_⟩
    obtain ⟨n,rfl⟩ : ∃ m, n = m+1 := ⟨n-1,by omega⟩
    rfl
  | @plain b body hb h =>
    obtain ⟨o,ho⟩ := ih body.length (by simp) h rfl
    refine ⟨o.map (b::·),fun n bs hn => ?_⟩
    obtain ⟨n,rfl⟩ : ∃ m, n = m+1 := ⟨n-1,by omega⟩
    rw [List.cons_append,run?_stringBytes_cons,if_neg hb.1,if_neg hb.2.1,if_neg hb.2.2,run?_bind,
      ho n bs (by simp at hn; omega)]
    cases o <;> rfl
  | escape => exact backslash _ rfl
  | unicode => exact backslash _ rfl

theorem run?_string (s : Quoted) (bs : List UInt8) :
    run? string (s.1++0x22::bs) = s.text?.map (·,bs) := by
  obtain ⟨o,ho⟩ := exists_run?_stringBytes s.2
  have hs : ∀ bs, run? string (s.1++0x22::bs) =
      (o.bind fun bs => (Utf8.decode? bs).map String.ofList).map (·,bs) := by
    intro bs
    rw [string,run?_bind_ok (run_get _),run?_bind,ho _ _ (by simp)]
    cases o with
    | none => rfl
    | some out =>
      dsimp only [Option.map_some,Option.bind_some]
      cases Utf8.decode? out <;> rfl
  rw [Quoted.text?,toOption_run,hs,hs]
  cases o.bind fun bs => (Utf8.decode? bs).map String.ofList <;> rfl

@[simp] theorem text?_plain (s : String) (h : ∀ b ∈ Utf8.encode s.toList, Plain b) :
    (Quoted.plain s h).text? = some s := by
  have hb : StateT.run (stringBytes (Utf8.encode s.toList++[0x22]).length)
      (Utf8.encode s.toList++[0x22]) = .ok (Utf8.encode s.toList++[],[]) := by
    rw [List.length_append,Nat.add_comm]
    exact run_stringBytes_plain h rfl
  rw [Quoted.text?,toOption_run]
  change (run? string (Utf8.encode s.toList++[0x22])).bind _ = _
  rw [string,run?_bind_ok (run_get _),run?_bind_ok hb,List.append_nil,Utf8.decode?_encode]
  dsimp only
  rw [String.ofList_toList]
  rfl

theorem run_skipStringBytes {body : List UInt8} (h : StringBody body) {n : Nat}
    (hn : body.length < n) (bs : List UInt8) :
    StateT.run (skipStringBytes n) (body++0x22::bs) = .ok ((),bs) := by
  induction h generalizing n with
  | nil =>
    obtain ⟨n,rfl⟩ : ∃ m, n = m+1 := ⟨n-1,by omega⟩
    rfl
  | @plain b body hb h ih =>
    obtain ⟨n,rfl⟩ : ∃ m, n = m+1 := ⟨n-1,by omega⟩
    rw [List.cons_append,skipStringBytes,run_bind_ok (run_get _)]
    dsimp only
    rw [run_bind_ok (run_set _ _),if_neg hb.1,if_neg hb.2.1,if_neg hb.2.2]
    exact ih (by simpa using hn)
  | @escape c body hc h ih =>
    obtain ⟨n,rfl⟩ : ∃ m, n = m+1 := ⟨n-1,by omega⟩
    rw [List.cons_append,skipStringBytes,run_bind_ok (run_get _)]
    dsimp only
    rw [run_bind_ok (run_set _ _),if_neg (by decide),if_pos rfl,List.cons_append,
      run_bind_ok (run_skipEscape hc _)]
    exact ih (by simp at hn; omega)
  | @unicode a b c d ds body hd h ih =>
    obtain ⟨n,rfl⟩ : ∃ m, n = m+1 := ⟨n-1,by omega⟩
    rw [List.cons_append,skipStringBytes,run_bind_ok (run_get _)]
    dsimp only
    have hu : StateT.run skipEscape (0x75::a::b::c::d::(body++0x22::bs)) =
        .ok ((),body++0x22::bs) := by
      change StateT.run ((fun _ => ()) <$> hex4) (a::b::c::d::(body++0x22::bs)) = _
      rw [← bind_pure_comp,run_bind_ok (run_hex4 hd _)]
      rfl
    rw [run_bind_ok (run_set _ _),if_neg (by decide),if_pos rfl]
    refine (run_bind_ok hu _).trans ?_
    exact ih (by simp at hn; omega)

theorem run_skipString (s : Quoted) (bs : List UInt8) :
    StateT.run skipString (s.1++0x22::bs) = .ok ((),bs) := by
  rw [skipString,run_bind_ok (run_get _)]
  exact run_skipStringBytes s.2 (by simp) bs

section Digits

variable {ds bs : List UInt8}

theorem run_skipDigits (h : IsDigits ds) (hs : EndsDigits bs) :
    StateT.run skipDigits (ds++bs) = .ok ((),bs) := by
  rw [skipDigits,run_bind_ok (run_digits h hs),if_neg]
  · rfl
  · rw [List.isEmpty_iff]
    exact h.map_ne_nil

/-- The character that `peek` sees. -/
def seen (bs : List UInt8) : Option Char := bs.head?.map fun b => Char.ofNat b.toNat

theorem run_peek_seen (bs : List UInt8) : StateT.run peek bs = .ok (seen bs,bs) := rfl

theorem Stops.seen_ne (h : Stops bs) :
    seen bs ≠ some '.' ∧ seen bs ≠ some 'e' ∧ seen bs ≠ some 'E' :=
  ⟨fun hc => (h _ (head?_of_peek hc)).2.1 rfl,fun hc => (h _ (head?_of_peek hc)).2.2.2 rfl,
    fun hc => (h _ (head?_of_peek hc)).2.2.1 rfl⟩

theorem IsDigits.seen_ne (h : IsDigits ds) :
    seen (ds++bs) ≠ some '+' ∧ seen (ds++bs) ≠ some '-' := by
  have hne : ∀ c : Char, isDigit (UInt8.ofNat c.toNat) = false → seen (ds++bs) ≠ some c := by
    intro c hc hs
    have hh := head?_of_peek hs
    rw [List.head?_append_of_ne_nil _ h.1] at hh
    rw [h.2 _ (List.mem_of_head? hh)] at hc
    cases hc
  exact ⟨hne '+' (by decide),hne '-' (by decide)⟩

end Digits

section Exponent

variable {sign ds : List UInt8}

def exponentValue (sign ds : List UInt8) : Int :=
  let n : Nat := (ds.map (·.toNat-48)).foldl (fun n d => n*10+d) 0
  if sign = [0x2d] then -(n : Int) else (n : Int)

theorem run_exponent (hsign : sign = [] ∨ sign = [0x2b] ∨ sign = [0x2d]) (h : IsDigits ds)
    {bs : List UInt8} (hs : EndsDigits bs) :
    StateT.run exponent (sign++(ds++bs)) = .ok (exponentValue sign ds,bs) := by
  have hne : ¬(ds.map (·.toNat-48)).isEmpty = true := by
    rw [List.isEmpty_iff]
    exact h.map_ne_nil
  have hp : seen (ds++bs) ≠ some '+' ∧ seen (ds++bs) ≠ some '-' := h.seen_ne
  rcases hsign with rfl | rfl | rfl
  · rw [List.nil_append,exponent,run_bind_ok (run_peek_seen _)]
    simp only [hp,or_self,if_false]
    rw [run_bind_ok (run_digits h hs)]
    simp only [hne]
    rfl
  · have hc : seen (0x2b::(ds++bs)) = some '+' := rfl
    rw [List.cons_append,List.nil_append,exponent,run_bind_ok (run_peek_seen _),hc]
    simp only [true_or,if_true]
    rw [run_bind_ok (run_advance _ _),run_bind_ok (run_digits h hs)]
    simp only [hne]
    rfl
  · have hc : seen (0x2d::(ds++bs)) = some '-' := rfl
    rw [List.cons_append,List.nil_append,exponent,run_bind_ok (run_peek_seen _),hc]
    simp only [or_true,if_true]
    rw [run_bind_ok (run_advance _ _),run_bind_ok (run_digits h hs)]
    simp only [hne]
    rfl

end Exponent

theorem endsDigits_exponent {x bs : List UInt8} (h : IsExponent x) (hs : Stops bs) :
    EndsDigits (x++bs) := by
  cases h with
  | absent => exact hs.endsDigits
  | present he hsign hd =>
    intro b hb
    cases hb
    rcases he with rfl | rfl <;> rfl

theorem IsExponent.seen_ne_point {x bs : List UInt8} (h : IsExponent x) (hs : Stops bs) :
    seen (x++bs) ≠ some '.' := by
  cases h with
  | absent => exact hs.seen_ne.1
  | present he hsign hd =>
    rcases he with rfl | rfl
    · exact fun h => absurd (Option.some.inj h) (by decide)
    · exact fun h => absurd (Option.some.inj h) (by decide)

theorem endsDigits_fraction {f x bs : List UInt8} (h : IsFraction f) (hx : EndsDigits (x++bs)) :
    EndsDigits (f++(x++bs)) := by
  cases h with
  | absent => exact hx
  | present hd =>
    intro b hb
    cases hb
    rfl

theorem exists_run?_real {x : List UInt8} (h : IsExponent x) (negative : Bool) (s : Nat)
    (e : Int) : ∃ o : Option Number, ∀ bs, Stops bs →
      run? (real negative s e) (x++bs) = o.map (·,bs) := by
  let o (e : Int) : Option Number :=
    (Binary64.ofDecimal? s e).map fun x => .real (if negative then x.neg else x)
  cases h with
  | absent =>
    refine ⟨o e,fun bs hs => ?_⟩
    have hc := hs.seen_ne
    rw [List.nil_append,real,run?_bind_ok (run_peek_seen _)]
    simp only [hc,or_self,if_false,pure_bind,o]
    cases Binary64.ofDecimal? s e <;> rfl
  | @present c sign ds he hsign hd =>
    refine ⟨o (e+exponentValue sign ds),fun bs hs => ?_⟩
    have hc : seen (c::(sign++ds++bs)) = some 'e' ∨ seen (c::(sign++ds++bs)) = some 'E' := by
      rcases he with rfl | rfl
      · exact .inr rfl
      · exact .inl rfl
    rw [List.cons_append,real,run?_bind_ok (run_peek_seen _)]
    simp only [hc,if_true]
    rw [run?_bind_ok (run_advance _ _),List.append_assoc,
      run?_bind_ok (run_exponent hsign hd hs.endsDigits)]
    simp only [pure_bind,o]
    cases Binary64.ofDecimal? s (e+exponentValue sign ds) <;> rfl

/-- A number is the same, or out of range, whatever follows that does not go on with it. -/
theorem exists_run?_number {u : List UInt8} (h : Magnitude u) (negative : Bool) :
    ∃ o : Option Number, ∀ bs, Stops bs → run? (number negative) (u++bs) = o.map (·,bs) := by
  obtain @⟨whole,f,x,hw,hz,hf,hx⟩ := h
  have hw : ∀ bs, Stops bs → StateT.run wholeDigits (whole++(f++x)++bs) =
      .ok (whole.map (·.toNat-48),f++(x++bs)) := by
    intro bs hs
    have he := endsDigits_fraction hf (endsDigits_exponent hx hs)
    rw [List.append_assoc,List.append_assoc,run_wholeDigits hw hz he]
  rcases ha : absorb 0 (whole.map (·.toNat-48)) with ⟨s,excess⟩
  cases hf with
  | absent =>
    obtain ⟨o,ho⟩ := exists_run?_real hx negative s excess.length
    cases hx with
    | absent =>
      obtain ⟨o₀,ho₀⟩ := exists_run?_real .absent negative s 0
      refine ⟨if excess ≠ [] then o else if !negative then some (.integer s)
        else if 0 < s ∧ s ≤ 0x8000000000000000 then some (.integer (-s)) else o₀,fun bs hs => ?_⟩
      rw [number,run?_bind_ok (hw bs hs),ha]
      dsimp only
      rw [List.nil_append,List.nil_append,run?_bind_ok (run_peek_seen _)]
      have hc := hs.seen_ne
      split
      · exact absurd ‹_› hc.1
      · exact absurd ‹_› hc.2.1
      · exact absurd ‹_› hc.2.2
      · split_ifs
        · exact ho bs hs
        · rfl
        · rfl
        · exact ho₀ bs hs
    | @present c sign ds he hsign hd =>
      refine ⟨o,fun bs hs => ?_⟩
      rw [number,run?_bind_ok (hw bs hs),ha]
      dsimp only
      rw [List.nil_append,run?_bind_ok (run_peek_seen _)]
      rcases he with rfl | rfl
      all_goals exact ho bs hs
  | @present ds hd =>
    obtain ⟨o,ho⟩ := exists_run?_real hx negative (absorb s (ds.map (·.toNat-48))).1
      (excess.length-((ds.map (·.toNat-48)).length-(absorb s (ds.map (·.toNat-48))).2.length : Int))
    refine ⟨o,fun bs hs => ?_⟩
    have hdot : seen (0x2e::(ds++(x++bs))) = some '.' := rfl
    rw [number,run?_bind_ok (hw bs hs),ha]
    dsimp only
    rw [List.cons_append,run?_bind_ok (run_peek_seen _),hdot]
    change run? (do advance; _) _ = _
    rw [run?_bind_ok (run_advance _ _),
      run?_bind_ok (run_digits hd (endsDigits_exponent hx hs)),if_neg]
    · exact ho bs hs
    · rw [List.isEmpty_iff]
      exact hd.map_ne_nil

theorem run?_number {u : List UInt8} (h : Magnitude u) (negative : Bool) {bs : List UInt8}
    (hs : Stops bs) : run? (number negative) (u++bs) =
      ((number negative).run u).toOption.map (·,bs) := by
  obtain ⟨o,ho⟩ := exists_run?_number h negative
  have hu := ho [] stops_nil
  rw [List.append_nil] at hu
  rw [toOption_run,hu,ho bs hs]
  cases o <;> rfl

theorem run_skipNumber {u : List UInt8} (h : Magnitude u) {bs : List UInt8} (hs : Stops bs) :
    StateT.run skipNumber (u++bs) = .ok ((),bs) := by
  obtain @⟨whole,f,x,hw,hz,hf,hx⟩ := h
  have hexponent : StateT.run (do
      let c ← peek
      if c = some 'e' ∨ c = some 'E' then
        advance
        let sign ← peek
        if sign = some '+' ∨ sign = some '-' then advance
        skipDigits : Reader Unit) (x++bs) = .ok ((),bs) := by
    rw [run_bind_ok (run_peek_seen _)]
    cases hx with
    | absent =>
      have hc := hs.seen_ne
      rw [List.nil_append,if_neg (by simp [hc])]
      rfl
    | @present c sign ds he hsign hd =>
      have hc : seen (c::(sign++ds++bs)) = some 'e' ∨ seen (c::(sign++ds++bs)) = some 'E' := by
        rcases he with rfl | rfl
        · exact .inr rfl
        · exact .inl rfl
      have hd' := run_skipDigits hd hs.endsDigits
      have hp : seen (ds++bs) ≠ some '+' ∧ seen (ds++bs) ≠ some '-' := hd.seen_ne
      rw [List.cons_append,if_pos hc,run_bind_ok (run_advance _ _),
        run_bind_ok (run_peek_seen _),List.append_assoc]
      rcases hsign with rfl | rfl | rfl
      · rw [List.nil_append]
        simp only [hp,or_self,if_false]
        exact hd'
      · exact hd'
      · exact hd'
  have hd := run_digits hw (endsDigits_fraction hf (endsDigits_exponent hx hs))
  rw [List.append_assoc,List.append_assoc,skipNumber,run_bind_ok hd]
  split
  · exact absurd ‹_› hw.map_ne_nil
  · exact absurd ‹_› (hw.map_ne hz _ _)
  rw [run_bind_ok rfl]
  cases hf with
  | absent =>
    have hc := hx.seen_ne_point hs
    change StateT.run (if seen (x++bs) = some '.' then _ else _) (x++bs) = _
    rw [if_neg hc]
    exact hexponent
  | @present ds hds =>
    have hc : seen (0x2e::(ds++(x++bs))) = some '.' := rfl
    change StateT.run (if seen (0x2e::(ds++(x++bs))) = some '.' then _ else _) _ = _
    rw [if_pos hc]
    change StateT.run (do advance; skipDigits; _) (0x2e::(ds++(x++bs))) = _
    rw [run_bind_ok (run_advance _ _),run_bind_ok (run_skipDigits hds (endsDigits_exponent hx hs))]
    exact hexponent

end Reader
end PathVector
