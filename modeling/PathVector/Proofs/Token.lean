import PathVector.Json.Reader
import PathVector.Proofs.Decimal
import PathVector.Proofs.Utf8

/-! Tokens read back: words, strings and integers. The text of a token is taken off the front of
whatever follows it; only after a number it matters how that starts. -/
namespace PathVector

theorem of_bind_eq_ok {α β ε : Type} {x : Except ε α} {f : α → Except ε β} {b : β}
    (h : x >>= f = .ok b) : ∃ a, x = .ok a ∧ f a = .ok b := by
  cases x with
  | error e => cases h
  | ok a => exact ⟨a,rfl,h⟩

theorem of_mapError_eq_ok {α β γ : Type} {x : Except α γ} {f : α → β} {c : γ}
    (h : x.mapError f = .ok c) : x = .ok c := by
  cases x with
  | error a => cases h
  | ok d => exact congrArg Except.ok (Except.ok.inj h)

namespace Reader

variable {α β : Type}

theorem run_bind_ok {r : Reader α} {bs cs : List UInt8} {a : α}
    (h : StateT.run r bs = .ok (a,cs)) (f : α → Reader β) :
    StateT.run (r >>= f) bs = StateT.run (f a) cs := by
  rw [StateT.run_bind,h]
  rfl

theorem run_bind_eq_ok {r : Reader α} {f : α → Reader β} {bs ds : List UInt8} {b : β}
    (h : StateT.run (r >>= f) bs = .ok (b,ds)) :
    ∃ a cs, StateT.run r bs = .ok (a,cs) ∧ StateT.run (f a) cs = .ok (b,ds) := by
  rw [StateT.run_bind] at h
  obtain ⟨p,hp,h⟩ := of_bind_eq_ok h
  exact ⟨p.1,p.2,hp,h⟩

theorem run_get (bs : List UInt8) :
    StateT.run (get : Reader (List UInt8)) bs = .ok (bs,bs) := rfl

theorem run_set (bs cs : List UInt8) : StateT.run (set bs : Reader PUnit) cs = .ok ((),bs) := rfl

theorem encode_ascii {c : Char} (h : c.toNat ≤ 0x7f) (cs : List Char) (bs : List UInt8) :
    Utf8.encode (c::cs)++bs = UInt8.ofNat c.toNat::(Utf8.encode cs++bs) := by
  rw [Utf8.encode_cons,Utf8.encodeChar_of_le h]
  rfl

theorem run_peek {c : Char} (h : c.toNat ≤ 0x7f) (bs : List UInt8) :
    StateT.run peek (UInt8.ofNat c.toNat::bs) = .ok (some c,UInt8.ofNat c.toNat::bs) := by
  have hc : Char.ofNat (UInt8.ofNat c.toNat).toNat = c := by
    rw [Utf8.toNat_ofNat (by omega),Char.ofNat_toNat]
  exact congrArg (fun c => Except.ok (some c,_)) hc

theorem run_advance (b : UInt8) (bs : List UInt8) :
    StateT.run advance (b::bs) = .ok ((),bs) := rfl

theorem run_next {c : Char} (h : c.toNat ≤ 0x7f) (bs : List UInt8) :
    StateT.run next (UInt8.ofNat c.toNat::bs) = .ok (some c,bs) := by
  rw [next,run_bind_ok (run_peek h bs),run_bind_ok (run_advance _ bs)]
  rfl

theorem run_peekToken {c : Char} (h : c.toNat ≤ 0x7f) (hs : isSpace (UInt8.ofNat c.toNat) = false)
    (bs : List UInt8) :
    StateT.run peekToken (UInt8.ofNat c.toNat::bs) = .ok (some c,UInt8.ofNat c.toNat::bs) := by
  have hm : StateT.run (modify (List.dropWhile isSpace) : Reader Unit) (UInt8.ofNat c.toNat::bs) =
      .ok ((),UInt8.ofNat c.toNat::bs) :=
    congrArg (fun bs => Except.ok ((),bs)) (List.dropWhile_cons_of_neg (by simp [hs]))
  rw [peekToken,run_bind_ok hm,run_peek h]

theorem run_word {cs : List Char} (h : cs.all (·.toNat ≤ 0x7f) = true) (bs : List UInt8) :
    StateT.run (word cs) (Utf8.encode cs++bs) = .ok ((),bs) := by
  induction cs with
  | nil => rfl
  | cons c cs ih =>
    rw [List.all_cons,Bool.and_eq_true,decide_eq_true_eq] at h
    rw [encode_ascii h.1,word,run_bind_ok (run_next h.1 _)]
    simp only [if_true]
    exact ih h.2

theorem hexValue?_digitChar {n : Nat} (h : n < 16) :
    hexValue? (UInt8.ofNat (Nat.digitChar n).toNat) = some n := by
  revert n
  decide

theorem toNat_digitChar_le {n : Nat} (h : n < 16) : (Nat.digitChar n).toNat ≤ 0x7f := by
  revert n
  decide

theorem run_hex4 {a b c d : UInt8} {ds : List Nat} (h : [a,b,c,d].mapM hexValue? = some ds)
    (bs : List UInt8) :
    StateT.run hex4 (a::b::c::d::bs) = .ok (ds.foldl (fun n x => n*16+x) 0,bs) := by
  rw [hex4,run_bind_ok (run_get _)]
  dsimp only
  rw [run_bind_ok (run_set _ _),h]
  rfl

theorem run_unicodeEscape {c : Char} (h : c.toNat < 32) (bs : List UInt8) :
    StateT.run unicodeEscape (Utf8.encode ('0' :: '0' ::
      [Nat.digitChar (c.toNat/16),Nat.digitChar (c.toNat%16)])++bs) = .ok (c,bs) := by
  have h₁ : c.toNat/16 < 16 := by omega
  have h₂ : c.toNat%16 < 16 := by omega
  have hd : [UInt8.ofNat '0'.toNat,UInt8.ofNat '0'.toNat,
      UInt8.ofNat (Nat.digitChar (c.toNat/16)).toNat,
      UInt8.ofNat (Nat.digitChar (c.toNat%16)).toNat].mapM hexValue? =
      some [0,0,c.toNat/16,c.toNat%16] := by
    simp only [List.mapM_cons,List.mapM_nil,hexValue?_digitChar h₁,hexValue?_digitChar h₂]
    rfl
  have hv : [0,0,c.toNat/16,c.toNat%16].foldl (fun n x => n*16+x) 0 = c.toNat := by
    simp only [List.foldl_cons,List.foldl_nil]
    omega
  rw [encode_ascii (by decide),encode_ascii (by decide),encode_ascii (toNat_digitChar_le h₁),
    encode_ascii (toNat_digitChar_le h₂),unicodeEscape,run_bind_ok (run_hex4 hd _),hv]
  have hl : ¬ (0xdc00 ≤ c.toNat ∧ c.toNat ≤ 0xdfff) := by omega
  have hh : c.toNat < 0xd800 ∨ 0xdbff < c.toNat := by omega
  simp only [hl,hh,if_true,if_false,Char.ofNat_toNat]
  rfl

theorem run_escape {c : Char} {e : List Char} (h : Json.escapeChar c = '\\' :: e)
    (bs : List UInt8) : StateT.run escape (Utf8.encode e++bs) = .ok (c,bs) := by
  unfold Json.escapeChar at h
  split at h
  iterate 7
    obtain ⟨-,rfl⟩ := List.cons.inj h
    rw [encode_ascii (by decide),escape,run_bind_ok (run_next (by decide) _)]
    rfl
  split at h
  · rename_i hc
    obtain ⟨-,rfl⟩ := List.cons.inj h
    rw [encode_ascii (by decide),escape,run_bind_ok (run_next (by decide) _)]
    exact run_unicodeEscape hc bs
  · rename_i hne _ _ _ _ _ _
    exact absurd (List.cons.inj h).1 hne

theorem escapeChar_cases (c : Char) : (∃ e, Json.escapeChar c = '\\' :: e) ∨
    Json.escapeChar c = [c] ∧ c ≠ '"' ∧ c ≠ '\\' ∧ 32 ≤ c.toNat := by
  unfold Json.escapeChar
  split
  iterate 7 exact .inl ⟨_,rfl⟩
  split
  · exact .inl ⟨_,rfl⟩
  · exact .inr ⟨rfl,‹_›,‹_›,by omega⟩

/-- Bytes that stand for themselves in a string. -/
def Plain (b : UInt8) : Prop := b ≠ 0x22 ∧ b ≠ 0x5c ∧ ¬ b < 0x20

instance : DecidablePred Plain := fun _ => inferInstanceAs (Decidable (_ ∧ _))

theorem plain_of_mem_encodeChar {c : Char} (hq : c ≠ '"') (hb : c ≠ '\\') (hc : 32 ≤ c.toNat)
    {b : UInt8} (h : b ∈ String.utf8EncodeChar c) : Plain b := by
  have hn : ∀ d : Char, d.toNat ≤ 0x7f → c ≠ d → b ≠ UInt8.ofNat d.toNat := by
    intro d hd hcd hbd
    by_cases ha : c.toNat ≤ 0x7f
    · rw [Utf8.encodeChar_of_le ha,List.mem_singleton] at h
      rw [h,← UInt8.toNat_inj,Utf8.toNat_ofNat (by omega),Utf8.toNat_ofNat (by omega)] at hbd
      exact hcd (Char.toNat_inj.mp hbd)
    · have := Utf8.le_of_mem_encodeChar (by omega) h
      rw [hbd,Utf8.toNat_ofNat (by omega)] at this
      omega
  refine ⟨hn '"' (by decide) hq,hn '\\' (by decide) hb,?_⟩
  rw [UInt8.lt_iff_toNat_lt]
  by_cases ha : c.toNat ≤ 0x7f
  · rw [Utf8.encodeChar_of_le ha,List.mem_singleton] at h
    rw [h,Utf8.toNat_ofNat (by omega)]
    exact Nat.not_lt.mpr hc
  · have := Utf8.le_of_mem_encodeChar (by omega) h
    exact Nat.not_lt.mpr (Nat.le_trans (by decide) this)

theorem run_stringBytes_plain {ps bs out rest : List UInt8} {n : Nat} (hp : ∀ b ∈ ps, Plain b)
    (h : StateT.run (stringBytes n) bs = .ok (out,rest)) :
    StateT.run (stringBytes (n+ps.length)) (ps++bs) = .ok (ps++out,rest) := by
  induction ps with
  | nil => exact h
  | cons b ps ih =>
    have ih := ih fun a ha => hp a (List.mem_cons_of_mem b ha)
    obtain ⟨hq,hb,hc⟩ := hp b List.mem_cons_self
    rw [List.length_cons,← Nat.add_assoc,List.cons_append,stringBytes,run_bind_ok (run_get _)]
    dsimp only
    rw [run_bind_ok (run_set _ _),if_neg hq,if_neg hb,if_neg hc,run_bind_ok ih]
    rfl

theorem run_stringBytes_escape {c : Char} {e : List Char} (he : Json.escapeChar c = '\\' :: e)
    {bs out rest : List UInt8} {n : Nat} (h : StateT.run (stringBytes n) bs = .ok (out,rest)) :
    StateT.run (stringBytes (n+1)) (Utf8.encode ('\\' :: e)++bs) =
      .ok (String.utf8EncodeChar c++out,rest) := by
  rw [encode_ascii (by decide),stringBytes,run_bind_ok (run_get _)]
  dsimp only
  rw [run_bind_ok (run_set _ _),if_neg (by decide),if_pos (by decide),run_bind_ok (run_escape he bs),
    run_bind_ok h]
  rfl

/-- The bound on the turns need only exceed the bytes before the closing quote. -/
theorem run_stringBytes (cs : List Char) {n : Nat}
    (h : (Utf8.encode (cs.flatMap Json.escapeChar)).length < n) (bs : List UInt8) :
    StateT.run (stringBytes n) (Utf8.encode (cs.flatMap Json.escapeChar)++0x22::bs) =
      .ok (Utf8.encode cs,bs) := by
  induction cs generalizing n with
  | nil =>
    obtain ⟨n,rfl⟩ := Nat.exists_eq_add_of_lt h
    rfl
  | cons c cs ih =>
    rw [List.flatMap_cons,Utf8.encode_append,List.append_assoc]
    rw [List.flatMap_cons,Utf8.encode_append,List.length_append] at h
    rcases escapeChar_cases c with ⟨e,he⟩ | ⟨he,hq,hb,hc⟩
    · rw [he] at h ⊢
      obtain ⟨n,rfl⟩ : ∃ m, n = m+1 := ⟨n-1,by omega⟩
      have hl := Utf8.length_encodeChar_pos '\\'
      rw [Utf8.encode_cons,List.length_append] at h
      exact run_stringBytes_escape he (ih (by omega))
    · rw [he] at h ⊢
      rw [Utf8.encode_cons,Utf8.encode_nil,List.append_nil] at h ⊢
      obtain ⟨m,rfl⟩ : ∃ m, n = m+(String.utf8EncodeChar c).length :=
        ⟨n-(String.utf8EncodeChar c).length,by omega⟩
      exact run_stringBytes_plain (fun b => plain_of_mem_encodeChar hq hb hc) (ih (by omega))

theorem run_string (s : String) (bs : List UInt8) :
    StateT.run string (Utf8.encode (s.toList.flatMap Json.escapeChar++['"'])++bs) =
      .ok (s,bs) := by
  rw [Utf8.encode_append,List.append_assoc,encode_ascii (by decide)]
  have hr := run_stringBytes s.toList (n := (Utf8.encode (s.toList.flatMap Json.escapeChar)++
    0x22::bs).length) (by simp) bs
  rw [string,run_bind_ok (run_get _)]
  refine (run_bind_ok hr _).trans ?_
  rw [Utf8.decode?_encode]
  dsimp only
  rw [String.ofList_toList]
  rfl

/-- Text with which a number does not go on. -/
def Stops (bs : List UInt8) : Prop :=
  ∀ b, bs.head? = some b → isDigit b = false ∧ b ≠ 0x2e ∧ b ≠ 0x45 ∧ b ≠ 0x65

theorem stops_nil : Stops [] := by
  intro b h
  cases h

theorem stops_cons {b : UInt8} (h : isDigit b = false ∧ b ≠ 0x2e ∧ b ≠ 0x45 ∧ b ≠ 0x65)
    (bs : List UInt8) : Stops (b::bs) := by
  intro c hc
  cases hc
  exact h

theorem toNat_of_isDigit {c : Char} (h : c.isDigit = true) : 48 ≤ c.toNat ∧ c.toNat ≤ 57 := by
  simp only [Char.isDigit,Bool.and_eq_true,decide_eq_true_eq] at h
  exact ⟨UInt32.le_iff_toNat_le.mp h.1,UInt32.le_iff_toNat_le.mp h.2⟩

theorem isDigit_byte {c : Char} (h : c.isDigit = true) :
    isDigit (UInt8.ofNat c.toNat) = true := by
  have hc := toNat_of_isDigit h
  simp only [isDigit,Bool.and_eq_true,decide_eq_true_eq,UInt8.le_iff_toNat_le]
  rw [Utf8.toNat_ofNat (by omega)]
  exact hc

def IsDigits (bs : List UInt8) : Prop := bs ≠ [] ∧ ∀ b ∈ bs, isDigit b = true

/-- Text with which a run of digits does not go on. -/
def EndsDigits (bs : List UInt8) : Prop := ∀ b, bs.head? = some b → isDigit b = false

theorem Stops.endsDigits {bs : List UInt8} (h : Stops bs) : EndsDigits bs :=
  fun b hb => (h b hb).1

section Digits

variable {ds bs : List UInt8}

theorem run_digits (h : IsDigits ds) (hs : EndsDigits bs) :
    StateT.run digits (ds++bs) = .ok (ds.map (·.toNat-48),bs) := by
  have ht : bs.takeWhile isDigit = [] ∧ bs.dropWhile isDigit = bs := by
    cases bs with
    | nil => exact ⟨rfl,rfl⟩
    | cons b bs =>
      have hb := hs b rfl
      simp [hb]
  have hd : (ds++bs).takeWhile isDigit = ds ∧ (ds++bs).dropWhile isDigit = bs := by
    rw [List.takeWhile_append_of_pos h.2,List.dropWhile_append_of_pos h.2,ht.1,ht.2]
    simp
  exact congrArg Except.ok (Prod.ext (by dsimp only; rw [hd.1]) hd.2)

theorem IsDigits.map_ne_nil (h : IsDigits ds) : ds.map (·.toNat-48) ≠ [] := by
  simpa using h.1

theorem IsDigits.map_ne (h : IsDigits ds) (hz : ds.head? = some 0x30 → ds = [0x30])
    (e : Nat) (es : List Nat) : ds.map (·.toNat-48) ≠ 0::e::es := by
  intro he
  obtain ⟨d,ds,rfl,hd,ht⟩ := List.map_eq_cons_iff.mp he
  have hdigit := h.2 d List.mem_cons_self
  simp only [isDigit,Bool.and_eq_true,decide_eq_true_eq,UInt8.le_iff_toNat_le] at hdigit
  have hl : 48 ≤ d.toNat := hdigit.1
  have h0 : d = 0x30 := UInt8.toNat_inj.mp (by change d.toNat = 48; omega)
  rw [h0] at hz
  rw [(List.cons.inj (hz rfl)).2] at ht
  cases ht

theorem run_wholeDigits (h : IsDigits ds) (hz : ds.head? = some 0x30 → ds = [0x30])
    (hs : EndsDigits bs) :
    StateT.run wholeDigits (ds++bs) = .ok (ds.map (·.toNat-48),bs) := by
  rw [wholeDigits,run_bind_ok (run_digits h hs)]
  split
  · exact absurd ‹_› h.map_ne_nil
  · exact absurd ‹_› (h.map_ne hz _ _)
  · rfl

end Digits

theorem encode_digits {cs : List Char} (h : ∀ c ∈ cs, c.isDigit = true) :
    Utf8.encode cs = cs.map fun c => UInt8.ofNat c.toNat := by
  induction cs with
  | nil => rfl
  | cons c cs ih =>
    have hn := toNat_of_isDigit (h c List.mem_cons_self)
    rw [Utf8.encode_cons,Utf8.encodeChar_of_le (by omega),
      ih fun d hd => h d (List.mem_cons_of_mem c hd)]
    rfl

theorem run_wholeDigits_decimal (n : Nat) {bs : List UInt8} (hs : EndsDigits bs) :
    StateT.run wholeDigits (Utf8.encode (Decimal.digits n)++bs) =
      .ok ((Decimal.digits n).map (·.toNat-48),bs) := by
  have hd : ∀ c ∈ Decimal.digits n, c.isDigit = true := fun c => Decimal.isDigit_of_mem_digits
  have hds : IsDigits ((Decimal.digits n).map fun c => UInt8.ofNat c.toNat) := by
    refine ⟨by simp [Decimal.digits_ne_nil],fun b hb => ?_⟩
    obtain ⟨c,hc,rfl⟩ := List.mem_map.mp hb
    exact isDigit_byte (hd c hc)
  have hz : ((Decimal.digits n).map fun c => UInt8.ofNat c.toNat).head? = some 0x30 →
      (Decimal.digits n).map (fun c => UInt8.ofNat c.toNat) = [0x30] := by
    intro h
    rw [List.head?_map] at h
    obtain ⟨c,hc,h0⟩ := Option.map_eq_some_iff.mp h
    have hn := toNat_of_isDigit (hd c (List.mem_of_head? hc))
    have hc0 : c = '0' := by
      have ht := congrArg UInt8.toNat h0
      rw [Utf8.toNat_ofNat (by omega)] at ht
      exact Char.toNat_inj.mp ht
    rw [Decimal.eq_zero_of_head?_digits (hc.trans (congrArg some hc0))]
    rfl
  have hm : ((Decimal.digits n).map fun c => UInt8.ofNat c.toNat).map (·.toNat-48) =
      (Decimal.digits n).map (·.toNat-48) := by
    rw [List.map_map]
    refine List.map_congr_left fun c hc => ?_
    have hn := toNat_of_isDigit (hd c hc)
    simp only [Function.comp,Utf8.toNat_ofNat (show c.toNat < 256 by omega)]
  rw [encode_digits hd,run_wholeDigits hds hz hs,hm]

theorem le_ofDigitChars (cs : List Char) (s : Nat) : s ≤ Nat.ofDigitChars 10 cs s := by
  induction cs generalizing s with
  | nil => simp
  | cons c cs ih =>
    rw [Nat.ofDigitChars_cons]
    exact Nat.le_trans (by omega) (ih _)

/-- No digit is left over if the number fits 64 bits. -/
theorem absorb_eq {cs : List Char} {s : Nat} (h : Nat.ofDigitChars 10 cs s < UInt64.size) :
    absorb s (cs.map (·.toNat-48)) = (Nat.ofDigitChars 10 cs s,[]) := by
  induction cs generalizing s with
  | nil => rfl
  | cons c cs ih =>
    have hc : s*10+(c.toNat-48) = 10*s+(c.toNat - '0'.toNat) := by
      rw [Nat.mul_comm]
      rfl
    rw [Nat.ofDigitChars_cons] at h ⊢
    have hl := le_ofDigitChars cs (10*s+(c.toNat - '0'.toNat))
    rw [List.map_cons,absorb,hc,if_pos (by omega),ih h]

theorem toNat_ofNat_toNat (b : UInt8) : (Char.ofNat b.toNat).toNat = b.toNat := by
  have hv : b.toNat.isValidChar := .inl (by have := b.toNat_lt; omega)
  rw [Char.ofNat,dif_pos hv]
  rfl

theorem head?_of_peek {bs : List UInt8} {c : Char}
    (h : (bs.head?.map fun b => Char.ofNat b.toNat) = some c) :
    bs.head? = some (UInt8.ofNat c.toNat) := by
  obtain ⟨b,hb,rfl⟩ := Option.map_eq_some_iff.mp h
  rw [hb,toNat_ofNat_toNat,UInt8.ofNat_toNat]

theorem run_number {negative : Bool} {n : Nat} (hn : n < UInt64.size) {bs : List UInt8}
    (hs : Stops bs) : StateT.run (number negative) (Utf8.encode (Decimal.digits n)++bs) =
      StateT.run (if !negative then return .integer n
        else if 0 < n ∧ n ≤ 0x8000000000000000 then return .integer (-n)
        else real negative n 0 : Reader Number) bs := by
  have ha : absorb 0 ((Decimal.digits n).map (·.toNat-48)) = (n,[]) := by
    have hv : Nat.ofDigitChars 10 (Decimal.digits n) 0 = n := Nat.ofDigitChars_ten_toDigits
    rw [absorb_eq (by rw [hv]; exact hn),hv]
  rw [number,run_bind_ok (run_wholeDigits_decimal n hs.endsDigits),ha]
  dsimp only
  have hp : StateT.run peek bs = .ok (bs.head?.map fun b => Char.ofNat b.toNat,bs) := rfl
  rw [run_bind_ok hp]
  split
  · exact absurd rfl (hs _ (head?_of_peek ‹_›)).2.1
  · exact absurd rfl (hs _ (head?_of_peek ‹_›)).2.2.2
  · exact absurd rfl (hs _ (head?_of_peek ‹_›)).2.2.1
  · rw [if_neg (by simp)]

theorem run_natural {n : Nat} (hn : n < UInt64.size) {bs : List UInt8} (hs : Stops bs) :
    StateT.run (number false) (Utf8.encode (Decimal.digits n)++bs) = .ok (.integer n,bs) := by
  rw [run_number hn hs]
  rfl

theorem run_negative {n : Nat} (hn : 0 < n) (hl : n ≤ 0x8000000000000000) {bs : List UInt8}
    (hs : Stops bs) : StateT.run (number true) (Utf8.encode (Decimal.digits n)++bs) =
      .ok (.integer (-n),bs) := by
  have hn' : n < UInt64.size := Nat.lt_of_le_of_lt hl (by decide)
  rw [run_number hn' hs,if_neg (by decide),if_pos ⟨hn,hl⟩]
  rfl

end Reader
end PathVector
