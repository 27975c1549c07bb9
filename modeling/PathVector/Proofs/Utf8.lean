import Mathlib.Tactic
import PathVector.Utf8

/-! Decoding undoes encoding. A character is cut off the front of its own bytes, whatever follows
them, so a whole text comes back by induction. -/
namespace PathVector
namespace Utf8

@[simp] theorem encode_nil : encode [] = [] := rfl

@[simp] theorem encode_cons (c : Char) (cs : List Char) :
    encode (c::cs) = String.utf8EncodeChar c++encode cs := List.flatMap_cons

@[simp] theorem encode_append (cs ds : List Char) : encode (cs++ds) = encode cs++encode ds :=
  List.flatMap_append

theorem toNat_ofNat {n : Nat} (h : n < 256) : (UInt8.ofNat n).toNat = n := by
  simp [Nat.mod_eq_of_lt h]

theorem encodeChar_of_le {c : Char} (h : c.toNat ≤ 0x7f) :
    String.utf8EncodeChar c = [UInt8.ofNat c.toNat] := by
  unfold String.utf8EncodeChar
  exact if_pos h

/-- The bytes of the other characters lie above ASCII. -/
theorem le_of_mem_encodeChar {c : Char} (h : 0x80 ≤ c.toNat) {b : UInt8}
    (hb : b ∈ String.utf8EncodeChar c) : 0x80 ≤ b.toNat := by
  have hv : c.val.toNat < 0xd800 ∨ 0xdfff < c.val.toNat ∧ c.val.toNat < 0x110000 := c.valid
  change 0x80 ≤ c.val.toNat at h
  unfold String.utf8EncodeChar at hb
  generalize c.val.toNat = v at h hv hb
  dsimp only at hb
  split at hb
  · omega
  split at hb
  · simp only [List.mem_cons,List.not_mem_nil,or_false] at hb
    rcases hb with rfl | rfl <;> rw [toNat_ofNat (by omega)] <;> omega
  split at hb
  · simp only [List.mem_cons,List.not_mem_nil,or_false] at hb
    rcases hb with rfl | rfl | rfl <;> rw [toNat_ofNat (by omega)] <;> omega
  · simp only [List.mem_cons,List.not_mem_nil,or_false] at hb
    rcases hb with rfl | rfl | rfl | rfl <;> rw [toNat_ofNat (by omega)] <;> omega

theorem length_encodeChar_pos (c : Char) : 0 < (String.utf8EncodeChar c).length := by
  rw [String.length_utf8EncodeChar]
  exact c.utf8Size_pos

theorem length_le_length_encode (cs : List Char) : cs.length ≤ (encode cs).length := by
  induction cs with
  | nil => simp
  | cons c cs ih =>
    have h := length_encodeChar_pos c
    simp only [encode_cons,List.length_append,List.length_cons]
    omega

theorem tail_cons {low high : UInt8} {p n m : Nat} {bs : List UInt8} (hm : m < 64)
    (hl : low.toNat ≤ m+0x80) (hh : m+0x80 ≤ high.toNat) :
    tail low high p (n+1) (UInt8.ofNat (m+0x80)::bs) = tail 0x80 0xbf (p*64+m) n bs := by
  have hb : (UInt8.ofNat (m+0x80)).toNat = m+0x80 := toNat_ofNat (by omega)
  rw [tail,if_pos (by rw [UInt8.le_iff_toNat_le,UInt8.le_iff_toNat_le,hb]; exact ⟨hl,hh⟩),hb]
  simp

theorem tail_one {low high : UInt8} {p m : Nat} (hm : m < 64) (hl : low.toNat ≤ m+0x80)
    (hh : m+0x80 ≤ high.toNat) (bs : List UInt8) :
    tail low high p 1 (UInt8.ofNat (m+0x80)::bs) = (some (Char.ofNat (p*64+m)),bs) := by
  rw [tail_cons hm hl hh,tail]

theorem tail_two {low high : UInt8} {p m k : Nat} (hm : m < 64) (hl : low.toNat ≤ m+0x80)
    (hh : m+0x80 ≤ high.toNat) (hk : k < 64) (bs : List UInt8) :
    tail low high p 2 (UInt8.ofNat (m+0x80)::UInt8.ofNat (k+0x80)::bs) =
      (some (Char.ofNat ((p*64+m)*64+k)),bs) := by
  rw [tail_cons hm hl hh,tail_one hk (by simp) (by simp; omega)]

theorem tail_three {low high : UInt8} {p m k j : Nat} (hm : m < 64) (hl : low.toNat ≤ m+0x80)
    (hh : m+0x80 ≤ high.toNat) (hk : k < 64) (hj : j < 64) (bs : List UInt8) :
    tail low high p 3 (UInt8.ofNat (m+0x80)::UInt8.ofNat (k+0x80)::UInt8.ofNat (j+0x80)::bs) =
      (some (Char.ofNat (((p*64+m)*64+k)*64+j)),bs) := by
  rw [tail_cons hm hl hh,tail_two hk (by simp) (by simp; omega) hj]

theorem lead?_ofNat {n : Nat} (h : n < 256) : lead? (UInt8.ofNat n) =
    if n < 0xc2 then none
    else if n < 0xe0 then some { payload := n-0xc0, tails := 1 }
    else if n = 0xe0 then some { payload := 0, low := 0xa0, tails := 2 }
    else if n = 0xed then some { payload := n-0xe0, high := 0x9f, tails := 2 }
    else if n < 0xf0 then some { payload := n-0xe0, tails := 2 }
    else if n = 0xf0 then some { payload := 0, low := 0x90, tails := 3 }
    else if n < 0xf4 then some { payload := n-0xf0, tails := 3 }
    else if n = 0xf4 then some { payload := n-0xf0, high := 0x8f, tails := 3 }
    else none := by
  have hb : (UInt8.ofNat n).toNat = n := toNat_ofNat h
  simp only [lead?,UInt8.lt_iff_toNat_lt,← UInt8.toNat_inj,hb]
  rfl

theorem unit_one {n : Nat} (h : n ≤ 0x7f) (bs : List UInt8) :
    unit (UInt8.ofNat n) bs = (some (Char.ofNat n),bs) := by
  have hb : (UInt8.ofNat n).toNat = n := toNat_ofNat (by omega)
  rw [unit,if_pos (by rw [UInt8.lt_iff_toNat_lt,hb]; exact Nat.lt_succ_of_le h),hb]

theorem unit_lead {n : Nat} (hn : 0x80 ≤ n) (hn' : n < 256) {l : Lead}
    (h : lead? (UInt8.ofNat n) = some l) (bs : List UInt8) :
    unit (UInt8.ofNat n) bs = tail l.low l.high l.payload l.tails bs := by
  have hb : (UInt8.ofNat n).toNat = n := toNat_ofNat hn'
  rw [unit,if_neg (by rw [UInt8.lt_iff_toNat_lt,hb]; exact Nat.not_lt.mpr hn),h]

theorem unit_two {v : Nat} (h : 0x80 ≤ v) (h' : v ≤ 0x7ff) (bs : List UInt8) :
    unit (UInt8.ofNat (v/64%32+0xc0)) (UInt8.ofNat (v%64+0x80)::bs) =
      (some (Char.ofNat v),bs) := by
  have hl := lead?_ofNat (n := v/64%32+0xc0) (by omega)
  rw [if_neg (by omega),if_pos (by omega)] at hl
  have hv : (v/64%32+0xc0-0xc0)*64+v%64 = v := by omega
  rw [unit_lead (by omega) (by omega) hl,tail_one (by omega) (by simp) (by simp; omega)]
  exact Prod.ext (congrArg (fun n => some (Char.ofNat n)) hv) rfl

/-- The first tail byte has bounds of its own below two lead bytes: overlong forms and surrogates
are no characters. -/
theorem unit_three {v : Nat} (h : 0x800 ≤ v) (h' : v ≤ 0xffff)
    (hs : v < 0xd800 ∨ 0xdfff < v) (bs : List UInt8) :
    unit (UInt8.ofNat (v/4096%16+0xe0))
      (UInt8.ofNat (v/64%64+0x80)::UInt8.ofNat (v%64+0x80)::bs) = (some (Char.ofNat v),bs) := by
  have hl := lead?_ofNat (n := v/4096%16+0xe0) (by omega)
  rw [if_neg (by omega),if_neg (by omega)] at hl
  split at hl
  · have hv : ((0 : Nat)*64+v/64%64)*64+v%64 = v := by omega
    rw [unit_lead (by omega) (by omega) hl,
      tail_two (by omega) (by simp; omega) (by simp; omega) (by omega)]
    exact Prod.ext (congrArg (fun n => some (Char.ofNat n)) hv) rfl
  have hv : ((v/4096%16+0xe0-0xe0)*64+v/64%64)*64+v%64 = v := by omega
  split at hl
  · rw [unit_lead (by omega) (by omega) hl,
      tail_two (by omega) (by simp) (by simp; omega) (by omega)]
    exact Prod.ext (congrArg (fun n => some (Char.ofNat n)) hv) rfl
  · rw [if_pos (by omega)] at hl
    rw [unit_lead (by omega) (by omega) hl,
      tail_two (by omega) (by simp) (by simp; omega) (by omega)]
    exact Prod.ext (congrArg (fun n => some (Char.ofNat n)) hv) rfl

theorem unit_four {v : Nat} (h : 0xffff < v) (h' : v < 0x110000) (bs : List UInt8) :
    unit (UInt8.ofNat (v/262144%8+0xf0)) (UInt8.ofNat (v/4096%64+0x80)::
      UInt8.ofNat (v/64%64+0x80)::UInt8.ofNat (v%64+0x80)::bs) = (some (Char.ofNat v),bs) := by
  have hl := lead?_ofNat (n := v/262144%8+0xf0) (by omega)
  rw [if_neg (by omega),if_neg (by omega),if_neg (by omega),if_neg (by omega),
    if_neg (by omega)] at hl
  split at hl
  · have hv : (((0 : Nat)*64+v/4096%64)*64+v/64%64)*64+v%64 = v := by omega
    rw [unit_lead (by omega) (by omega) hl,
      tail_three (by omega) (by simp; omega) (by simp; omega) (by omega) (by omega)]
    exact Prod.ext (congrArg (fun n => some (Char.ofNat n)) hv) rfl
  have hv : (((v/262144%8+0xf0-0xf0)*64+v/4096%64)*64+v/64%64)*64+v%64 = v := by omega
  split at hl
  · rw [unit_lead (by omega) (by omega) hl,
      tail_three (by omega) (by simp) (by simp; omega) (by omega) (by omega)]
    exact Prod.ext (congrArg (fun n => some (Char.ofNat n)) hv) rfl
  · rw [if_pos (by omega)] at hl
    rw [unit_lead (by omega) (by omega) hl,
      tail_three (by omega) (by simp) (by simp; omega) (by omega) (by omega)]
    exact Prod.ext (congrArg (fun n => some (Char.ofNat n)) hv) rfl

theorem unit_encodeChar (c : Char) (bs : List UInt8) :
    ∃ b cs, String.utf8EncodeChar c = b::cs ∧ unit b (cs++bs) = (some c,bs) := by
  have hv : c.val.toNat < 0xd800 ∨ 0xdfff < c.val.toNat ∧ c.val.toNat < 0x110000 := c.valid
  have hc : Char.ofNat c.val.toNat = c := Char.ofNat_toNat c
  unfold String.utf8EncodeChar
  generalize c.val.toNat = v at hv hc
  subst hc
  dsimp only
  split
  · exact ⟨_,_,rfl,unit_one ‹_› bs⟩
  split
  · exact ⟨_,_,rfl,unit_two (by omega) ‹_› bs⟩
  split
  · exact ⟨_,_,rfl,unit_three (by omega) ‹_› (by omega) bs⟩
  · exact ⟨_,_,rfl,unit_four (by omega) (by omega) bs⟩

theorem decode?_encode (cs : List Char) : decode? (encode cs) = some cs := by
  unfold decode?
  induction cs with
  | nil => rfl
  | cons c cs ih =>
    obtain ⟨b,bs,hb,hu⟩ := unit_encodeChar c (encode cs)
    rw [encode_cons,hb,List.cons_append,units_cons,hu,List.mapM_cons,ih]
    rfl

end Utf8
end PathVector
