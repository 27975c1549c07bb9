import Mathlib.Data.List.TakeWhile
import PathVector.Config
import PathVector.Proofs.Address

/-! The grammar of neighbor tokens. Reading one gives the neighbor it spells, and what is not such a
token stands in the error as a whole. -/
namespace PathVector

theorem cut?_eq_some {sep : Char} {cs l r : List Char} :
    cut? sep cs = some (l,r) ↔ cs = l++sep::r ∧ sep ∉ l := by
  constructor
  · intro h
    rw [cut?] at h
    split at h
    · cases h
    · rename_i c rest hd
      obtain ⟨rfl,rfl⟩ := Prod.mk.inj (Option.some.inj h)
      have hc : c = sep := by
        have hne : cs.dropWhile (fun x => decide (x ≠ sep)) ≠ [] := by rw [hd]; exact List.cons_ne_nil c rest
        have hhead := List.head_dropWhile_not _ hne
        simpa only [hd,List.head_cons,decide_eq_false_iff_not,not_not] using hhead
      refine ⟨?_,fun hm => by simpa using List.mem_takeWhile_imp hm⟩
      calc cs = cs.takeWhile (· ≠ sep)++cs.dropWhile (· ≠ sep) := List.takeWhile_append_dropWhile.symm
        _ = cs.takeWhile (· ≠ sep)++sep::rest := by rw [hd,hc]
  · rintro ⟨rfl,hl⟩
    have hp : ∀ c ∈ l, decide (c ≠ sep) = true := fun c hc =>
      decide_eq_true fun he => hl (he ▸ hc)
    rw [cut?,List.dropWhile_append_of_pos hp,List.takeWhile_append_of_pos hp]
    simp

/-- A port is spelled by its number in digits, after an optional plus sign and any zeros. -/
def SpellsPort (cs : List Char) (port : UInt16) : Prop :=
  ∃ plus ds, (plus = [] ∨ plus = ['+']) ∧ cs = plus++ds ∧ ds ≠ [] ∧
    (∀ c ∈ ds, c.isDigit = true) ∧ Nat.ofDigitChars 10 ds 0 = port.toNat

theorem port?_eq_some {cs : List Char} {port : UInt16} :
    port? cs = some port ↔ SpellsPort cs port := by
  have hword : ∀ ds, ((Decimal.ofDigits? ds).filter (· < UInt16.size)).map Nat.toUInt16 = some port ↔
      Decimal.ofDigits? ds = some port.toNat := by
    intro ds
    simp only [Option.map_eq_some_iff,Option.filter_eq_some_iff,decide_eq_true_eq]
    constructor
    · rintro ⟨n,⟨hn,hlt⟩,rfl⟩
      rw [hn]
      exact congrArg some (UInt16.toNat_ofNat_of_lt hlt).symm
    · intro h
      exact ⟨_,⟨h,port.toNat_lt⟩,UInt16.ofNat_toNat⟩
  rw [port?,hword,Decimal.ofDigits?_eq_some]
  constructor
  · rintro ⟨hne,hd,hv⟩
    by_cases hplus : cs.head? = some '+'
    · rw [if_pos hplus] at hne hd hv
      refine ⟨['+'],cs.tail,.inr rfl,?_,hne,hd,hv⟩
      exact (List.cons_head?_tail hplus).symm
    · rw [if_neg hplus] at hne hd hv
      exact ⟨[],cs,.inl rfl,rfl,hne,hd,hv⟩
  · rintro ⟨plus,ds,hplus,rfl,hne,hd,hv⟩
    rcases hplus with rfl | rfl
    · have hplus : ([]++ds).head? ≠ some '+' := fun h =>
        absurd (hd '+' (List.mem_of_head? h)) (by decide)
      rw [if_neg hplus]
      exact ⟨hne,hd,hv⟩
    · exact ⟨hne,hd,hv⟩

theorem toList_toString_port (port : UInt16) :
    (toString port).toList = Decimal.digits port.toNat := by
  change (toString port.toNat).toList = _
  rw [Nat.toString_eq_ofList_toDigits]
  exact String.toList_ofList

namespace SpellsPort

variable {cs : List Char} {port : UInt16}

theorem digits (port : UInt16) : SpellsPort (Decimal.digits port.toNat) port :=
  ⟨[],_,.inl rfl,rfl,Decimal.ofDigits?_eq_some.mp (Decimal.ofDigits?_digits _)⟩

theorem eq_append_digits (h : SpellsPort cs port) : ∃ plus k, (plus = [] ∨ plus = ['+']) ∧
    cs = plus++List.replicate k '0'++Decimal.digits port.toNat := by
  obtain ⟨plus,ds,hplus,rfl,hds⟩ := h
  obtain ⟨k,rfl⟩ := Decimal.eq_zeros_append_digits (Decimal.ofDigits?_eq_some.mpr hds)
  exact ⟨plus,k,hplus,(List.append_assoc ..).symm⟩

theorem dash_notMem (h : SpellsPort cs port) : '-' ∉ cs := by
  obtain ⟨plus,ds,hplus,rfl,-,hd,-⟩ := h
  rw [List.mem_append]
  rintro (hm | hm)
  · rcases hplus with rfl | rfl <;> simp at hm
  · exact absurd (hd _ hm) (by decide)

end SpellsPort

/-- An address is spelled by its four octets, in digits without leading zeros and between dots. -/
def SpellsAddress (cs : List Char) (a : Address) : Prop :=
  ∃ w x y z, (w ≤ 255 ∧ x ≤ 255 ∧ y ≤ 255 ∧ z ≤ 255) ∧ a = .ofOctets w x y z ∧
    cs = ['.'].intercalate ([w,x,y,z].map Decimal.digits)

theorem SpellsAddress.dash_notMem {cs : List Char} {a : Address} (h : SpellsAddress cs a) :
    '-' ∉ cs := by
  obtain ⟨w,x,y,z,-,-,rfl⟩ := h
  have hdash : ∀ n, '-' ∉ Decimal.digits n := fun n hm =>
    absurd (Decimal.isDigit_of_mem_digits hm) (by decide)
  simp [List.intercalate,hdash]

theorem ofText?_ofList {cs : List Char} {a : Address} :
    Address.ofText? (String.ofList cs) = some a ↔ SpellsAddress cs a := by
  rw [Address.ofText?_eq_some,String.toList_ofList,SpellsAddress]

theorem spellsAddress_chars (a : Address) : SpellsAddress a.chars a := by
  rw [← ofText?_ofList]
  exact a.ofText?_toString

theorem SpellsAddress.eq_chars {cs : List Char} {a : Address} (h : SpellsAddress cs a) :
    cs = a.chars := by
  have htext := Address.toString_of_ofText? (ofText?_ofList.mpr h)
  rw [← a.toList_toString,htext,String.toList_ofList]

namespace NeighborConfig

/-- A neighbor is spelled by its port, address and relationship with dashes between them. -/
def Spells (s : String) (n : NeighborConfig) : Prop :=
  ∃ port address, s.toList = port ++ '-' :: (address ++ '-' :: n.relationship.text.toList) ∧
    SpellsPort port n.port ∧ SpellsAddress address n.address

theorem ofText?_eq_some {s : String} {n : NeighborConfig} : ofText? s = some n ↔ Spells s n := by
  constructor
  · intro h
    simp only [ofText?,Option.bind_eq_bind,Option.bind_eq_some_iff] at h
    obtain ⟨⟨port,rest⟩,hfirst,⟨address,relationship⟩,hsecond,p,hp,a,ha,r,hr,hn⟩ := h
    obtain ⟨hs,-⟩ := cut?_eq_some.mp hfirst
    obtain ⟨rfl,-⟩ := cut?_eq_some.mp hsecond
    obtain rfl : relationship = r.text.toList := by
      rw [Relationship.text_of_ofText? hr,String.toList_ofList]
    obtain rfl := Option.some.inj hn
    exact ⟨port,address,hs,port?_eq_some.mp hp,ofText?_ofList.mp ha⟩
  · rintro ⟨port,address,hs,hp,ha⟩
    simp only [ofText?,Option.bind_eq_bind,cut?_eq_some.mpr ⟨hs,hp.dash_notMem⟩,
      cut?_eq_some.mpr ⟨rfl,ha.dash_notMem⟩,port?_eq_some.mpr hp,ofText?_ofList.mpr ha,
      String.ofList_toList,Relationship.ofText?_text,Option.bind_some]
    rfl

theorem toList_toString (n : NeighborConfig) : (toString n).toList =
    Decimal.digits n.port.toNat ++ '-' :: (n.address.chars ++ '-' :: n.relationship.text.toList) := by
  rw [← toList_toString_port,← n.address.toList_toString]
  change (s!"{n.port}-{n.address}-{n.relationship}").toList = _
  simp
  rfl

theorem spells_toString (n : NeighborConfig) : Spells (toString n) n :=
  ⟨_,_,toList_toString n,SpellsPort.digits n.port,spellsAddress_chars n.address⟩

/-- A token has a choice only in front of its port. -/
theorem Spells.eq_append_toString {s : String} {n : NeighborConfig} (h : Spells s n) :
    ∃ plus k, (plus = [] ∨ plus = ['+']) ∧
      s.toList = plus++List.replicate k '0'++(toString n).toList := by
  obtain ⟨port,address,hs,hp,ha⟩ := h
  obtain ⟨plus,k,hplus,rfl⟩ := hp.eq_append_digits
  refine ⟨plus,k,hplus,?_⟩
  rw [hs,toList_toString,ha.eq_chars,List.append_assoc _ _ (_::_)]

theorem parse_eq_ok {s : String} {n : NeighborConfig} : parse s = .ok n ↔ Spells s n := by
  rw [← ofText?_eq_some,parse]
  cases ofText? s <;> simp

theorem parse_eq_error {s : String} {e : Error} :
    parse s = .error e ↔ e = .invalidNeighbor s ∧ ∀ n, ¬Spells s n := by
  simp only [← ofText?_eq_some,parse]
  cases ofText? s <;> simp [eq_comm]

/-- Reading accepts the tokens and nothing else, and undoes writing; what it accepts is the written
form up to a plus sign and zeros in front. -/
theorem parse_exact :
    (∀ s n, parse s = .ok n ↔ Spells s n) ∧
    (∀ s e, parse s = .error e ↔ e = .invalidNeighbor s ∧ ∀ n, ¬Spells s n) ∧
    (∀ n, parse (toString n) = .ok n) ∧
    ∀ s n, parse s = .ok n → ∃ plus k, (plus = [] ∨ plus = ['+']) ∧
      s.toList = plus++List.replicate k '0'++(toString n).toList :=
  ⟨fun _ _ => parse_eq_ok,fun _ _ => parse_eq_error,fun n => parse_eq_ok.mpr (spells_toString n),
    fun _ _ h => (parse_eq_ok.mp h).eq_append_toString⟩

end NeighborConfig
end PathVector
