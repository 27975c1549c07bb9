import Mathlib.Data.List.Lex
import Mathlib.Data.Prod.Lex
import PathVector.Aggregate
import PathVector.Proofs.Block
import PathVector.Proofs.Table

/-! The order of routes. Routes are compared field by field, which is to compare lists of numbers:
an order is told by a key in a linear order, and the keys of the fields make up the key of a route.
A table is in this order, so the routes to one network stand together in it. -/
namespace PathVector

open Std (OrientedCmp TransCmp TransOrd LawfulEqOrd)

section Keys

variable {α β κ μ : Type} [LinearOrder κ] [LinearOrder μ]

/-- To compare by `c` is to compare keys. -/
def OrderedBy (c : α → α → Ordering) (key : α → κ) : Prop := ∀ a b, c a b = cmp (key a) (key b)

theorem orderedBy_of_lt {c : α → α → Ordering} [OrientedCmp c] {key : α → κ}
    (h : ∀ a b, c a b = .lt ↔ key a < key b) : OrderedBy c key := by
  intro a b
  symm
  cases hc : c a b with
  | lt => exact (cmp_eq_lt_iff _ _).mpr ((h a b).mp hc)
  | gt => exact (cmp_eq_gt_iff _ _).mpr ((h b a).mp (OrientedCmp.lt_of_gt hc))
  | eq =>
    have hab : ¬ key a < key b := by simp [← h,hc]
    have hba : ¬ key b < key a := by simp [← h,OrientedCmp.eq_symm hc]
    exact (cmp_eq_eq_iff _ _).mpr (le_antisymm (not_lt.mp hba) (not_lt.mp hab))

theorem OrderedBy.comap {c : α → α → Ordering} {key : α → κ} (h : OrderedBy c key) (f : β → α) :
    OrderedBy (fun a b => c (f a) (f b)) fun a => key (f a) :=
  fun a b => h (f a) (f b)

theorem OrderedBy.lex {c d : α → α → Ordering} {f : α → κ} {g : α → μ} (hc : OrderedBy c f)
    (hd : OrderedBy d g) : OrderedBy (compareLex c d) fun a => toLex (f a,g a) := by
  intro a b
  rw [cmp_eq_compare,Prod.Lex.compare_def]
  simp only [compareLex,compareOn,ofLex_toLex]
  rw [hc,hd,cmp_eq_compare,cmp_eq_compare]

end Keys

section Fields

theorem orderedBy_address : OrderedBy (compare : Address → Address → Ordering) (·.bits.toNat) :=
  orderedBy_of_lt fun _ _ => Address.compare_eq_lt.trans BitVec.lt_def

theorem orderedBy_mask : OrderedBy (compare : Mask → Mask → Ordering) (·.length) :=
  orderedBy_of_lt fun _ _ => Mask.compare_eq_lt

theorem Mask.toNat_address (m : Mask) : m.address.bits.toNat+2^m.shift = 2^32 := by
  have hs : m.shift ≤ 32 := Nat.sub_le 32 m.length
  have hp : 2^(32-m.shift)*2^m.shift = 2^32 := by rw [← pow_add,Nat.sub_add_cancel hs]
  have hd : (2^32-1)/2^m.shift = 2^(32-m.shift)-1 := by
    have hpos := Nat.two_pow_pos m.shift
    apply Nat.div_eq_of_lt_le
    · rw [Nat.sub_mul,hp]
      omega
    · rw [Nat.sub_add_cancel (Nat.two_pow_pos _),hp]
      omega
  have h := toNat_and_address (BitVec.allOnes 32) m
  rw [BitVec.allOnes_and,BitVec.toNat_allOnes,hd,Nat.sub_mul,hp,one_mul] at h
  have hle : 2^m.shift ≤ 2^32 := Nat.pow_le_pow_right (by decide) hs
  omega

theorem orderedBy_mask_address :
    OrderedBy (compare : Mask → Mask → Ordering) (·.address.bits.toNat) := by
  apply orderedBy_of_lt
  intro m m'
  have hm := m.toNat_address
  have hm' := m'.toNat_address
  have hshift : m.length < m'.length ↔ m'.shift < m.shift := by
    have hl := m'.length_le
    unfold Mask.shift
    omega
  rw [Mask.compare_eq_lt,hshift,← Nat.pow_lt_pow_iff_right (by decide : 1 < 2)]
  omega

theorem orderedBy_word : OrderedBy (compare : UInt32 → UInt32 → Ordering) (·.toNat) :=
  orderedBy_of_lt fun _ _ => compareOfLessAndEq_eq_lt.trans UInt32.lt_iff_toNat_lt

theorem orderedBy_flag : OrderedBy (compare : Bool → Bool → Ordering) id := by
  unfold OrderedBy
  decide

/-- Paths are compared from the left, and a path comes before those that go on from it. -/
theorem orderedBy_path :
    OrderedBy (compare : List UInt32 → List UInt32 → Ordering) (·.map UInt32.toNat) := by
  apply orderedBy_of_lt
  intro xs ys
  induction xs generalizing ys with
  | nil => cases ys <;> simp
  | cons x xs ih =>
    cases ys with
    | nil => simp
    | cons y ys =>
      have hlt : compare x y = .lt ↔ x.toNat < y.toNat := by rw [orderedBy_word,cmp_eq_lt_iff]
      have heq : compare x y = .eq ↔ x.toNat = y.toNat := by rw [orderedBy_word,cmp_eq_eq_iff]
      rw [List.compare_cons_cons,Ordering.then_eq_lt,ih,hlt,heq]
      exact List.cons_lt_cons_iff.symm

/-- The place of an origin among all, the least preferred first. -/
def Origin.place (o : Origin) : Nat := [unknown,exterior,interior].idxOf o

theorem orderedBy_origin : OrderedBy (compare : Origin → Origin → Ordering) Origin.place := by
  intro a b
  cases a <;> cases b <;> decide

end Fields

def Network.sortKey (n : Network) : ℕ ×ₗ ℕ := toLex (n.base.bits.toNat,n.mask.length)

theorem Network.orderedBy_sortKey : OrderedBy (compare : Network → Network → Ordering) sortKey :=
  (orderedBy_address.comap base).lex (orderedBy_mask.comap mask)

/-- The fields of a route from the first that counts to the last. -/
def Route.sortKey (r : Route) : ℕ ×ₗ ℕ ×ₗ List ℕ ×ₗ ℕ ×ₗ Bool ×ₗ ℕ :=
  toLex (r.network.base.bits.toNat,toLex (r.mask.length,toLex (r.asPath.map UInt32.toNat,
    toLex (r.localPref.toNat,toLex (r.selfOriginated,r.origin.place)))))

theorem Route.orderedBy_sortKey : OrderedBy (compare : Route → Route → Ordering) sortKey := by
  have h := (orderedBy_address.comap (fun r : Route => r.network.base)).lex <|
    (orderedBy_mask.comap mask).lex <| (orderedBy_path.comap asPath).lex <|
    (orderedBy_word.comap localPref).lex <| (orderedBy_flag.comap selfOriginated).lex <|
    orderedBy_origin.comap origin
  intro a b
  refine Eq.trans ?_ (h a b)
  -- The comparison of networks comes first as a whole.
  exact Ordering.then_assoc _ _ _

section Sorted

variable {α κ : Type} [Ord κ] [TransOrd κ]

theorem eq_append_of_sorted (key : α → κ) {xs : List α}
    (h : xs.Pairwise fun a b => (compare (key a) (key b)).isLE = true) (k : κ) :
    xs = (xs.filter fun x => compare (key x) k = .lt)++
      ((xs.filter fun x => compare (key x) k = .eq)++
        xs.filter fun x => compare (key x) k = .gt) := by
  induction xs with
  | nil => rfl
  | cons x xs ih =>
    obtain ⟨hx,hxs⟩ := List.pairwise_cons.mp h
    have ih := ih hxs
    have hlt (hc : compare (key x) k ≠ .lt) :
        (xs.filter fun x => compare (key x) k = .lt) = [] := by
      refine List.filter_eq_nil_iff.mpr fun y hy hy' => hc ?_
      exact TransCmp.lt_of_isLE_of_lt (hx y hy) (of_decide_eq_true hy')
    cases hc : compare (key x) k with
    | lt => simpa [hc] using ih
    | eq =>
      rw [hlt (by simp [hc])] at ih
      simpa [hc,hlt] using ih
    | gt =>
      have heq : (xs.filter fun x => compare (key x) k = .eq) = [] := by
        refine List.filter_eq_nil_iff.mpr fun y hy hy' => ?_
        have hyk : (compare (key y) k).isLE = true := by simp [of_decide_eq_true hy']
        simpa [hc] using TransCmp.isLE_trans (hx y hy) hyk
      rw [hlt (by simp [hc]),heq] at ih
      simpa [hc,hlt,heq] using ih

end Sorted

namespace Rib

theorem sorted_networks (rib : Rib) : rib.entries.Pairwise fun a b =>
    (compare a.1.network b.1.network).isLE = true := by
  refine rib.ascending.imp fun {a b} hab => ?_
  have hab : (compare a.1.network b.1.network).then
    (compare a.1.attributes b.1.attributes) = .lt := hab
  rcases Ordering.then_eq_lt.mp hab with hlt | ⟨heq,-⟩
  · rw [hlt]
    rfl
  · rw [heq]
    rfl

/-- The entries for one network stand together, after those for smaller networks. -/
theorem entries_eq_append (rib : Rib) (n : Network) :
    rib.entries = (rib.entries.filter fun e => compare e.1.network n = .lt)++
      ((rib.entries.filter fun e => e.1.network = n)++
        rib.entries.filter fun e => compare e.1.network n = .gt) := by
  have h := eq_append_of_sorted (fun e : Route × Address => e.1.network) rib.sorted_networks n
  simpa only [LawfulEqOrd.compare_eq_iff_eq] using h

end Rib

/-- Routes are compared as their keys are, field by field: the base of the network as a number, the
length of the mask (masks of greater length are greater numbers), the path from the left, the local
preference, whether the neighbor originated the route, and the origin. No two routes have one place
in this order. A table lists the routes in it, so those to one network are neighbors in the list,
and networks come in their order, by base and length. -/
theorem Route.compare_lexicographic :
    (∀ a b : Route, compare a b = cmp a.sortKey b.sortKey) ∧
    (∀ a b : Route, compare a b = .eq ↔ a = b) ∧
    (∀ a b : Route, compare b a = (compare a b).swap) ∧
    (∀ (a b c : Route) (o : Ordering), compare a b = o → compare b c = o → compare a c = o) ∧
    (∀ m m' : Mask, compare m m' = cmp m.address.bits.toNat m'.address.bits.toNat) ∧
    (∀ n n' : Network, compare n n' = cmp n.sortKey n'.sortKey) ∧
    ∀ rib : Rib,
      (rib.entries.Pairwise fun a b => (compare a.1.network b.1.network).isLE = true) ∧
      ∀ n, rib.entries = (rib.entries.filter fun e => compare e.1.network n = .lt)++
        ((rib.entries.filter fun e => e.1.network = n)++
          rib.entries.filter fun e => compare e.1.network n = .gt) := by
  refine ⟨orderedBy_sortKey,fun _ _ => LawfulEqOrd.compare_eq_iff_eq,
    fun _ _ => OrientedCmp.eq_swap,fun a b c o hab hbc => ?_,orderedBy_mask_address,
    Network.orderedBy_sortKey,fun rib => ⟨rib.sorted_networks,rib.entries_eq_append⟩⟩
  cases o with
  | lt => exact TransCmp.lt_trans hab hbc
  | eq => exact TransCmp.eq_trans hab hbc
  | gt => exact TransCmp.gt_trans hab hbc

end PathVector
