import PathVector.BestPath
import PathVector.Proofs.Table

/-! Route selection as an order. The rules that choose a route are applied one after another, each to
what the ones before have left; together they are one comparison, field by field, and the selected
entry is the first of the matching ones in it. -/
namespace PathVector

open Std

section Least

variable {α κ : Type}

/-- The members of a list that a comparison sets behind no other member. -/
def least (c : α → α → Ordering) (xs : List α) : List α :=
  xs.filter fun x => xs.all fun y => (c x y).isLE

/-- Greater keys first. -/
def descending [Ord κ] (key : α → κ) (a b : α) : Ordering := compare (key b) (key a)

instance [Ord κ] [TransOrd κ] (key : α → κ) : TransCmp (descending key) :=
  inferInstanceAs (TransCmp fun a b => compareOn key b a)

theorem minimal_eq_least [Ord κ] (key : α → κ) (xs : List α) :
    minimal key xs = least (compareOn key) xs := rfl

theorem maximal_eq_least [Ord κ] (key : α → κ) (xs : List α) :
    maximal key xs = least (descending key) xs := rfl

variable {c : α → α → Ordering} {xs : List α}

theorem mem_least {x : α} : x ∈ least c xs ↔ x ∈ xs ∧ ∀ y ∈ xs, (c x y).isLE = true := by
  simp [least]

variable [TransCmp c]

theorem exists_mem_least (h : xs ≠ []) : ∃ x, x ∈ least c xs := by
  induction xs with
  | nil => exact absurd rfl h
  | cons a as ih =>
    by_cases has : as = []
    · subst has
      exact ⟨a,mem_least.mpr ⟨List.mem_cons_self,by simp [ReflCmp.compare_self]⟩⟩
    · obtain ⟨x,hx⟩ := ih has
      obtain ⟨hx,hl⟩ := mem_least.mp hx
      by_cases hax : (c x a).isLE = true
      · refine ⟨x,mem_least.mpr ⟨List.mem_cons_of_mem _ hx,fun y hy => ?_⟩⟩
        rcases List.mem_cons.mp hy with rfl | hy
        · exact hax
        · exact hl y hy
      · have hax : (c a x).isLE = true := by
          have hs : c a x = (c x a).swap := OrientedCmp.eq_swap
          rw [hs]
          cases hc : c x a <;> simp_all
        refine ⟨a,mem_least.mpr ⟨List.mem_cons_self,fun y hy => ?_⟩⟩
        rcases List.mem_cons.mp hy with rfl | hy
        · exact ReflCmp.isLE_rfl
        · exact TransCmp.isLE_trans hax (hl y hy)

theorem least_of_length_le_one (h : xs.length ≤ 1) : least c xs = xs := by
  match xs,h with
  | [],_ => rfl
  | [x],_ => simp [least,ReflCmp.compare_self]

theorem compare_eq_of_mem_least {x y : α} (hx : x ∈ least c xs) (hy : y ∈ least c xs) :
    c x y = .eq :=
  OrientedCmp.isLE_antisymm ((mem_least.mp hx).2 y (mem_least.mp hy).1)
    ((mem_least.mp hy).2 x (mem_least.mp hx).1)

omit [TransCmp c] in
theorem isLE_compareLex {d : α → α → Ordering} {x y : α} :
    (compareLex c d x y).isLE = true ↔
      (c x y).isLE = true ∧ (c x y = .eq → (d x y).isLE = true) := by
  unfold compareLex
  cases c x y <;> simp

/-- A second rule, applied to what the first has left, refines it. -/
theorem least_least (d : α → α → Ordering) :
    least d (least c xs) = least (compareLex c d) xs := by
  conv_lhs => rw [least]
  nth_rewrite 2 [least]
  rw [least,List.filter_filter]
  refine List.filter_congr fun x hx => Bool.eq_iff_iff.mpr ?_
  simp only [Bool.and_eq_true,List.all_eq_true,isLE_compareLex]
  constructor
  · rintro ⟨hd,hc⟩ y hy
    refine ⟨hc y hy,fun he => hd y (mem_least.mpr ⟨hy,fun z hz => ?_⟩)⟩
    have hyx : (c y x).isLE = true := Ordering.isLE_of_eq_eq (OrientedCmp.eq_symm he)
    exact TransCmp.isLE_trans hyx (hc z hz)
  · intro h
    have hx : x ∈ least c xs := mem_least.mpr ⟨hx,fun y hy => (h y hy).1⟩
    exact ⟨fun y hy => (h y (mem_least.mp hy).1).2 (compare_eq_of_mem_least hx hy),
      fun y hy => (h y hy).1⟩

end Least

namespace Rib

/-- The rules of selection in the order in which they count: longer mask, greater local preference,
originated by the neighbor itself, shorter path, better origin, lower neighbor, smaller route. What
is preferred comes first. -/
def preference (a b : Route × Address) : Ordering :=
  (compare b.1.mask.length a.1.mask.length).then <|
  (compare b.1.localPref a.1.localPref).then <|
  (compare b.1.selfOriginated a.1.selfOriginated).then <|
  (compare a.1.asPath.length b.1.asPath.length).then <|
  (compare b.1.origin a.1.origin).then <|
  (compare a.2 b.2).then <|
  compare a.1 b.1

/-- An entry that contains `d` and is preferred to all others that do. -/
def IsBest (rib : Rib) (d : Address) (e : Route × Address) : Prop :=
  e ∈ rib.entries ∧ e.1.network.Contains d ∧
    ∀ x ∈ rib.entries, x.1.network.Contains d → x ≠ e → preference e x = .lt

/-- The rules up to the neighbor, as `bestPath?` applies them. -/
def rules : Route × Address → Route × Address → Ordering :=
  compareLex (compareLex (compareLex (compareLex (compareLex (descending (·.1.mask.length))
    (descending (·.1.localPref))) (descending (·.1.selfOriginated)))
    (compareOn (·.1.asPath.length))) (descending (·.1.origin))) (compareOn (·.2))

instance : TransCmp rules := by unfold rules; infer_instance

theorem preference_eq (a b : Route × Address) :
    preference a b = (rules a b).then (compare a.1 b.1) := by
  simp only [rules,compareLex,descending,compareOn,Ordering.then_assoc]
  rfl

instance : TransCmp preference := by
  have h : preference = compareLex rules (compareOn (·.1)) :=
    funext fun a => funext fun b => preference_eq a b
  rw [h]
  infer_instance

theorem foremost?_eq_head? (es : List (Route × Address)) :
    foremost? es = (least rules es).head? := by
  simp only [foremost?,minimal_eq_least,maximal_eq_least,least_least]
  rfl

/-- The rules take a single candidate, so it makes no difference that they are not asked. -/
theorem bestPath?_eq_foremost? (rib : Rib) (d : Address) :
    rib.bestPath? d = foremost? (rib.candidates d) := by
  simp only [bestPath?,ite_eq_right_iff]
  intro h
  rw [foremost?_eq_head?,least_of_length_le_one h]

theorem bestPath?_eq_head? (rib : Rib) (d : Address) :
    rib.bestPath? d = (least rules (rib.candidates d)).head? := by
  rw [bestPath?_eq_foremost?,foremost?_eq_head?]

theorem bestPath?_eq_none_iff {rib : Rib} {d : Address} :
    rib.bestPath? d = none ↔ ∀ e ∈ rib.entries, ¬ e.1.network.Contains d := by
  have hc : rib.candidates d = [] ↔ ∀ e ∈ rib.entries, ¬ e.1.network.Contains d := by
    simp [candidates]
  rw [bestPath?_eq_head?,List.head?_eq_none_iff,← hc]
  constructor
  · intro h
    by_contra hn
    obtain ⟨x,hx⟩ := exists_mem_least (c := rules) hn
    simp [h] at hx
  · intro h
    simp [h,least]

theorem isBest_of_bestPath? {rib : Rib} {d : Address} {e : Route × Address}
    (h : rib.bestPath? d = some e) : rib.IsBest d e := by
  rw [bestPath?_eq_head?] at h
  obtain ⟨es,hes⟩ := List.head?_eq_some_iff.mp h
  have ha : (least rules (rib.candidates d)).Pairwise fun a b => compare a.1 b.1 = .lt :=
    (rib.ascending.filter _).filter _
  have he : e ∈ least rules (rib.candidates d) := hes ▸ List.mem_cons_self
  rw [hes,List.pairwise_cons] at ha
  obtain ⟨hm,hl⟩ := mem_least.mp he
  obtain ⟨hm,hd⟩ := mem_candidates.mp hm
  refine ⟨hm,hd,fun x hx hxd hne => ?_⟩
  have hx : x ∈ rib.candidates d := mem_candidates.mpr ⟨hx,hxd⟩
  rw [preference_eq,Ordering.then_eq_lt]
  cases hr : rules e x with
  | lt => exact .inl rfl
  | gt => simpa [hr] using hl x hx
  | eq =>
    refine .inr ⟨rfl,ha.1 x ?_⟩
    -- `x` ties with the first entry, so it is among those that the rules leave.
    have hxe : (rules x e).isLE = true := Ordering.isLE_of_eq_eq (OrientedCmp.eq_symm hr)
    have hxl : x ∈ least rules (rib.candidates d) :=
      mem_least.mpr ⟨hx,fun y hy => TransCmp.isLE_trans hxe (hl y hy)⟩
    rw [hes] at hxl
    exact (List.mem_cons.mp hxl).resolve_left hne

theorem IsBest.unique {rib : Rib} {d : Address} {a b : Route × Address} (ha : rib.IsBest d a)
    (hb : rib.IsBest d b) : a = b := by
  by_contra hne
  have hab := ha.2.2 b hb.1 hb.2.1 (Ne.symm hne)
  rw [OrientedCmp.gt_of_lt (hb.2.2 a ha.1 ha.2.1 hne)] at hab
  cases hab

/-- The selected entry is the best one in the order of preference. -/
theorem bestPath?_eq_some_iff {rib : Rib} {d : Address} {e : Route × Address} :
    rib.bestPath? d = some e ↔ rib.IsBest d e := by
  refine ⟨isBest_of_bestPath?,fun h => ?_⟩
  cases hb : rib.bestPath? d with
  | none => exact absurd h.2.1 (bestPath?_eq_none_iff.mp hb e h.1)
  | some a => rw [(isBest_of_bestPath? hb).unique h]

/-- Selection finds nothing exactly if no network of the table contains `d`. Otherwise it finds the
one entry whose network does and that comes before every other such entry in the order of
preference. It is the choice of the rules, whether they are asked or there is but one candidate. -/
theorem bestPath?_optimal (rib : Rib) (d : Address) :
    (rib.bestPath? d = none ↔ ∀ e ∈ rib.entries, ¬ e.1.network.Contains d) ∧
    (∀ e, rib.bestPath? d = some e ↔ e ∈ rib.entries ∧ e.1.network.Contains d ∧
      ∀ x ∈ rib.entries, x.1.network.Contains d → x ≠ e → preference e x = .lt) ∧
    rib.bestPath? d = foremost? (rib.candidates d) :=
  ⟨bestPath?_eq_none_iff,fun _ => bestPath?_eq_some_iff,bestPath?_eq_foremost? rib d⟩

end Rib
end PathVector
