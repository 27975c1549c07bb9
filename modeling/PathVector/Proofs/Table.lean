import Mathlib.Tactic
import PathVector.Table

/-! More laws of tables: membership of keys, several insertions or removals in a row, tables made
from lists, and lists sorted by a key. -/
namespace PathVector
namespace Table

open Std

variable {κ ν : Type} [Ord κ]

theorem contains_iff {t : Table κ ν} {k : κ} : t.contains k = true ↔ ∃ v, t.get? k = some v :=
  Option.isSome_iff_exists

variable [TransOrd κ] [LawfulEqOrd κ]

theorem mem_keys_iff {t : Table κ ν} {k : κ} : k ∈ t.keys ↔ t.contains k = true := by
  simp only [keys,List.mem_map,contains_iff,get?_eq_some_iff,Prod.exists,exists_and_right,
    exists_eq_right]

variable [DecidableEq κ]

theorem contains_insert (t : Table κ ν) (k k' : κ) (v : ν) :
    (t.insert k v).contains k' = true ↔ k' = k ∨ t.contains k' = true := by
  by_cases h : k = k'
  · simp [contains,get?_insert,h]
  · simp [contains,get?_insert,h,Ne.symm h]

theorem mem_entries_insert {t : Table κ ν} {k : κ} (h : t.get? k = none) {v : ν} {e : κ × ν} :
    e ∈ (t.insert k v).entries ↔ e = (k,v) ∨ e ∈ t.entries := by
  rw [← get?_eq_some_iff,get?_insert]
  by_cases hk : k = e.1
  · have he : e ∉ t.entries := fun he => by
      rw [← get?_eq_some_iff,← hk,h] at he
      cases he
    simp [hk,he,Prod.ext_iff,eq_comm]
  · have hne : e ≠ (k,v) := fun he => hk (he ▸ rfl)
    simp [hk,hne,get?_eq_some_iff]

omit [DecidableEq κ] in
theorem ext_contains {s t : Table κ Unit}
    (h : ∀ k, s.contains k = true ↔ t.contains k = true) : s = t := by
  refine ext_get? fun k => ?_
  have hk := Bool.eq_iff_iff.mpr (h k)
  simp only [contains] at hk
  cases hs : s.get? k <;> cases ht : t.get? k <;> simp [hs,ht] at hk ⊢

theorem get?_foldl_erase (es : List (κ × ν)) (t : Table κ ν) (k : κ) :
    (es.foldl (fun t e => t.erase e.1) t).get? k =
      if k ∈ es.map (·.1) then none else t.get? k := by
  induction es generalizing t with
  | nil => simp
  | cons e es ih =>
    rw [List.foldl_cons,ih,get?_erase]
    by_cases he : e.1 = k
    · simp [he]
    · have hk : k ≠ e.1 := Ne.symm he
      simp only [he,if_false,List.map_cons,List.mem_cons,hk,false_or]

theorem contains_foldl_insert (v : ν) (ks : List κ) (t : Table κ ν) (k : κ) :
    (ks.foldl (fun t k => t.insert k v) t).contains k = true ↔ k ∈ ks ∨ t.contains k = true := by
  induction ks generalizing t with
  | nil => simp
  | cons a ks ih =>
    rw [List.foldl_cons,ih,contains_insert,List.mem_cons]
    tauto

theorem mem_distinct {xs : List κ} {x : κ} : x ∈ distinct xs ↔ x ∈ xs := by
  rw [distinct,mem_keys_iff,ofList,List.foldl_map,contains_foldl_insert]
  simp [contains]

theorem get?_ofList (es : List (κ × ν)) (k : κ) :
    (ofList es).get? k = (es.reverse.find? fun e => e.1 = k).map (·.2) := by
  induction es using List.reverseRecOn with
  | nil => rfl
  | append_singleton es e ih =>
    rw [ofList,List.foldl_append,List.foldl_cons,List.foldl_nil,get?_insert,← ofList,ih]
    by_cases h : e.1 = k <;> simp [h]

theorem mem_of_mem_ofList {es : List (κ × ν)} {e : κ × ν} (h : e ∈ (ofList es).entries) :
    e ∈ es := by
  rw [← get?_eq_some_iff,get?_ofList,Option.map_eq_some_iff] at h
  obtain ⟨a,ha,hv⟩ := h
  have hk : a.1 = e.1 := by simpa using List.find?_some ha
  have hm := List.mem_reverse.mp (List.mem_of_find?_eq_some ha)
  exact (Prod.ext hk hv : a = e) ▸ hm

theorem mem_ofList_iff {es : List (κ × ν)} (hn : (es.map (·.1)).Nodup) {e : κ × ν} :
    e ∈ (ofList es).entries ↔ e ∈ es := by
  refine ⟨mem_of_mem_ofList,fun h => ?_⟩
  have hk : ∃ a ∈ es.reverse, decide (a.1 = e.1) = true :=
    ⟨e,List.mem_reverse.mpr h,by simp⟩
  obtain ⟨a,ha⟩ := Option.isSome_iff_exists.mp (List.find?_isSome.mpr hk)
  have hm := List.mem_reverse.mp (List.mem_of_find?_eq_some ha)
  have hae : a = e := List.inj_on_of_nodup_map hn hm h (by simpa using List.find?_some ha)
  rw [← get?_eq_some_iff,get?_ofList,ha,hae]
  rfl

omit [LawfulEqOrd κ] [DecidableEq κ] in
theorem sorted_mergeSort {α : Type} (key : α → κ) (xs : List α) :
    (xs.mergeSort fun a b => (compare (key a) (key b)).isLE).Pairwise
      fun a b => (compare (key a) (key b)).isLE = true := by
  refine List.pairwise_mergeSort (fun a b c => TransCmp.isLE_trans) (fun a b => ?_) xs
  have hs : compare (key b) (key a) = (compare (key a) (key b)).swap := OrientedCmp.eq_swap
  rw [hs]
  cases compare (key a) (key b) <;> rfl

omit [LawfulEqOrd κ] [DecidableEq κ] in
theorem nodup_keys (t : Table κ ν) : (t.entries.map (·.1)).Nodup := by
  have ha : (t.entries.map (·.1)).Pairwise (compare · · = .lt) :=
    List.pairwise_map.mpr t.ascending
  exact nodup_of_pairwise lt_asymm ha

omit [LawfulEqOrd κ] [DecidableEq κ] in
/-- Only one list with given members ascends strictly. -/
theorem eq_of_ascending {xs ys : List κ} (hx : xs.Pairwise (compare · · = .lt))
    (hy : ys.Pairwise (compare · · = .lt)) (h : ∀ x, x ∈ xs ↔ x ∈ ys) : xs = ys :=
  eq_of_mem_iff lt_asymm hx hy h

theorem ofList_perm {es : List (κ × ν)} (hn : (es.map (·.1)).Nodup) :
    (ofList es).entries.Perm es :=
  (List.perm_ext_iff_of_nodup (nodup_keys _).of_map hn.of_map).mpr fun _ => mem_ofList_iff hn

theorem ofList_entries (t : Table κ ν) : ofList t.entries = t := by
  apply ext_get?
  intro k
  apply Option.ext
  intro v
  rw [get?_eq_some_iff,get?_eq_some_iff,mem_ofList_iff (nodup_keys t)]

omit [DecidableEq κ] in
theorem ascending_distinct (xs : List κ) : (distinct xs).Pairwise (compare · · = .lt) :=
  List.pairwise_map.mpr (ofList (xs.map fun x => (x,()))).ascending

theorem distinct_congr {xs ys : List κ} (h : ∀ x, x ∈ xs ↔ x ∈ ys) :
    distinct xs = distinct ys :=
  eq_of_ascending (ascending_distinct xs) (ascending_distinct ys) fun x => by
    rw [mem_distinct,mem_distinct,h]

theorem distinct_eq_self {xs : List κ} (h : xs.Pairwise (compare · · = .lt)) : distinct xs = xs :=
  eq_of_ascending (ascending_distinct xs) h fun _ => mem_distinct

theorem length_distinct_le (xs : List κ) : (distinct xs).length ≤ xs.length := by
  have hn : (distinct xs).Nodup := nodup_of_pairwise lt_asymm (ascending_distinct xs)
  exact (hn.subperm fun _ hx => mem_distinct.mp hx).length_le

end Table
end PathVector
