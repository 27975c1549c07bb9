/-! Finite maps kept as lists of entries in strictly ascending key order. `Table.get?` is the view:
each operation says what it does to it, and two tables that agree on it are equal. -/
namespace PathVector

open Std

/-- Entries whose keys ascend strictly. -/
structure Table (κ ν : Type) [Ord κ] where
  entries : List (κ × ν)
  ascending : entries.Pairwise fun a b => compare a.1 b.1 = .lt
deriving DecidableEq

namespace Table

variable {κ ν : Type} [Ord κ]

def empty : Table κ ν := ⟨[], .nil⟩

instance : Inhabited (Table κ ν) := ⟨empty⟩

instance : EmptyCollection (Table κ ν) := ⟨empty⟩

def get? (t : Table κ ν) (k : κ) : Option ν :=
  (t.entries.find? fun e => compare e.1 k == .eq).map (·.2)

def contains (t : Table κ ν) (k : κ) : Bool := (t.get? k).isSome

def size (t : Table κ ν) : Nat := t.entries.length

def isEmpty (t : Table κ ν) : Bool := t.entries.isEmpty

def keys (t : Table κ ν) : List κ := t.entries.map (·.1)

/-- Keep the entries that satisfy `p`. -/
def filter (t : Table κ ν) (p : κ → ν → Bool) : Table κ ν :=
  ⟨t.entries.filter fun e => p e.1 e.2, t.ascending.filter _⟩

def erase (t : Table κ ν) (k : κ) : Table κ ν := t.filter fun k' _ => compare k' k != .eq

/-- Put `v` under `k` in a list of entries, in place of what stood there. -/
def insertEntry (k : κ) (v : ν) : List (κ × ν) → List (κ × ν)
  | [] => [(k,v)]
  | e::es =>
    match compare k e.1 with
    | .lt => (k,v)::e::es
    | .eq => (k,v)::es
    | .gt => e::insertEntry k v es

theorem mem_insertEntry {k : κ} {v : ν} {es : List (κ × ν)} {e : κ × ν}
    (h : e ∈ insertEntry k v es) : e = (k,v) ∨ e ∈ es := by
  induction es with
  | nil => simpa [insertEntry] using h
  | cons a as ih =>
    unfold insertEntry at h
    split at h
    · simpa using h
    · rcases List.mem_cons.mp h with h | h
      · exact .inl h
      · exact .inr (List.mem_cons_of_mem _ h)
    · rcases List.mem_cons.mp h with h | h
      · exact .inr (h ▸ List.mem_cons_self)
      · exact (ih h).imp id (List.mem_cons_of_mem _)

theorem insertEntry_ascending [TransOrd κ] [LawfulEqOrd κ] (k : κ) (v : ν) {es : List (κ × ν)}
    (h : es.Pairwise fun a b => compare a.1 b.1 = .lt) :
    (insertEntry k v es).Pairwise fun a b => compare a.1 b.1 = .lt := by
  induction es with
  | nil => simp [insertEntry]
  | cons a as ih =>
    rw [List.pairwise_cons] at h
    unfold insertEntry
    split
    · rename_i hk
      refine List.pairwise_cons.mpr ⟨fun e he => ?_,List.pairwise_cons.mpr h⟩
      rcases List.mem_cons.mp he with rfl | he
      · exact hk
      · exact TransCmp.lt_trans hk (h.1 e he)
    · rename_i hk
      rw [LawfulEqOrd.eq_of_compare hk]
      exact List.pairwise_cons.mpr h
    · rename_i hk
      refine List.pairwise_cons.mpr ⟨fun e he => ?_,ih h.2⟩
      rcases mem_insertEntry he with rfl | he
      · exact OrientedCmp.lt_of_gt hk
      · exact h.1 e he

def insert [TransOrd κ] [LawfulEqOrd κ] (t : Table κ ν) (k : κ) (v : ν) : Table κ ν :=
  ⟨insertEntry k v t.entries,insertEntry_ascending k v t.ascending⟩

/-- The table of a list of entries, a later entry replacing an earlier one with its key. -/
def ofList [TransOrd κ] [LawfulEqOrd κ] (es : List (κ × ν)) : Table κ ν :=
  es.foldl (fun t e => t.insert e.1 e.2) empty

/-- The distinct members of a list in ascending order. -/
def distinct [TransOrd κ] [LawfulEqOrd κ] (xs : List κ) : List κ :=
  (ofList (xs.map fun x => (x,()))).keys

@[simp] theorem get?_empty (k : κ) : (empty : Table κ ν).get? k = none := rfl

theorem compare_beq_eq [LawfulEqOrd κ] [DecidableEq κ] (a b : κ) :
    (compare a b == .eq) = decide (a = b) := by
  by_cases h : a = b <;> simp [h]

section Strict

variable {α : Type} {lt : α → α → Prop} (asymm : ∀ {a b}, lt a b → ¬ lt b a)

include asymm

theorem nodup_of_pairwise {xs : List α} (h : xs.Pairwise lt) : xs.Nodup := by
  refine List.nodup_iff_pairwise_ne.mpr (h.imp fun {a b} hab he => ?_)
  subst he
  exact asymm hab hab

/-- A list in strict order is told by its members. -/
theorem eq_of_mem_iff {xs ys : List α} (hx : xs.Pairwise lt) (hy : ys.Pairwise lt)
    (h : ∀ x, x ∈ xs ↔ x ∈ ys) : xs = ys := by
  have hp : xs.Perm ys :=
    (List.perm_ext_iff_of_nodup (nodup_of_pairwise asymm hx) (nodup_of_pairwise asymm hy)).mpr h
  exact hp.eq_of_pairwise (fun _ _ _ _ hab hba => absurd hba (asymm hab)) hx hy

end Strict

theorem lt_asymm [TransOrd κ] {a b : κ} (h : compare a b = .lt) : ¬ compare b a = .lt := by
  intro hba
  have haa : compare a a = .lt := TransCmp.lt_trans h hba
  simp [ReflCmp.compare_self] at haa

/-- A key is found exactly with the value that its entry holds. -/
theorem get?_eq_some_iff [TransOrd κ] [LawfulEqOrd κ] (t : Table κ ν) (k : κ) (v : ν) :
    t.get? k = some v ↔ (k,v) ∈ t.entries := by
  obtain ⟨es,h⟩ := t
  induction es with
  | nil => simp [get?]
  | cons a as ih =>
    have ih := ih h.of_cons
    rw [List.pairwise_cons] at h
    simp only [get?] at ih ⊢
    by_cases ha : compare a.1 k = .eq
    · have hk := LawfulEqOrd.eq_of_compare ha
      subst hk
      have hn : (a.1,v) ∉ as := fun hm => by simpa using h.1 _ hm
      simp [hn,Prod.ext_iff,eq_comm]
    · have hk : ¬ k = a.1 := fun hk => ha (by simp [hk])
      simp only [List.find?_cons,beq_eq_false_iff_ne.mpr ha,ih]
      simp [Prod.ext_iff,hk]

theorem ext_get? [TransOrd κ] [LawfulEqOrd κ] {s t : Table κ ν}
    (h : ∀ k, s.get? k = t.get? k) : s = t := by
  have hmem : ∀ e, e ∈ s.entries ↔ e ∈ t.entries := fun e => by
    rw [← get?_eq_some_iff,← get?_eq_some_iff,h]
  have he : s.entries = t.entries :=
    eq_of_mem_iff lt_asymm s.ascending t.ascending hmem
  cases s; cases t
  simp_all

theorem find?_insertEntry [TransOrd κ] [LawfulEqOrd κ] [DecidableEq κ] (k k' : κ) (v : ν)
    (es : List (κ × ν)) :
    ((insertEntry k v es).find? fun e => compare e.1 k' == .eq).map (·.2) =
      if k = k' then some v else (es.find? fun e => compare e.1 k' == .eq).map (·.2) := by
  induction es with
  | nil => by_cases hk : k = k' <;> simp [insertEntry,compare_beq_eq,hk]
  | cons a as ih =>
    unfold insertEntry
    split
    · by_cases hk : k = k' <;> simp [compare_beq_eq,hk]
    · rename_i hk
      have hk := LawfulEqOrd.eq_of_compare hk
      subst hk
      by_cases hk : a.1 = k' <;> simp [compare_beq_eq,hk]
    · rename_i hk
      by_cases ha : a.1 = k'
      · have hne : k ≠ k' := by
          rintro rfl
          simp [ha] at hk
        simp [compare_beq_eq,ha,hne]
      · simp only [List.find?_cons,compare_beq_eq,ha] at ih ⊢
        exact ih

theorem get?_insert [TransOrd κ] [LawfulEqOrd κ] [DecidableEq κ] (t : Table κ ν) (k k' : κ)
    (v : ν) :
    (t.insert k v).get? k' = if k = k' then some v else t.get? k' :=
  find?_insertEntry k k' v t.entries

theorem get?_filter [TransOrd κ] [LawfulEqOrd κ] (t : Table κ ν) (p : κ → ν → Bool) (k : κ) :
    (t.filter p).get? k = (t.get? k).filter (p k) := by
  apply Option.ext
  intro v
  rw [get?_eq_some_iff,Option.filter_eq_some_iff,get?_eq_some_iff]
  simp [filter]

theorem get?_erase [TransOrd κ] [LawfulEqOrd κ] [DecidableEq κ] (t : Table κ ν) (k k' : κ) :
    (t.erase k).get? k' = if k = k' then none else t.get? k' := by
  rw [erase,get?_filter]
  by_cases h : k = k'
  · cases t.get? k' <;> simp [h]
  · have h' : ¬ k' = k := fun e => h e.symm
    cases t.get? k' <;> simp [h,h']

end Table
end PathVector
