import PathVector.Proofs.Merge
import PathVector.Proofs.Table

/-! The worklist of aggregation. All it ever does to its routes is to reorder them and to put the
merger of two routes in their place. What these two steps preserve holds at the end, among it the
addresses that the routes lead to. -/
namespace PathVector

/-- What holds of a list of routes under any order, and still holds when two of them are merged. -/
structure Route.Preserved (P : List Route → Prop) : Prop where
  perm : ∀ {rs ss}, rs.Perm ss → P rs → P ss
  merge : ∀ {a b p rs}, a.Mergeable b → a.merge? b = some p → P (a::b::rs) → P (p::rs)

namespace Route.Preserved

variable {P : List Route → Prop} (hP : Route.Preserved P)

include hP

theorem absorb (head : Route) (pending : List Route) (h : P (head::pending)) :
    P ((head.absorb pending).1::(head.absorb pending).2) := by
  fun_induction Route.absorb head pending with
  | case1 => exact h
  | case2 => exact h
  | case3 head pending r hr parent hp ih =>
    have hm := mergeable_of_find? hr
    have hr := List.mem_of_find?_eq_some hr
    exact ih (hP.merge hm hp (hP.perm ((List.perm_cons_erase hr).cons head) h))

theorem turn (w : Worklist) (h : P w.pending) : P w.turn.pending := by
  obtain ⟨pending,unchanged⟩ := w
  cases pending with
  | nil => exact h
  | cons head rest => exact hP.perm (List.perm_append_singleton _ _).symm (hP.absorb head rest h)

theorem run (w : Worklist) (h : P w.pending) : P w.run := by
  fun_induction Worklist.run w with
  | case1 w hw ih => exact ih (hP.turn w h)
  | case2 w hw => exact h

end Route.Preserved

namespace Route

/-- Some route with the given attributes leads to `d`. -/
def Covers (rs : List Route) (attributes : Attributes) (d : Address) : Prop :=
  ∃ r ∈ rs, r.attributes = attributes ∧ r.network.Contains d

theorem covers_cons (r : Route) (rs : List Route) (attributes : Attributes) (d : Address) :
    Covers (r::rs) attributes d ↔
      (r.attributes = attributes ∧ r.network.Contains d) ∨ Covers rs attributes d := by
  simp [Covers]

theorem covers_congr {rs ss : List Route} (h : ∀ r, r ∈ rs ↔ r ∈ ss) (attributes : Attributes)
    (d : Address) : Covers rs attributes d ↔ Covers ss attributes d := by
  simp only [Covers,h]

theorem preserved_aligned : Preserved fun rs => ∀ r ∈ rs, r.network.Aligned where
  perm hp h r hr := h r (hp.mem_iff.mpr hr)
  merge {a b p rs} hm hp h r hr := by
    have ha := h a List.mem_cons_self
    have hb := h b (List.mem_cons_of_mem _ List.mem_cons_self)
    rcases List.mem_cons.mp hr with rfl | hr
    · exact hm.aligned ha hb hp
    · exact h r (List.mem_cons_of_mem _ (List.mem_cons_of_mem _ hr))

/-- Aligned routes that cover, with some attributes, just the addresses of `target`. -/
structure Faithful (target : Attributes → Address → Prop) (rs : List Route) : Prop where
  aligned : ∀ r ∈ rs, r.network.Aligned
  covers : ∀ attributes d, Covers rs attributes d ↔ target attributes d

theorem preserved_faithful (target : Attributes → Address → Prop) :
    Preserved (Faithful target) where
  perm hp h := ⟨preserved_aligned.perm hp h.aligned,
    fun attributes d => (covers_congr (fun _ => hp.symm.mem_iff) attributes d).trans
      (h.covers attributes d)⟩
  merge {a b p rs} hm hp h := by
    have ha := h.aligned a List.mem_cons_self
    have hb := h.aligned b (List.mem_cons_of_mem _ List.mem_cons_self)
    refine ⟨preserved_aligned.merge hm hp h.aligned,fun attributes d => ?_⟩
    have hpa := (hm.merges hp).attributes_left
    have hab : a.attributes = b.attributes := hm.2.2.2.1
    rw [← h.covers,covers_cons,covers_cons,covers_cons,hm.contains_iff ha hb hp,hpa,← hab]
    tauto

theorem mem_sort {r : Route} {rs : List Route} : r ∈ sort rs ↔ r ∈ rs := List.mem_mergeSort

@[simp] theorem aggregate_nil : aggregate [] = [] := by
  have hs : sort [] = [] := List.mergeSort_nil
  have hr : Worklist.run ⟨[],0⟩ = [] := by
    rw [Worklist.run]
    simp
  rw [aggregate,hs,hr]
  rfl

/-- Aggregation of aligned routes neither loses nor adds an address. -/
theorem covers_aggregate {rs : List Route} (h : ∀ r ∈ rs, r.network.Aligned)
    (attributes : Attributes) (d : Address) :
    Covers (aggregate rs) attributes d ↔ Covers rs attributes d := by
  have hs : Faithful (Covers rs) (sort rs) :=
    ⟨fun r hr => h r (mem_sort.mp hr),covers_congr fun _ => mem_sort⟩
  have hr := (preserved_faithful (Covers rs)).run ⟨sort rs,0⟩ hs
  rw [← hr.covers]
  exact covers_congr (fun _ => Table.mem_distinct) attributes d

end Route
end PathVector
