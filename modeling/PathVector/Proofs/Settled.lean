import PathVector.Proofs.Worklist

/-! Where the worklist stops: at routes of which no two can be merged. Every route that is counted as
unchanged has been compared with all others, so when all are counted, all pairs have been compared.
The worklist is one of many ways to get there, since pairs can be merged in any order. -/
namespace PathVector
namespace Route

/-- No two of the routes can be merged. -/
def Settled (rs : List Route) : Prop := ∀ a ∈ rs, ∀ b ∈ rs, ¬ a.Mergeable b

theorem not_mergeable_self (a : Route) : ¬ a.Mergeable a := fun h => h.2.2.1 rfl

/-- Mergeable routes have a merger, so a head never lacks one with what it has found. -/
theorem merge?_ne_none_of_find? {head r : Route} {pending : List Route}
    (h : pending.find? (head.Mergeable ·) = some r) : head.merge? r ≠ none :=
  Option.isSome_iff_ne_none.mp (merge?_isSome (mergeable_of_find? h))

theorem not_mergeable_absorb (head : Route) (pending : List Route) :
    ∀ r ∈ (head.absorb pending).2, ¬ (head.absorb pending).1.Mergeable r := by
  fun_induction absorb head pending with
  | case1 head pending h => simpa using h
  | case2 head pending r hr hp => exact absurd hp (merge?_ne_none_of_find? hr)
  | case3 head pending r hr parent hp ih => exact ih

theorem absorb_eq_self {head : Route} {pending : List Route}
    (h : ¬ (head.absorb pending).2.length < pending.length) :
    head.absorb pending = (head,pending) := by
  fun_induction absorb head pending with
  | case1 => rfl
  | case2 => rfl
  | case3 head pending r hr parent hp ih =>
    have hle := length_absorb_le parent (pending.erase r)
    have := List.length_erase_add_one (List.mem_of_find?_eq_some hr)
    omega

end Route

namespace Worklist

open Route

/-- The routes counted as unchanged stand at the back and can be merged with none. -/
def Checked (w : Worklist) : Prop :=
  ∃ before checked, w.pending = before++checked ∧ checked.length = w.unchanged ∧
    ∀ a ∈ checked, ∀ b ∈ w.pending, ¬ a.Mergeable b

theorem checked_zero (rs : List Route) : Checked ⟨rs,0⟩ :=
  ⟨rs,[],(List.append_nil rs).symm,rfl,fun _ ha => absurd ha List.not_mem_nil⟩

theorem Checked.turn {w : Worklist} (h : w.Checked) (hw : w.unchanged < w.pending.length) :
    w.turn.Checked := by
  obtain ⟨pending,unchanged⟩ := w
  obtain ⟨before,checked,rfl,rfl,hc⟩ := h
  cases before with
  | nil => simp at hw
  | cons head before =>
    by_cases hl : (head.absorb (before++checked)).2.length < (before++checked).length
    · simp only [Worklist.turn,List.cons_append,if_pos hl]
      exact checked_zero _
    · have he := absorb_eq_self hl
      have hh := not_mergeable_absorb head (before++checked)
      simp only [Worklist.turn,List.cons_append,if_neg hl]
      simp only [he] at hh ⊢
      refine ⟨before,checked++[head],List.append_assoc _ _ _,List.length_append,?_⟩
      -- The head has only changed places, so all pending routes are those of before.
      simp only [List.cons_append,List.mem_cons,List.mem_append,List.not_mem_nil,or_false] at hc hh ⊢
      rintro a (ha | rfl) b hb
      · exact hc a ha b (by tauto)
      · rcases hb with hb | rfl
        · exact hh b hb
        · exact not_mergeable_self b

theorem Checked.settled {w : Worklist} (h : w.Checked) (hw : ¬ w.unchanged < w.pending.length) :
    Settled w.pending := by
  obtain ⟨before,checked,hp,hl,hc⟩ := h
  rw [hp,List.length_append,← hl] at hw
  have hb : before = [] := List.length_eq_zero_iff.mp (by omega)
  subst hb
  rw [List.nil_append] at hp
  exact fun a ha => hc a (hp ▸ ha)

theorem Checked.run {w : Worklist} (h : w.Checked) : Settled w.run := by
  fun_induction Worklist.run w with
  | case1 w hw ih => exact ih (h.turn hw)
  | case2 w hw => exact h.settled hw

end Worklist

namespace Route

/-- The routes `ts` come from `rs` by merging two at a time, whichever they are. -/
inductive Folds (rs : List Route) : List Route → Prop where
  | refl : Folds rs rs
  | perm {ss ts} : Folds rs ss → ss.Perm ts → Folds rs ts
  | merge {a b p ss} :
      Folds rs (a::b::ss) → a.Mergeable b → a.merge? b = some p → Folds rs (p::ss)

theorem preserved_folds (rs : List Route) : Preserved (Folds rs) where
  perm hp h := h.perm hp
  merge hm hp h := h.merge hm hp

theorem Preserved.folds {P : List Route → Prop} (hP : Preserved P) {rs ts : List Route}
    (h : Folds rs ts) (hr : P rs) : P ts := by
  induction h with
  | refl => exact hr
  | perm _ hp ih => exact hP.perm hp ih
  | merge _ hm hp ih => exact hP.merge hm hp ih

theorem sort_perm (rs : List Route) : (sort rs).Perm rs := List.mergeSort_perm rs _

/-- The worklist is one way to merge all that can be merged. -/
theorem run_folds (rs : List Route) : Folds rs (Worklist.run ⟨sort rs,0⟩) :=
  (preserved_folds rs).run _ (.perm .refl (sort_perm rs).symm)

theorem run_settled (rs : List Route) : Settled (Worklist.run ⟨sort rs,0⟩) :=
  (Worklist.checked_zero _).run

end Route
end PathVector
