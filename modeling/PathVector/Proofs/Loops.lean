import Mathlib.Algebra.BigOperators.Intervals
import Mathlib.Data.Prod.Lex
import PathVector.Proofs.Account

/-! The loops of aggregation turn by turn. A turn of either loop asks for something: a route to take
from the worklist, a merger of two routes. It would leave the loop if that were not there, with the
work undone. It always is there, so both loops go on until their conditions end them, which a
measure for each turn bounds. -/
namespace PathVector

namespace Loop

/-- What a turn of a loop leads to: a further state, the end for which the condition of the loop
asks, or nowhere, because something is missing that the turn needs. -/
inductive Turn (σ : Type) where
  | next (s : σ)
  | done
  | stuck

/-- `k` turns lead from one state to another. -/
inductive Run {σ : Type} (turn : σ → Turn σ) : σ → Nat → σ → Prop where
  | refl (s : σ) : Run turn s 0 s
  | next {s t u : σ} {k : Nat} : turn s = .next t → Run turn t k u → Run turn s (k+1) u

namespace Run

variable {σ : Type} {turn : σ → Turn σ} {s t : σ} {k : Nat}

theorem preserves {P : σ → Prop} (hP : ∀ s t, turn s = .next t → P s → P t)
    (h : Run turn s k t) (hs : P s) : P t := by
  induction h with
  | refl => exact hs
  | next hst _ ih => exact ih (hP _ _ hst hs)

/-- There are no more turns than a measure allows that each turn makes smaller. -/
theorem add_le {measure : σ → Nat} (hm : ∀ s t, turn s = .next t → measure t < measure s)
    (h : Run turn s k t) : k+measure t ≤ measure s := by
  induction h with
  | refl => omega
  | next hst _ ih =>
    have := hm _ _ hst
    omega

end Run
end Loop

namespace Route

/-- A turn of a head that takes in routes. -/
def absorbTurn (s : Route × List Route) : Loop.Turn (Route × List Route) :=
  match s.2.find? (s.1.Mergeable ·) with
  | none => .done
  | some r =>
    match s.1.merge? r with
    | none => .stuck
    | some parent => .next (parent,s.2.erase r)

/-- Where a turn leads: a pending route is taken out, and the merger with it is the new head. -/
theorem absorbTurn_eq_next_iff {s t : Route × List Route} : absorbTurn s = .next t ↔
    ∃ r, s.2.find? (s.1.Mergeable ·) = some r ∧ s.1.merge? r = some t.1 ∧ t.2 = s.2.erase r := by
  unfold absorbTurn
  cases hf : s.2.find? (s.1.Mergeable ·) with
  | none => simp
  | some r =>
    cases hm : s.1.merge? r with
    | none => simp [hm]
    | some parent => simp [hm,Prod.ext_iff,eq_comm]

theorem length_of_absorbTurn {s t : Route × List Route} (h : absorbTurn s = .next t) :
    t.2.length+1 = s.2.length := by
  obtain ⟨r,hr,-,ht⟩ := absorbTurn_eq_next_iff.mp h
  rw [ht]
  exact List.length_erase_add_one (List.mem_of_find?_eq_some hr)

theorem absorbTurn_ne_stuck (s : Route × List Route) : absorbTurn s ≠ .stuck := by
  unfold absorbTurn
  cases hf : s.2.find? (s.1.Mergeable ·) with
  | none => simp
  | some r =>
    cases hm : s.1.merge? r with
    | none => exact absurd hm (merge?_ne_none_of_find? hf)
    | some parent => simp [hm]

theorem exists_run_absorb (head : Route) (pending : List Route) :
    ∃ k, Loop.Run absorbTurn (head,pending) k (head.absorb pending) ∧
      absorbTurn (head.absorb pending) = .done := by
  fun_induction absorb head pending with
  | case1 head pending h => exact ⟨0,.refl _,by simp [absorbTurn,h]⟩
  | case2 head pending r hr hp => exact absurd hp (merge?_ne_none_of_find? hr)
  | case3 head pending r hr parent hp ih =>
    obtain ⟨k,hk,hd⟩ := ih
    exact ⟨k+1,.next (absorbTurn_eq_next_iff.mpr ⟨r,hr,hp,rfl⟩) hk,hd⟩

theorem length_of_run {s t : Route × List Route} {k : Nat} (h : Loop.Run absorbTurn s k t) :
    t.2.length+k = s.2.length := by
  induction h with
  | refl => rfl
  | next hst _ ih =>
    have := length_of_absorbTurn hst
    omega

end Route

namespace Worklist

open Route

/-- A turn of the worklist. -/
def nextTurn (w : Worklist) : Loop.Turn Worklist :=
  if w.unchanged < w.pending.length then
    match w.pending with
    | [] => .stuck
    | _::_ => .next w.turn
  else .done

theorem nextTurn_of_lt {w : Worklist} (h : w.unchanged < w.pending.length) :
    w.nextTurn = .next w.turn := by
  obtain ⟨pending,unchanged⟩ := w
  cases pending with
  | nil => simp at h
  | cons head rest => exact if_pos h

theorem nextTurn_of_le {w : Worklist} (h : ¬ w.unchanged < w.pending.length) :
    w.nextTurn = .done := if_neg h

theorem nextTurn_ne_stuck (w : Worklist) : w.nextTurn ≠ .stuck := by
  by_cases h : w.unchanged < w.pending.length
  · simp [nextTurn_of_lt h]
  · simp [nextTurn_of_le h]

theorem nextTurn_eq_next_iff {w v : Worklist} :
    w.nextTurn = .next v ↔ w.unchanged < w.pending.length ∧ v = w.turn := by
  by_cases h : w.unchanged < w.pending.length
  · simp [nextTurn_of_lt h,h,eq_comm]
  · simp [nextTurn_of_le h,h]

theorem exists_run (w : Worklist) :
    ∃ k v, Loop.Run nextTurn w k v ∧ v.nextTurn = .done ∧ w.run = v.pending := by
  fun_induction run w with
  | case1 w hw ih =>
    obtain ⟨k,v,hk,hd,hv⟩ := ih
    exact ⟨k+1,v,.next (nextTurn_of_lt hw) hk,hd,hv⟩
  | case2 w hw => exact ⟨0,w,.refl w,nextTurn_of_le hw,rfl⟩

/-- The head that is taken goes back when it has taken in what it can: as it was, or as the merger
with the routes that are gone. -/
theorem exists_head {w : Worklist} (h : w.unchanged < w.pending.length) :
    ∃ head rest k head' rest', w.pending = head::rest ∧
      Loop.Run absorbTurn (head,rest) k (head',rest') ∧ absorbTurn (head',rest') = .done ∧
      rest'.length+k = rest.length ∧
      w.turn = ⟨rest'++[head'],if k = 0 then w.unchanged+1 else 0⟩ := by
  obtain ⟨pending,unchanged⟩ := w
  cases pending with
  | nil => simp at h
  | cons head rest =>
    obtain ⟨k,hk,hd⟩ := exists_run_absorb head rest
    have hl : (head.absorb rest).2.length+k = rest.length := length_of_run hk
    refine ⟨head,rest,k,_,_,rfl,hk,hd,hl,?_⟩
    -- The list is shorter exactly if the head has made turns.
    have hiff : (head.absorb rest).2.length < rest.length ↔ ¬ k = 0 := by omega
    simp only [turn,hiff,ite_not]

/-- How many heads may follow while `n` routes are pending: all of them, and then as many as may
follow when one is gone. -/
def heads (n : Nat) : Nat := ∑ i ∈ Finset.range (n+1), i

theorem heads_succ (n : Nat) : heads (n+1) = heads n+(n+1) := Finset.sum_range_succ _ _

theorem heads_eq (n : Nat) : heads n = n*(n+1)/2 := by
  rw [heads,Finset.sum_range_id,Nat.add_sub_cancel,Nat.mul_comm]

theorem heads_mono {m n : Nat} (h : m ≤ n) : heads m ≤ heads n := by
  induction n,h using Nat.le_induction with
  | base => exact le_refl _
  | succ n _ ih =>
    rw [heads_succ]
    omega

/-- What is left of the heads that may follow. -/
def headsLeft (w : Worklist) : Nat := heads w.pending.length-w.unchanged

theorem headsLeft_turn {w : Worklist} (h : w.unchanged < w.pending.length) :
    w.turn.headsLeft < w.headsLeft := by
  obtain ⟨n,hn⟩ : ∃ n, w.pending.length = n+1 := ⟨w.pending.length-1,by omega⟩
  have hs := heads_succ n
  unfold headsLeft
  rw [hn]
  rcases w.turn_decreases h with hlt | ⟨heq,hu⟩
  · have := heads_mono (Nat.le_of_lt_succ (hn ▸ hlt))
    omega
  · rw [heq,hu,hn]
    omega

theorem add_headsLeft_le {w v : Worklist} {k : Nat} (h : Loop.Run nextTurn w k v) :
    k+v.headsLeft ≤ w.headsLeft := by
  apply h.add_le
  intro w v hv
  obtain ⟨hw,rfl⟩ := nextTurn_eq_next_iff.mp hv
  exact headsLeft_turn hw

/-- A turn that takes in no route brings the end nearer, any other leaves fewer routes. -/
theorem turn_lt {w : Worklist} (h : w.unchanged < w.pending.length) :
    toLex (w.turn.pending.length,w.turn.pending.length-w.turn.unchanged) <
      toLex (w.pending.length,w.pending.length-w.unchanged) := by
  rw [Prod.Lex.toLex_lt_toLex]
  rcases w.turn_decreases h with hlt | ⟨heq,hu⟩
  · exact .inl hlt
  · refine .inr ⟨heq,?_⟩
    simp only [heq,hu]
    omega

theorem preserved_of_run {P : List Route → Prop} (hP : Preserved P) {w v : Worklist} {k : Nat}
    (h : Loop.Run nextTurn w k v) (hw : P w.pending) : P v.pending := by
  refine h.preserves (P := fun w => P w.pending) (fun w v hv hw => ?_) hw
  obtain ⟨-,rfl⟩ := nextTurn_eq_next_iff.mp hv
  exact hP.turn w hw

end Worklist

namespace Route

/-- Aggregation comes to its end by the conditions of its two loops, and takes at most
`n * (n + 1) / 2` heads if there are `n` routes, which all stay accounted for meanwhile. A turn of
the worklist makes the number of pending routes smaller, or else the number of those not yet known
to be unchanged. It takes a head, lets it take in routes until it can be merged with none that is
left, and puts it back; each route that it takes in is one less. Neither loop is ever without what
its turn needs. -/
theorem aggregate_turns (rs : List Route) :
    (∃ k w, Loop.Run Worklist.nextTurn ⟨sort rs,0⟩ k w ∧ w.nextTurn = .done ∧
      aggregate rs = Table.distinct w.pending) ∧
    (∀ k w, Loop.Run Worklist.nextTurn ⟨sort rs,0⟩ k w →
      k ≤ rs.length*(rs.length+1)/2 ∧ Accounts w.pending rs) ∧
    (∀ w v : Worklist, w.nextTurn = .next v →
      toLex (v.pending.length,v.pending.length-v.unchanged) <
        toLex (w.pending.length,w.pending.length-w.unchanged) ∧
      ∃ head rest k head' rest', w.pending = head::rest ∧
        Loop.Run absorbTurn (head,rest) k (head',rest') ∧ absorbTurn (head',rest') = .done ∧
        rest'.length+k = rest.length ∧
        v = ⟨rest'++[head'],if k = 0 then w.unchanged+1 else 0⟩) ∧
    (∀ s t, absorbTurn s = .next t → t.2.length < s.2.length) ∧
    (∀ w : Worklist, w.nextTurn ≠ .stuck) ∧
    ∀ s, absorbTurn s ≠ .stuck := by
  have hp := sort_perm rs
  refine ⟨?_,fun k w h => ⟨?_,?_⟩,fun w v h => ?_,fun s t h => ?_,Worklist.nextTurn_ne_stuck,
    absorbTurn_ne_stuck⟩
  · obtain ⟨k,w,hk,hd,hw⟩ := Worklist.exists_run ⟨sort rs,0⟩
    exact ⟨k,w,hk,hd,congrArg Table.distinct hw⟩
  · have hle := Worklist.add_headsLeft_le h
    rw [← Worklist.heads_eq,← hp.length_eq]
    exact (Nat.le_add_right k _).trans hle
  · have hP := preserved_accounts rs
    exact Worklist.preserved_of_run hP h (hP.perm hp.symm (accounts_self rs))
  · obtain ⟨hw,rfl⟩ := Worklist.nextTurn_eq_next_iff.mp h
    exact ⟨Worklist.turn_lt hw,Worklist.exists_head hw⟩
  · have := length_of_absorbTurn h
    omega

end Route
end PathVector
