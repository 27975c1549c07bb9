import PathVector.Json.Form
import PathVector.Proofs.Token
import PathVector.Proofs.Tree

/-! What every successful reading yields, whatever the bytes: a property of the result is carried
through the readers in sequence and through their loops. A tree that was read is no deeper than
allowed, and its whole numbers are in range. -/
namespace PathVector
namespace Reader

variable {α β : Type}

/-- What the reader returns has the property, on any bytes. -/
def Yields (r : Reader α) (P : α → Prop) : Prop :=
  ∀ bs a cs, StateT.run r bs = .ok (a,cs) → P a

theorem yields_pure {P : α → Prop} {a : α} (h : P a) : Yields (pure a) P := by
  intro bs b cs hr
  cases hr
  exact h

theorem yields_throw {P : α → Prop} (e : Fault) : Yields (throw e) P := by
  intro bs b cs hr
  cases hr

theorem Yields.bind {r : Reader α} {f : α → Reader β} {Q : α → Prop} {P : β → Prop}
    (hr : r.Yields Q) (hf : ∀ a, Q a → (f a).Yields P) : (r >>= f).Yields P := by
  intro bs b ds h
  obtain ⟨a,cs,ha,hb⟩ := run_bind_eq_ok h
  exact hf a (hr bs a cs ha) cs b ds hb

theorem yields_bind {r : Reader α} {f : α → Reader β} {P : β → Prop}
    (hf : ∀ a, (f a).Yields P) : (r >>= f).Yields P :=
  Yields.bind (Q := fun _ => True) (fun _ _ _ _ => trivial) fun a _ => hf a

theorem yields_ite {p : Prop} [Decidable p] {r s : Reader α} {P : α → Prop} (hr : r.Yields P)
    (hs : s.Yields P) : (if p then r else s).Yields P := by
  split
  · exact hr
  · exact hs

theorem Yields.map {r : Reader α} {f : α → β} {Q : α → Prop} {P : β → Prop} (hr : r.Yields Q)
    (hf : ∀ a, Q a → P (f a)) : (f <$> r).Yields P := by
  rw [← bind_pure_comp]
  exact hr.bind fun a ha => yields_pure (hf a ha)

theorem yields_lift (x : Except Fault α) : Yields (StateT.lift x) fun a => x = .ok a := by
  intro bs a cs h
  obtain ⟨b,hb,h⟩ := of_bind_eq_ok h
  cases h
  exact hb

/-- A whole text that was read gives what its reader yields. -/
theorem Yields.of_run {r : Reader α} {P : α → Prop} (h : r.Yields P)
    {bs : List UInt8} {a : α} (ha : Reader.run r bs = .ok a) : P a := by
  obtain ⟨⟨b,rest⟩,hb,ha⟩ := of_bind_eq_ok ha
  dsimp only at ha
  split at ha
  · cases ha
    exact h bs _ rest hb
  · cases ha

theorem yields_items {item : Reader α} {P : α → Prop} (h : item.Yields P) (n : Nat)
    (first : Bool) : (items item n first).Yields fun xs => ∀ x ∈ xs, P x := by
  induction n generalizing first with
  | zero => exact yields_throw _
  | succ n ih =>
    refine yields_bind fun more => ?_
    split
    · refine h.bind fun a ha => (ih false).bind fun xs hxs => yields_pure ?_
      exact List.forall_mem_cons.mpr ⟨ha,hxs⟩
    · exact yields_bind fun _ => yields_pure (by simp)

theorem yields_list {item : Reader α} {P : α → Prop} (h : item.Yields P) :
    (list item).Yields fun xs => ∀ x ∈ xs, P x :=
  yields_bind fun bs => yields_items h bs.length true

theorem yields_members {member : String → α → Reader α} {I : α → Prop}
    (h : ∀ k a, I a → (member k a).Yields I) (n : Nat) (first : Bool) {a : α} (ha : I a) :
    (members member n first a).Yields I := by
  induction n generalizing first a with
  | zero => exact yields_throw _
  | succ n ih =>
    refine yields_bind fun more => ?_
    split
    · exact yields_bind fun k => (h k a ha).bind fun b hb => ih false hb
    · exact yields_bind fun _ => yields_pure ha

theorem yields_object {member : String → α → Reader α} {I : α → Prop}
    (h : ∀ k a, I a → (member k a).Yields I) {a : α} (ha : I a) : (object member a).Yields I :=
  yields_bind fun bs => yields_members h bs.length true ha

/-- A number of the text is exact unless it was rounded. -/
def InRange (n : Number) : Prop := n.Whole → n.Exact

theorem absorb_lt (ds : List Nat) {s : Nat} (h : s < UInt64.size) :
    (absorb s ds).1 < UInt64.size := by
  induction ds generalizing s with
  | nil => exact h
  | cons d ds ih =>
    unfold absorb
    split
    · exact ih ‹_›
    · exact h

theorem yields_real (negative : Bool) (s : Nat) (e : Int) :
    (real negative s e).Yields InRange := by
  refine yields_bind fun c => yields_ite
    (yields_bind fun _ => yields_bind fun _ => yields_bind fun e => ?_) (yields_bind fun e => ?_)
  all_goals
    dsimp only
    split
    · exact yields_pure fun h => h.elim
    · exact yields_throw _

theorem yields_number (negative : Bool) : (number negative).Yields InRange := by
  refine yields_bind fun ds => ?_
  have hs := absorb_lt ds (s := 0) (by decide)
  generalize absorb 0 ds = p at hs
  obtain ⟨s,excess⟩ := p
  have hs : s < 0x10000000000000000 := hs
  refine yields_bind fun c => ?_
  split
  · refine yields_bind fun _ => yields_bind fun fs => ?_
    dsimp only
    split
    · refine yields_bind fun c => ?_
      split
      · exact yields_throw _
      · exact yields_throw _
    · exact yields_real _ _ _
  · exact yields_real _ _ _
  · exact yields_real _ _ _
  · split
    · exact yields_real _ _ _
    split
    · refine yields_pure fun _ => ⟨?_,?_⟩ <;> omega
    split
    · refine yields_pure fun _ => ⟨?_,?_⟩ <;> omega
    · exact yields_real _ _ _

/-- A tree within the limits of reading. -/
def Bounded (d : Nat) (j : Json) : Prop := j.depth ≤ d ∧ ∀ n ∈ j.numbers, InRange n

theorem bounded_scalar {d : Nat} {j : Json} (hd : j.depth = 0) (hn : j.numbers = []) :
    Bounded d j := by
  refine ⟨by omega,fun n h => ?_⟩
  rw [hn] at h
  cases h

theorem bounded_number (d : Nat) {n : Number} (h : InRange n) : Bounded d (.number n) := by
  refine ⟨Nat.zero_le d,fun m hm => ?_⟩
  rw [Json.numbers,List.mem_singleton] at hm
  exact hm ▸ h

theorem bounded_list {d : Nat} {xs : List Json} (h : ∀ x ∈ xs, Bounded d x) :
    Bounded (d+1) (.list xs) := by
  refine ⟨Json.depth_list_le_iff.mpr fun x hx => (h x hx).1,fun n hn => ?_⟩
  obtain ⟨x,hx,hn⟩ := Json.mem_numbers_list_iff.mp hn
  exact (h x hx).2 n hn

theorem bounded_object {d : Nat} {ms : List (String × Json)} (h : ∀ m ∈ ms, Bounded d m.2) :
    Bounded (d+1) (.object ms) := by
  refine ⟨Json.depth_object_le_iff.mpr fun m hm => (h m hm).1,fun n hn => ?_⟩
  obtain ⟨m,hm,hn⟩ := Json.mem_numbers_object_iff.mp hn
  exact (h m hm).2 n hn

theorem Bounded.canonical {d : Nat} {j : Json} (h : Bounded d j) : Bounded d j.canonical :=
  ⟨Json.depth_canonical_le j h.1,fun n hn => h.2 n (Json.mem_numbers_of_canonical hn)⟩

theorem yields_members_tree {item : Reader Json} {d : Nat} (h : item.Yields (Bounded d)) :
    (object (fun k ms => do colon; return (k,← item)::ms) []).Yields
      fun ms => ∀ m ∈ ms, Bounded d m.2 := by
  refine yields_object (fun k ms hms => ?_) (by simp)
  refine yields_bind fun _ => h.bind fun j hj => yields_pure ?_
  exact List.forall_mem_cons.mpr ⟨hj,hms⟩

theorem yields_valueOver {inner : Option (Reader Json)} {d : Nat}
    (h : ∀ item, inner = some item → ∃ e, d = e+1 ∧ item.Yields (Bounded e)) :
    (valueOver inner).Yields (Bounded d) := by
  unfold valueOver
  refine yields_bind fun c => ?_
  split
  · exact yields_throw _
  · exact yields_bind fun _ => yields_bind fun _ => yields_pure (bounded_scalar rfl rfl)
  · exact yields_bind fun _ => yields_bind fun _ => yields_pure (bounded_scalar rfl rfl)
  · exact yields_bind fun _ => yields_bind fun _ => yields_pure (bounded_scalar rfl rfl)
  · exact yields_bind fun _ => (yields_number true).bind fun n hn =>
      yields_pure (bounded_number d hn)
  · exact yields_bind fun _ => yields_bind fun s => yields_pure (bounded_scalar rfl rfl)
  · split
    · obtain ⟨e,rfl,hi⟩ := h _ rfl
      exact yields_bind fun _ => (yields_list hi).bind fun xs hxs =>
        yields_pure (bounded_list hxs)
    · exact yields_throw _
  · split
    · obtain ⟨e,rfl,hi⟩ := h _ rfl
      refine yields_bind fun _ => (yields_members_tree hi).bind fun ms hms => yields_pure ?_
      exact bounded_object fun m hm => hms m (List.mem_reverse.mp hm)
    · exact yields_throw _
  · split
    · exact (yields_number false).bind fun n hn => yields_pure (bounded_number d hn)
    · exact yields_throw _

/-- What is read is no deeper than allowed and has no whole number out of range. -/
theorem yields_value (d : Nat) : (value d).Yields (Bounded d) := by
  induction d with
  | zero => exact yields_valueOver fun _ h => by cases h
  | succ d ih =>
    refine yields_valueOver fun item h => ⟨d,rfl,?_⟩
    cases h
    exact ih

theorem yields_mismatch {P : α → Prop} (wanted : String) :
    (mismatch wanted : Reader α).Yields P := by
  refine yields_bind fun c => ?_
  split
  · exact yields_throw _
  · exact yields_bind fun _ => yields_bind fun _ => yields_throw _
  · exact yields_bind fun _ => yields_bind fun _ => yields_throw _
  · exact yields_bind fun _ => yields_bind fun _ => yields_throw _
  · exact yields_bind fun _ => yields_bind fun _ => yields_throw _
  · exact yields_throw _
  · exact yields_throw _
  · split
    · exact yields_bind fun _ => yields_throw _
    · exact yields_throw _

end Reader
end PathVector
