import Mathlib.Algebra.Order.BigOperators.Group.List
import Mathlib.Data.Fintype.Card
import Mathlib.Data.Fintype.Lattice
import Mathlib.Data.List.Chain
import Mathlib.Logic.Relation
import PathVector.Proofs.Valley

/-! The end of the flood. No router looks at the path of an update to see whether it has been there
before. But where no router is its own provider through others, a way up comes to an end and so does
a way down; so each message from outside is passed on only so often, in whatever order. -/
namespace PathVector

variable {ι : Type}

namespace Wiring

/-- The first router is joined to the second and calls it a provider. -/
def Pays (w : Wiring ι) (routers : ι → Router) (i j : ι) : Prop :=
  ∃ x y, w.far? x = some y ∧ x.router = i ∧ y.router = j ∧ x.Is routers .provider

def Acyclic (w : Wiring ι) (routers : ι → Router) : Prop :=
  ∀ i, ¬ Relation.TransGen (w.Pays routers) i i

/-- What leaves through the second port comes to the router of the first. -/
def Joined (w : Wiring ι) (x y : Port ι) : Prop :=
  ∃ inlet, w.far? y = some inlet ∧ inlet.router = x.router

variable {w : Wiring ι} {routers : ι → Router} {entry : Port ι} {exits : List (Port ι)}

theorem Path.isChain (h : w.Path entry exits) : exits.IsChain w.Joined := by
  induction h with
  | nil => exact .nil
  | @cons x inlet xs arrives leaves _ ih =>
    cases xs with
    | nil => exact .singleton x
    | cons y ys => exact .cons_cons ⟨inlet,arrives,leaves.symm⟩ ih

theorem length_le_card [Fintype ι] {R : ι → ι → Prop} (hR : ∀ i, ¬ Relation.TransGen R i i)
    {is : List ι} (h : is.IsChain R) : is.length ≤ Fintype.card ι := by
  have hp : is.Pairwise (Relation.TransGen R) :=
    List.isChain_iff_pairwise.mp (h.imp fun _ _ => .single)
  have : Std.Irrefl (Relation.TransGen R) := ⟨hR⟩
  exact hp.nodup.length_le_card

theorem length_up_le [Fintype ι] (ha : w.Acyclic routers) (hj : exits.IsChain w.Joined)
    (hup : ∀ x ∈ exits, x.Is routers .provider) : exits.length ≤ Fintype.card ι := by
  have hc : (exits.map Port.router).IsChain (Function.swap (w.Pays routers)) := by
    refine (List.isChain_map _).mpr (hj.imp_of_mem_imp fun x y _ hy ⟨inlet,hf,hi⟩ => ?_)
    exact ⟨y,inlet,hf,rfl,hi,hup y hy⟩
  rw [← List.length_map]
  exact length_le_card (fun i hi => ha i (Relation.transGen_swap.mp hi)) hc

theorem length_down_le [Fintype ι] (hw : w.Consistent routers) (ha : w.Acyclic routers)
    (hj : exits.IsChain w.Joined) (hdown : ∀ x ∈ exits, x.Is routers .customer) :
    exits.length ≤ Fintype.card ι := by
  have hc : (exits.map Port.router).IsChain (w.Pays routers) := by
    refine (List.isChain_map _).mpr (hj.imp_of_mem_imp fun x y _ hy ⟨inlet,hf,hi⟩ => ?_)
    obtain ⟨s,hs,hinlet⟩ := hw y inlet hf
    obtain rfl : s = .customer := Port.Is.unique hs (hdown y hy)
    exact ⟨inlet,y,w.far?_symm y inlet hf,hi,rfl,hinlet⟩
  rw [← List.length_map]
  exact length_le_card ha hc

theorem length_exits_le [Fintype ι] (hw : w.Consistent routers) (ha : w.Acyclic routers)
    (hp : w.Path entry exits) (hv : ValleyFree routers exits) :
    exits.length ≤ 2*Fintype.card ι+1 := by
  obtain ⟨down,across,up,rfl,hup,hlength,-,hdown⟩ := hv
  have hj := hp.isChain
  have hd := length_down_le hw ha hj.left_of_append.left_of_append hdown
  have hu := length_up_le ha hj.right_of_append hup
  simp only [List.length_append]
  omega

end Wiring

namespace Packet

/-- What is paid in advance for the delivery of a message and of all that comes of it, if no way has
more than `most` exits and no router has more than `width` neighbors. -/
def toll (width most : ℕ) (p : Packet ι) : ℕ := (width+1)^(most-p.exits.length)

theorem toll_pos (width most : ℕ) (p : Packet ι) : 0 < p.toll width most :=
  Nat.pow_pos width.succ_pos

theorem sum_toll_lt {width most : ℕ} {p : Packet ι} {ps : List (Packet ι)}
    (hn : ps.length ≤ width) (hs : ∀ q ∈ ps, q.exits.length = p.exits.length+1)
    (hm : ∀ q ∈ ps, q.exits.length ≤ most) :
    (ps.map (toll width most)).sum < p.toll width most := by
  cases ps with
  | nil => exact p.toll_pos width most
  | cons first rest =>
    have hfirst := hs first List.mem_cons_self
    have hlast := hm first List.mem_cons_self
    -- There is a longer way than this one, so one step is left to pay with.
    obtain ⟨k,hk⟩ : ∃ k, most-p.exits.length = k+1 := ⟨most-p.exits.length-1,by omega⟩
    have heach : ∀ t ∈ (first::rest).map (toll width most), t ≤ (width+1)^k := by
      intro t ht
      obtain ⟨q,hq,rfl⟩ := List.mem_map.mp ht
      have hlength := hs q hq
      rw [toll,show most-q.exits.length = k by omega]
    calc ((first::rest).map (toll width most)).sum
      _ ≤ (first::rest).length*(width+1)^k := by
        simpa using List.sum_le_card_nsmul _ _ heach
      _ ≤ width*(width+1)^k := Nat.mul_le_mul_right _ hn
      _ < (width+1)*(width+1)^k := Nat.mul_lt_mul_of_pos_right width.lt_succ_self (by positivity)
      _ = p.toll width most := by rw [toll,hk,pow_succ']

end Packet

namespace Internet

variable [DecidableEq ι] {w : Wiring ι} {start : ι → Router}

/-- What is paid for a message covers its delivery and all that the router passes on. -/
theorem sum_toll_sent_lt (hw : w.Consistent start) {width most : ℕ}
    (hwidth : ∀ i, (start i).neighbors.size ≤ width)
    (hmost : ∀ p : Packet ι, p.Regular w start → p.exits.length ≤ most) {net : Internet ι}
    {acts : List (Act ι)} (h : Steps w ⟨start,[]⟩ acts net) {p : Packet ι}
    (hp : p.Regular w start) {x : Port ι} (hx : w.inlet? p.entry p.exits = some x)
    (faults : LinkFaults) :
    ((((net.routers x.router).handle faults x.neighbor p.envelope).sent.map (passOn p x)).map
      (Packet.toll width most)).sum < p.toll width most := by
  have hsent := sublist_exports h hp x faults
  refine Packet.sum_toll_lt ?_ ?_ ?_
  · rw [List.length_map]
    exact hsent.length_le.trans ((Router.length_exports_le _ _).trans (hwidth x.router))
  · exact List.forall_mem_map.mpr fun m _ => rfl
  · exact List.forall_mem_map.mpr fun m hm => hmost _ (hp.passOn hw hx (hsent.subset hm))

/-- Every delivery has been paid for when the message came in from outside that it comes of. -/
theorem Steps.paid (hw : w.Consistent start) {width most : ℕ}
    (hwidth : ∀ i, (start i).neighbors.size ≤ width)
    (hmost : ∀ p : Packet ι, p.Regular w start → p.exits.length ≤ most) {net : Internet ι}
    {acts : List (Act ι)} (h : Steps w ⟨start,[]⟩ acts net) :
    acts.countP Act.isDelivery+(net.underway.map (Packet.toll width most)).sum ≤
      (width+1)^most*acts.countP Act.isInjection := by
  -- What is paid comes in with an injection only, and each delivery takes at least one of it.
  induction h with
  | refl => simp
  | tail hbefore hstep ih =>
    simp only [List.countP_append,List.countP_singleton,Nat.mul_add]
    cases hstep with
    | inject x e outside known control =>
      simp only [Act.isDelivery,Act.isInjection,Bool.false_eq_true,if_false,if_true,List.map_cons,
        List.sum_cons,Packet.toll,List.length_nil,Nat.sub_zero,Nat.mul_one]
      omega
    | deliver before after p x faults pending arrived =>
      have hp := hbefore.regular hw p (pending ▸ by simp)
      have hlower := sum_toll_sent_lt hw hwidth hmost hbefore hp arrived faults
      simp only [pending,List.map_append,List.map_cons,List.sum_append,List.sum_cons] at ih
      simp only [Act.isDelivery,Act.isInjection,Bool.false_eq_true,if_false,if_true,
        List.map_append,List.sum_append,Nat.mul_zero]
      omega

/-- Messages go up to providers, across to a peer at most once, and down to customers, and the path
of an update says where it has been; so if no router is its own provider through others, what comes
in from outside causes only so many deliveries, in whatever order they happen. -/
theorem flood_bounded [Fintype ι] (w : Wiring ι) (start : ι → Router) (hw : w.Consistent start) :
    (∀ acts net, Steps w ⟨start,[]⟩ acts net → ∀ p ∈ net.underway, p.Regular w start) ∧
      (w.Acyclic start → ∃ bound, ∀ acts net, Steps w ⟨start,[]⟩ acts net →
        acts.countP Act.isDelivery ≤ bound*acts.countP Act.isInjection) := by
  refine ⟨fun acts net h => h.regular hw,fun ha => ?_⟩
  let width := Finset.univ.sup fun i => (start i).neighbors.size
  let most := 2*Fintype.card ι+1
  have hwidth (i : ι) : (start i).neighbors.size ≤ width :=
    Finset.le_sup (f := fun i => (start i).neighbors.size) (Finset.mem_univ i)
  have hmost (p : Packet ι) (hp : p.Regular w start) : p.exits.length ≤ most :=
    Wiring.length_exits_le hw ha hp.path hp.valley
  refine ⟨(width+1)^most,fun acts net h => ?_⟩
  exact (Nat.le_add_right _ _).trans (h.paid hw hwidth hmost)

/-- The address of the other router at the lower and at the upper one. -/
private def rung : Bool → Address
  | false => .ofOctets 10 0 0 2
  | true => .ofOctets 192 168 0 2

private def guest : Address := .ofOctets 192 168 1 2

private def ally : Address := .ofOctets 172 168 0 2

private def floors : Bool → Router
  | false => Router.configured 1 [(guest,.customer),(rung false,.provider)]
  | true => Router.configured 2 [(rung true,.customer),(ally,.peer)]

private def ladder : Wiring Bool where
  far? x := if x.neighbor = rung x.router then some ⟨!x.router,rung !x.router⟩ else none
  far?_symm := by
    rintro ⟨i,n⟩ y h
    obtain ⟨rfl,rfl⟩ : n = rung i ∧ y = ⟨!i,rung !i⟩ := by
      simpa [eq_comm] using h
    simp

private theorem eq_of_far? {x y : Port Bool} (h : ladder.far? x = some y) :
    x = ⟨x.router,rung x.router⟩ ∧ y = ⟨!x.router,rung !x.router⟩ := by
  obtain ⟨i,n⟩ := x
  simpa [ladder,eq_comm] using h

private theorem consistent_ladder : ladder.Consistent floors := by
  intro x y h
  obtain ⟨hx,rfl⟩ := eq_of_far? h
  rw [hx]
  cases x.router with
  | false => exact ⟨.provider,rfl,rfl⟩
  | true => exact ⟨.customer,rfl,rfl⟩

private theorem acyclic_ladder : ladder.Acyclic floors := by
  have hpays {i j : Bool} (h : ladder.Pays floors i j) : i = false ∧ j = true := by
    obtain ⟨x,y,hf,rfl,rfl,hp⟩ := h
    obtain ⟨hx,rfl⟩ := eq_of_far? hf
    rw [hx] at hp ⊢
    cases hr : x.router with
    | false => exact ⟨rfl,rfl⟩
    | true =>
      rw [hr] at hp
      cases hp
  intro i hi
  obtain ⟨j,hj,-⟩ := Relation.TransGen.head'_iff.mp hi
  obtain ⟨k,-,hk⟩ := Relation.TransGen.tail'_iff.mp hi
  exact Bool.noConfusion ((hpays hj).1.symm.trans (hpays hk).2)

/-- An update of a customer's customer goes up and then across, and both routers are on its path. -/
theorem flood_bounded_uphill :
    ladder.Consistent floors ∧ ladder.Acyclic floors ∧
      (∃ acts net p, Steps ladder ⟨floors,[]⟩ acts net ∧ acts.countP Act.isDelivery = 2 ∧
        p ∈ net.underway ∧ p.exits = [⟨true,ally⟩,⟨false,rung false⟩] ∧
        p.Regular ladder floors ∧ ∃ v, p.envelope.msg = .update v ∧ v.asPath = [2,1,4]) ∧
      ∃ bound, ∀ acts net, Steps ladder ⟨floors,[]⟩ acts net →
        acts.countP Act.isDelivery ≤ bound*acts.countP Act.isInjection := by
  have h := flood_bounded ladder floors consistent_ladder
  refine ⟨consistent_ladder,acyclic_ladder,?_,h.2 acyclic_ladder⟩
  let u : Update := ⟨⟨.ofOctets 10 1 0 0,.ofLength 16⟩,[4],none,none,none⟩
  have h₁ : Steps ladder ⟨floors,[]⟩ _ _ :=
    .tail (.refl _) (.inject _ ⟨false,guest⟩ ⟨guest,guest.gateway,.update u⟩ rfl rfl (.inl rfl))
  have h₂ := h₁.tail (.deliver _ [] [] _ ⟨false,guest⟩ (fun _ _ => none) rfl rfl)
  have h₃ := h₂.tail (.deliver _ [] [] _ ⟨true,rung true⟩ (fun _ _ => none) rfl rfl)
  exact ⟨_,_,_,h₃,rfl,List.mem_cons_self,rfl,h.1 _ _ h₃ _ List.mem_cons_self,_,rfl,
    rfl⟩

end Internet
end PathVector
