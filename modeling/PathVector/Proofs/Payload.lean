import PathVector.Message
import PathVector.Proofs.Address
import PathVector.Proofs.Record

/-! The payloads of messages: each comes back from the canonical form of its tree, and the trees
are small enough to be carried. -/
namespace PathVector

open Form

theorem Address.inverts_form : Address.form.Inverts := by
  refine (inverts_string _).map fun a => ?_
  rw [Address.ofText?_toString]

theorem Address.agrees_form : Address.form.Agrees := (agrees_string _).map

theorem Address.fits_form : Address.form.Fits 0 := (fits_string _).map

theorem Mask.inverts_form : Mask.form.Inverts := by
  refine Address.inverts_form.map fun m => ?_
  rw [Mask.ofAddress?_address]

theorem Mask.fits_form : Mask.form.Fits 0 := Address.fits_form.map

theorem Origin.inverts_formWith (emptyObject : Bool) : (Origin.formWith emptyObject).Inverts :=
  inverts_choice Origin.ofText?_text

theorem Origin.fits_formWith (emptyObject : Bool) : (Origin.formWith emptyObject).Fits 0 :=
  fits_choice _ _ _ _

namespace Network

theorem lawful_record : record.Lawful where
  names := by decide
  fills f hf := by
    simp only [record,List.mem_cons,List.not_mem_nil,or_false] at hf
    rcases hf with rfl | rfl <;> exact Field.fills_ofForm fun _ _ => rfl
  apart := by
    simp only [record,List.pairwise_cons,List.forall_mem_cons]
    repeat' apply And.intro
    all_goals first
      | exact Field.apart_ofForm (fun _ _ => rfl) (fun _ _ => rfl) (fun _ _ _ => rfl)
      | simp

theorem inverts_form : form.Inverts :=
  lawful_record.inverts fun _ => ⟨_,.cons (Field.restores_required Address.inverts_form rfl)
    (.cons (Field.restores_required Mask.inverts_form rfl) .nil),rfl⟩

theorem fits_form : form.Fits 1 := by
  refine Record.fits_form fun f hf => ?_
  simp only [record,List.mem_cons,List.not_mem_nil,or_false] at hf
  rcases hf with rfl | rfl
  · exact Field.fits_required Address.fits_form
  · exact Field.fits_required Mask.fits_form

end Network

namespace Update

theorem lawful_record : record.Lawful where
  names := by decide
  fills f hf := by
    simp only [record,List.mem_cons,List.not_mem_nil,or_false] at hf
    rcases hf with rfl | rfl | rfl | rfl | rfl | rfl <;> exact Field.fills_ofForm fun _ _ => rfl
  apart := by
    simp only [record,List.pairwise_cons,List.forall_mem_cons]
    repeat' apply And.intro
    all_goals first
      | exact Field.apart_ofForm (fun _ _ => rfl) (fun _ _ => rfl) (fun _ _ _ => rfl)
      | simp

/-- Each attribute comes back on its own, whether it is there or not. -/
theorem inverts_form : form.Inverts := by
  refine lawful_record.inverts fun u => ⟨_,
    .cons (Field.restores_required Address.inverts_form rfl)
    (.cons (Field.restores_required Mask.inverts_form rfl)
    (.cons (Field.restores_required inverts_word32.list rfl)
    (.cons (Field.restores_optionally inverts_word32 (fun _ => nofun) rfl)
    (.cons (Field.restores_optionally inverts_boolean (fun _ => nofun) ?_)
    (.cons (Field.restores_optionally (Origin.inverts_formWith false) (fun _ => nofun) ?_)
    .nil))))),?_⟩
  all_goals
    obtain ⟨n,p,l,s,o⟩ := u
    cases l <;> cases s <;> cases o <;> rfl

theorem fits_form : form.Fits 2 := by
  refine Record.fits_form fun f hf => ?_
  simp only [record,List.mem_cons,List.not_mem_nil,or_false] at hf
  rcases hf with rfl | rfl | rfl | rfl | rfl | rfl
  · exact Field.fits_required (Address.fits_form.mono (by decide))
  · exact Field.fits_required (Mask.fits_form.mono (by decide))
  · exact Field.fits_required fits_word32.list
  · exact Field.fits_optionally (fits_word32.mono (by decide))
  · exact Field.fits_optionally (fits_boolean.mono (by decide))
  · exact Field.fits_optionally ((Origin.fits_formWith false).mono (by decide))

end Update

namespace TableEntry

theorem lawful_routeRecord : routeRecord.Lawful where
  names := by decide
  fills f hf := by
    simp only [routeRecord,Route.recordWith,List.mem_cons,List.not_mem_nil,or_false] at hf
    rcases hf with rfl | rfl | rfl | rfl | rfl | rfl <;> exact Field.fills_ofForm fun _ _ => rfl
  apart := by
    simp only [routeRecord,Route.recordWith,List.pairwise_cons,List.forall_mem_cons]
    repeat' apply And.intro
    all_goals first
      | exact Field.apart_ofForm (fun _ _ => rfl) (fun _ _ => rfl) (fun _ _ _ => rfl)
      | simp

theorem ofMembers_routeRecord (r : Route) :
    routeRecord.ofMembers ((Route.record.members r).map fun m => (m.1,m.2.canonical)) = .ok r :=
  lawful_routeRecord.ofMembers_members ⟨_,
    .cons (Field.restores_required Address.inverts_form rfl)
    (.cons (Field.restores_required Mask.inverts_form rfl)
    (.cons (Field.restores_required inverts_word32.list rfl)
    (.cons (Field.restores_required inverts_word32 rfl)
    (.cons (Field.restores_required inverts_boolean rfl)
    (.cons (Field.restores_required (Origin.inverts_formWith true) rfl) .nil))))),rfl⟩

/-- What a member does to the slots. -/
def step (s : Slots) (m : String × Json) : Except Fault Slots := do
  if m.1 = "peer" then
    if s.peer.isSome then throw (.duplicateField m.1)
    return { s with peer := some (← Address.form.ofJson m.2) }
  else return { s with others := m::s.others }

theorem ofJson_object (ms : List (String × Json)) :
    form.ofJson (.object ms) = ms.foldlM step {} >>= build := rfl

theorem foldlM_others {ms : List (String × Json)} (h : ∀ m ∈ ms, m.1 ≠ "peer") (s : Slots) :
    ms.foldlM step s = .ok { s with others := ms.reverse++s.others } := by
  induction ms generalizing s with
  | nil => rfl
  | cons m ms ih =>
    have hm : step s m = .ok { s with others := m::s.others } :=
      if_neg (h m List.mem_cons_self)
    rw [List.foldlM_cons,hm,List.reverse_cons,List.append_assoc]
    exact ih (fun n hn => h n (List.mem_cons_of_mem m hn)) _

theorem foldlM_peer {xs ys : List (String × Json)} (hx : ∀ m ∈ xs, m.1 ≠ "peer")
    (hy : ∀ m ∈ ys, m.1 ≠ "peer") (j : Json) :
    (xs++("peer",j)::ys).foldlM step {} =
      (Address.form.ofJson j).map fun a => { peer := some a, others := (xs++ys).reverse } := by
  have hj : step { others := xs.reverse } ("peer",j) =
      (Address.form.ofJson j).map fun a => { peer := some a, others := xs.reverse } := by
    rw [step,if_pos rfl]
    change (Address.form.ofJson j >>= fun a => _) = _
    cases Address.form.ofJson j <;> rfl
  rw [List.foldlM_append,foldlM_others hx,List.append_nil]
  change ((("peer",j)::ys).foldlM step { others := xs.reverse }) = _
  rw [List.foldlM_cons,hj]
  cases Address.form.ofJson j with
  | error e => rfl
  | ok a =>
    change ys.foldlM step { peer := some a, others := xs.reverse } = _
    rw [foldlM_others hy,List.reverse_append]
    rfl

theorem name_ne_peer {r : Route} {m : String × Json}
    (h : m ∈ (Route.record.members r).map fun m => (m.1,m.2.canonical)) : m.1 ≠ "peer" := by
  have hm : m.1 ∈ ["network","netmask","ASPath","localpref","selfOrigin","origin"] :=
    List.mem_map_of_mem (f := (·.1)) h
  intro hp
  rw [hp] at hm
  exact absurd hm (by decide)

/-- The members of a line are sorted when it arrives, so the peer stands among those of the
route. -/
theorem inverts_form : form.Inverts := by
  intro e
  have hk : (((Route.record.members e.route++[("peer",Address.form.toJson e.peer)]).map
      fun m => (m.1,m.2.canonical)).map (·.1)).Nodup := by
    change ["network","netmask","ASPath","localpref","selfOrigin","origin","peer"].Nodup
    decide
  have hp := Json.sortMembers_perm hk
  change form.ofJson (Json.object (Route.record.members e.route++
    [("peer",Address.form.toJson e.peer)])).canonical = _
  rw [Json.canonical_object,ofJson_object]
  generalize Json.sortMembers _ = ms at hp
  rw [List.map_append,List.map_cons,List.map_nil] at hp
  have hm : ("peer",(Address.form.toJson e.peer).canonical) ∈ ms :=
    hp.mem_iff.mpr (List.mem_append_right _ List.mem_cons_self)
  obtain ⟨xs,ys,rfl⟩ := List.append_of_mem hm
  have hr := (List.perm_middle.symm.trans (hp.trans (List.perm_append_singleton _ _))).cons_inv
  rw [foldlM_peer (fun m h => name_ne_peer (hr.mem_iff.mp (List.mem_append_left _ h)))
    (fun m h => name_ne_peer (hr.mem_iff.mp (List.mem_append_right _ h))),
    Address.inverts_form e.peer]
  change (routeRecord.ofMembers (xs++ys).reverse.reverse >>= fun r => .ok (TableEntry.mk r e.peer)) =
    .ok e
  rw [List.reverse_reverse,
    lawful_routeRecord.ofMembers_perm hr.symm (ofMembers_routeRecord e.route)]
  rfl

theorem fits_form : form.Fits 2 := by
  have hf : ∀ f ∈ Route.record.fields, f.Fits 1 := by
    intro f hf
    simp only [Route.record,Route.recordWith,List.mem_cons,List.not_mem_nil,or_false] at hf
    rcases hf with rfl | rfl | rfl | rfl | rfl | rfl
    · exact Field.fits_required (Address.fits_form.mono (by decide))
    · exact Field.fits_required (Mask.fits_form.mono (by decide))
    · exact Field.fits_required fits_word32.list
    · exact Field.fits_required (fits_word32.mono (by decide))
    · exact Field.fits_required (fits_boolean.mono (by decide))
    · exact Field.fits_required ((Origin.fits_formWith false).mono (by decide))
  intro e
  refine Json.fits_object fun m hm => ?_
  rcases List.mem_append.mp hm with hm | hm
  · exact Record.fits_members hf hm
  · rw [List.mem_singleton.mp hm]
    exact Address.fits_form.mono (by decide) e.peer

end TableEntry

namespace Message

/-- The payload of a message that is passed on as it came. -/
def content? : Message → Option Json
  | data j | noRoute j | handshake j => some j
  | _ => none

/-- The payload gives the message back, whatever its kind. -/
theorem ofPayload_payload (m : Message) : ofPayload m.payload m.kind = .ok m := by
  cases m with
  | update u => exact congrArg (update <$> ·) (Update.inverts_form u)
  | withdraw ns => exact congrArg (withdraw <$> ·) (Network.inverts_form.list ns)
  | table es => exact congrArg (table <$> ·) (TableEntry.inverts_form.list es)
  | data | noRoute | dump | handshake => rfl

theorem content_of_ofPayload {j c : Json} {k : MessageKind} {m : Message}
    (h : ofPayload j k = .ok m) (hc : m.content? = some c) : c = j := by
  cases k <;> simp only [ofPayload] at h
  case update =>
    obtain ⟨u,_,rfl⟩ := of_map_eq_ok h
    cases hc
  case withdraw =>
    obtain ⟨ns,_,rfl⟩ := of_map_eq_ok h
    cases hc
  case table =>
    obtain ⟨es,_,rfl⟩ := of_map_eq_ok h
    cases hc
  all_goals
    cases h
    cases hc
    try rfl

theorem portable_payload {m : Message} {d : Nat} (hd : 3 ≤ d)
    (h : ∀ j, m.content? = some j → j.Portable d) : m.payload.Portable d := by
  cases m with
  | update u => exact (Update.fits_form.portable u).mono (by omega)
  | withdraw ns => exact (Network.fits_form.list.portable ns).mono (by omega)
  | table es => exact (TableEntry.fits_form.list.portable es).mono (by omega)
  | dump =>
    exact ⟨Nat.le_trans (by decide : (Json.object []).depth ≤ 3) hd,
      fun n hn => absurd hn (by simp [payload,Json.numbers,Json.numbersMembers]),rfl⟩
  | data j => exact h j rfl
  | noRoute j => exact h j rfl
  | handshake j => exact h j rfl

end Message
end PathVector
