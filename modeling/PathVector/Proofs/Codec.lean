import PathVector.Proofs.Payload

/-! Envelopes on the wire. The text of an envelope gives the same envelope back, and every envelope
that was read from some text can be written and read again without loss. -/
namespace PathVector

open Reader

namespace Envelope

namespace Sealed

theorem lawful_record : record.Lawful where
  names := by decide
  fills f hf := by
    simp only [record,List.mem_cons,List.not_mem_nil,or_false] at hf
    rcases hf with rfl | rfl | rfl | rfl <;> exact Field.fills_ofForm fun _ _ => rfl
  apart := by
    simp only [record,List.pairwise_cons,List.forall_mem_cons]
    repeat' apply And.intro
    all_goals first
      | exact Field.apart_ofForm (fun _ _ => rfl) (fun _ _ => rfl) (fun _ _ _ => rfl)
      | simp

theorem agrees_fields : ∀ f ∈ record.fields, f.Agrees := by
  intro f hf
  simp only [record,List.mem_cons,List.not_mem_nil,or_false] at hf
  rcases hf with rfl | rfl | rfl | rfl
  · exact Field.agrees_ofForm Address.agrees_form
  · exact Field.agrees_ofForm Address.agrees_form
  · exact Field.agrees_ofForm (Form.agrees_string _)
  · exact Field.agrees_ofForm Form.agrees_json

theorem portable_members {s : Sealed} {d : Nat} (h : s.payload.Portable d) :
    ∀ m ∈ record.members s, (record.field? m.1).isSome ∧ m.2.Portable d := by
  intro m hm
  have hm : m ∈ [("src",Json.string (toString s.src)),("dst",Json.string (toString s.dst)),
      ("type",Json.string s.kind),("msg",s.payload)] := hm
  simp only [List.mem_cons,List.not_mem_nil,or_false] at hm
  rcases hm with rfl | rfl | rfl | rfl
  · exact ⟨rfl,Json.portable_string d _⟩
  · exact ⟨rfl,Json.portable_string d _⟩
  · exact ⟨rfl,Json.portable_string d _⟩
  · exact ⟨rfl,h⟩

theorem ofMembers_members {s : Sealed} (h : s.payload.canonical = s.payload) :
    record.ofMembers (record.members s) = .ok s := by
  have hc : ((record.members s).map fun m => (m.1,m.2.canonical)) = record.members s := by
    change [_,_,_,("msg",s.payload.canonical)] = [_,_,_,("msg",s.payload)]
    rw [h]
    rfl
  have hp : Form.json.ofJson s.payload.canonical = .ok s.payload := congrArg Except.ok h
  rw [← hc]
  exact lawful_record.ofMembers_members ⟨_,
    .cons (Field.restores_required Address.inverts_form rfl)
    (.cons (Field.restores_required Address.inverts_form rfl)
    (.cons (Field.restores_required (Form.inverts_string _) rfl)
    (.cons ⟨rfl,Field.ofForm_eq_ok.mpr ⟨s.payload,hp,rfl⟩⟩ .nil))),rfl⟩

theorem readText_chars {s : Sealed} (h : s.payload.Portable 126) :
    record.form.readText (Utf8.encode (record.form.toJson s).chars) = .ok s :=
  run_of_takes (Record.takes_object agrees_fields (fun m hm => (portable_members h m hm).1)
    (fun m hm => (portable_members h m hm).2) (ofMembers_members h.sorted))

/-- A payload as the reader leaves it: within its limits, and sorted. -/
def Received (j : Json) : Prop := Bounded 126 j ∧ j.canonical = j

theorem received_null : Received .null := ⟨bounded_scalar rfl rfl,rfl⟩

theorem yields_json : (Form.json.read 126).Yields Received :=
  (yields_value 126).map fun j hj => ⟨hj.canonical,Json.canonical_canonical j⟩

theorem received_of_readText {bs : List UInt8} {s : Sealed}
    (h : record.form.readText bs = .ok s) : Received s.payload := by
  have hf : ∀ f ∈ record.fields, ∀ t : Slots, (∀ j, t.payload = some j → Received j) →
      (f.read 126 t).Yields fun t => ∀ j, t.payload = some j → Received j := by
    intro f hf t ht
    simp only [record,List.mem_cons,List.not_mem_nil,or_false] at hf
    have hany : ∀ {β : Type} (r : Reader β), r.Yields fun _ => True := fun _ _ _ _ _ => trivial
    rcases hf with rfl | rfl | rfl | rfl
    · exact Field.yields_ofForm (hany _) fun _ _ => ht
    · exact Field.yields_ofForm (hany _) fun _ _ => ht
    · exact Field.yields_ofForm (hany _) fun _ _ => ht
    · exact Field.yields_ofForm yields_json fun k hk j hj => Option.some.inj hj ▸ hk
  obtain ⟨t,ht,hs⟩ := (Record.yields_form hf (fun j hj => nomatch hj)).of_run h
  obtain ⟨src,_,hs⟩ := of_bind_eq_ok hs
  obtain ⟨dst,_,hs⟩ := of_bind_eq_ok hs
  obtain ⟨kind,_,hs⟩ := of_bind_eq_ok hs
  cases hs
  change Received (t.payload.getD .null)
  cases hp : t.payload with
  | none => exact received_null
  | some j => exact ht j hp

end Sealed

/-- An envelope whose content can be carried survives its text. -/
theorem ofWire_of_portable {e : Envelope} (h : ∀ j, e.msg.content? = some j → j.Portable 126) :
    ofWire e.toWire = .ok e := by
  have hp := Message.portable_payload (by decide : 3 ≤ 126) h
  have hk : MessageKind.parse e.msg.kind.text = .ok e.msg.kind := by
    rw [MessageKind.parse,MessageKind.ofText?_text]
  rw [ofWire,toWire,Sealed.readText_chars hp]
  change Sealed.decode ⟨e.src,e.dst,e.msg.kind.text,e.msg.payload⟩ = _
  rw [Sealed.decode]
  dsimp only
  rw [hk]
  change ((Message.ofPayload e.msg.payload e.msg.kind).mapError Error.json >>=
    fun m => .ok (Envelope.mk e.src e.dst m)) = _
  rw [Message.ofPayload_payload]
  rfl

theorem received_of_ofWire {bs : List UInt8} {e : Envelope} (h : ofWire bs = .ok e) {j : Json}
    (hj : e.msg.content? = some j) : Sealed.Received j := by
  obtain ⟨s,hs,h⟩ := of_bind_eq_ok h
  obtain ⟨kind,_,h⟩ := of_bind_eq_ok h
  obtain ⟨msg,hm,h⟩ := of_bind_eq_ok h
  cases h
  rw [Message.content_of_ofPayload (of_mapError_eq_ok hm) hj]
  exact Sealed.received_of_readText (of_mapError_eq_ok hs)

/-- Text loses nothing: an envelope comes back from its text if the content that it passes on, if
any, is at most 126 deep, has only whole numbers of 64 bits and is sorted, as trees are kept; and so
does every envelope that was read from some bytes and has no other than whole numbers. -/
theorem ofWire_toWire (e : Envelope) :
    ((∀ j, e.msg.content? = some j → j.Portable 126) → ofWire e.toWire = .ok e) ∧
    ∀ bs, ofWire bs = .ok e → (∀ j, e.msg.content? = some j → ∀ n ∈ j.numbers, n.Whole) →
      ofWire e.toWire = .ok e := by
  refine ⟨ofWire_of_portable,fun bs h hw => ofWire_of_portable fun j hj => ?_⟩
  obtain ⟨⟨hd,hn⟩,hs⟩ := received_of_ofWire h hj
  exact ⟨hd,fun n hm => hn n hm (hw j hj n hm),hs⟩

/-- Both limits of the numbers, escapes, and characters of every length in UTF-8. -/
theorem ofWire_toWire_extremes :
    let j : Json := .object [
      ("",.list [.integer (-0x8000000000000000),.integer 0xffffffffffffffff]),
      ("\"\\\n\x00é\u2028😀",.object [("é",.string "\x1f/"),("ê",.list [.null,.boolean true])])]
    let e : Envelope := ⟨⟨0x0a000002#32⟩,⟨0xffffffff#32⟩,.data j⟩
    j.Portable 126 ∧ (∀ n ∈ j.numbers, n.Whole) ∧ ofWire e.toWire = .ok e := by
  intro j e
  have hj : j.Portable 126 := ⟨by decide,by decide,rfl⟩
  have hw : ∀ n ∈ j.numbers, n.Whole := by decide
  have h := (ofWire_toWire e).1 fun k hk => Option.some.inj hk ▸ hj
  exact ⟨hj,hw,(ofWire_toWire e).2 e.toWire h fun k hk => Option.some.inj hk ▸ hw⟩

end Envelope
end PathVector
