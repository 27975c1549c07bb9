import PathVector.Proofs.Token
import PathVector.Proofs.Tree

/-! Trees read back. A list is read item by item and an object member by member; the text of each
part starts with a character that tells it from the end of its container. -/
namespace PathVector
namespace Reader

variable {α : Type}

/-- A text that starts like a value: with an ASCII character that is no blank and closes no list. -/
def Opens (cs : List Char) : Prop :=
  ∃ c ds, cs = c::ds ∧ c.toNat ≤ 0x7f ∧ isSpace (UInt8.ofNat c.toNat) = false ∧ c ≠ ']'

/-- The reader takes the text off the front of whatever does not continue a number. -/
def Takes (r : Reader α) (cs : List Char) (a : α) : Prop :=
  Opens cs ∧ ∀ bs, Stops bs → StateT.run r (Utf8.encode cs++bs) = .ok (a,bs)

theorem stops_ascii {c : Char} (h : c.toNat ≤ 0x7f)
    (hc : isDigit (UInt8.ofNat c.toNat) = false ∧ UInt8.ofNat c.toNat ≠ 0x2e ∧
      UInt8.ofNat c.toNat ≠ 0x45 ∧ UInt8.ofNat c.toNat ≠ 0x65) (cs : List Char)
    (bs : List UInt8) : Stops (Utf8.encode (c::cs)++bs) := by
  rw [encode_ascii h]
  exact stops_cons hc _

-- Each part of a container has a byte of its own, so the bytes left are turns enough.
theorem length_lt_of_parts (xs : List α) (text : α → List Char) (c : Char) :
    xs.length < (xs.flatMap (fun x => ',' :: text x)++[c]).length := by
  induction xs with
  | nil => simp
  | cons x xs ih =>
    simp only [List.flatMap_cons,List.length_append,List.length_cons] at ih ⊢
    omega

theorem exists_turns {cs ds : List Char} (h : Opens cs) {k : Nat} (hd : k < ds.length)
    (bs : List UInt8) :
    ∃ n, (Utf8.encode cs++(Utf8.encode ds++bs)).length = n+1 ∧ k < n := by
  obtain ⟨c,cs,rfl,_⟩ := h
  have h₁ := Utf8.length_le_length_encode (c::cs)
  have h₂ := Utf8.length_le_length_encode ds
  simp only [List.length_append,List.length_cons] at h₁ ⊢
  exact ⟨(Utf8.encode (c::cs)).length+((Utf8.encode ds).length+bs.length)-1,by omega,by omega⟩

theorem run_of_takes {r : Reader α} {cs : List Char} {a : α}
    (h : r.Takes cs a) : Reader.run r (Utf8.encode cs) = .ok a := by
  have hr := h.2 [] stops_nil
  rw [List.append_nil] at hr
  rw [Reader.run,hr]
  rfl

section Items

variable {item : Reader α} {text : α → List Char}

theorem run_items_end (n : Nat) (first : Bool) (bs : List UInt8) :
    StateT.run (items item (n+1) first) (Utf8.encode [']']++bs) = .ok ([],bs) := by
  have hp := run_peekToken (c := ']') (by decide) (by decide) bs
  have hh : StateT.run (hasItem first) (Utf8.encode [']']++bs) =
      .ok (false,Utf8.encode [']']++bs) := by
    rw [encode_ascii (by decide),hasItem]
    exact run_bind_ok hp _
  have he : StateT.run endList (Utf8.encode [']']++bs) = .ok ((),bs) := by
    rw [encode_ascii (by decide),endList]
    exact run_bind_ok hp _
  rw [items,run_bind_ok hh,if_neg (by decide),run_bind_ok he]
  rfl

theorem run_hasItem_first {cs : List Char} (h : Opens cs) (bs : List UInt8) :
    StateT.run (hasItem true) (Utf8.encode cs++bs) = .ok (true,Utf8.encode cs++bs) := by
  obtain ⟨c,ds,rfl,hc,hs,hb⟩ := h
  rw [encode_ascii hc,hasItem,run_bind_ok (run_peekToken hc hs _)]
  split
  · simp_all
  · simp_all
  · rfl

theorem run_hasItem_next {cs : List Char} (h : Opens cs) (bs : List UInt8) :
    StateT.run (hasItem false) (Utf8.encode (',' :: cs)++bs) = .ok (true,Utf8.encode cs++bs) := by
  have hp := run_peekToken (c := ',') (by decide) (by decide) (Utf8.encode cs++bs)
  obtain ⟨c,ds,rfl,hc,hs,hb⟩ := h
  rw [encode_ascii (by decide),hasItem,run_bind_ok hp]
  change StateT.run (do advance; _) _ = _
  rw [run_bind_ok (run_advance _ _),encode_ascii hc,run_bind_ok (run_peekToken hc hs _)]
  split
  · simp_all
  · simp_all
  · rfl

theorem stops_items (text : α → List Char) (xs : List α) (bs : List UInt8) :
    Stops (Utf8.encode (xs.flatMap (fun x => ',' :: text x)++[']'])++bs) := by
  cases xs with
  | nil => exact stops_ascii (by decide) (by decide) _ _
  | cons x xs => exact stops_ascii (by decide) (by decide) _ _

theorem run_items_rest {xs : List α} (h : ∀ x ∈ xs, Takes item (text x) x) {n : Nat}
    (hn : xs.length < n) (bs : List UInt8) :
    StateT.run (items item n false)
      (Utf8.encode (xs.flatMap (fun x => ',' :: text x)++[']'])++bs) = .ok (xs,bs) := by
  induction xs generalizing n with
  | nil =>
    obtain ⟨n,rfl⟩ : ∃ m, n = m+1 := ⟨n-1,by simp at hn; omega⟩
    exact run_items_end n false bs
  | cons x xs ih =>
    obtain ⟨n,rfl⟩ : ∃ m, n = m+1 := ⟨n-1,by omega⟩
    obtain ⟨ho,hx⟩ := h x List.mem_cons_self
    have ih := ih (fun y hy => h y (List.mem_cons_of_mem x hy)) (n := n) (by simpa using hn)
    have hb := hx _ (stops_items text xs bs)
    rw [List.flatMap_cons,List.append_assoc,Utf8.encode_append,List.append_assoc,items,
      run_bind_ok (run_hasItem_next ho _),if_pos rfl,run_bind_ok hb,run_bind_ok ih]
    rfl

theorem itemChars_cons (x : Json) (xs : List Json) :
    Json.itemChars (x::xs) = x.chars++xs.flatMap fun y => ',' :: y.chars := by
  induction xs generalizing x with
  | nil => simp [Json.itemChars]
  | cons y xs ih =>
    rw [Json.itemChars,ih,List.flatMap_cons,List.cons_append]
    simp

theorem run_list {item : Reader Json} {xs : List Json} (h : ∀ x ∈ xs, Takes item x.chars x)
    (bs : List UInt8) :
    StateT.run (list item) (Utf8.encode (Json.itemChars xs++[']'])++bs) = .ok (xs,bs) := by
  rw [list,run_bind_ok (run_get _)]
  cases xs with
  | nil => exact run_items_end _ true bs
  | cons x xs =>
    obtain ⟨ho,hx⟩ := h x List.mem_cons_self
    have hb := hx _ (stops_items Json.chars xs bs)
    rw [itemChars_cons,List.append_assoc,Utf8.encode_append,List.append_assoc]
    obtain ⟨n,hn,hl⟩ := exists_turns ho (length_lt_of_parts xs Json.chars ']') bs
    have hr := run_items_rest (fun y hy => h y (List.mem_cons_of_mem x hy)) hl bs
    rw [hn,items,run_bind_ok (run_hasItem_first ho _),if_pos rfl,run_bind_ok hb,run_bind_ok hr]
    rfl

end Items

section Members

variable {member : String → α → Reader α}

theorem run_members_end (n : Nat) (first : Bool) (a : α) (bs : List UInt8) :
    StateT.run (members member (n+1) first a) (Utf8.encode ['\x7d']++bs) = .ok (a,bs) := by
  have hp := run_peekToken (c := '\x7d') (by decide) (by decide) bs
  have hh : StateT.run (hasMember first) (Utf8.encode ['\x7d']++bs) =
      .ok (false,Utf8.encode ['\x7d']++bs) := by
    rw [encode_ascii (by decide),hasMember]
    exact run_bind_ok hp _
  have he : StateT.run endObject (Utf8.encode ['\x7d']++bs) = .ok ((),bs) := by
    rw [encode_ascii (by decide),endObject]
    exact run_bind_ok hp _
  rw [members,run_bind_ok hh,if_neg (by decide),run_bind_ok he]
  rfl

theorem run_name (k : String) (bs : List UInt8) :
    StateT.run name (Utf8.encode (Json.stringChars k)++bs) = .ok (k,bs) := by
  rw [Json.stringChars,List.cons_append,encode_ascii (by decide),name,
    run_bind_ok (run_advance _ _)]
  exact run_string k bs

/-- A turn at the first member; `member` reads from the colon on. -/
theorem run_members_first {k : String} {a b : α} {bs cs : List UInt8}
    (h : StateT.run (member k a) bs = .ok (b,cs)) (n : Nat) :
    StateT.run (members member (n+1) true a) (Utf8.encode (Json.stringChars k)++bs) =
      StateT.run (members member n false b) cs := by
  have hp := fun bs => run_peekToken (c := '"') (by decide) (by decide) bs
  have hh : StateT.run (hasMember true) (Utf8.encode (Json.stringChars k)++bs) =
      .ok (true,Utf8.encode (Json.stringChars k)++bs) := by
    rw [Json.stringChars,List.cons_append,encode_ascii (by decide),hasMember]
    exact run_bind_ok (hp _) _
  rw [members,run_bind_ok hh,if_pos rfl,run_bind_ok (run_name k bs),run_bind_ok h]

theorem run_members_next {k : String} {a b : α} {bs cs : List UInt8}
    (h : StateT.run (member k a) bs = .ok (b,cs)) (n : Nat) :
    StateT.run (members member (n+1) false a) (Utf8.encode (',' :: Json.stringChars k)++bs) =
      StateT.run (members member n false b) cs := by
  have hq := fun bs => run_peekToken (c := '"') (by decide) (by decide) bs
  have hc := fun bs => run_peekToken (c := ',') (by decide) (by decide) bs
  have hh : StateT.run (hasMember false) (Utf8.encode (',' :: Json.stringChars k)++bs) =
      .ok (true,Utf8.encode (Json.stringChars k)++bs) := by
    rw [encode_ascii (by decide),hasMember,run_bind_ok (hc _)]
    change StateT.run (do advance; _) _ = _
    rw [run_bind_ok (run_advance _ _),Json.stringChars,List.cons_append,
      encode_ascii (by decide)]
    exact run_bind_ok (hq _) _
  rw [members,run_bind_ok hh,if_pos rfl,run_bind_ok (run_name k bs),run_bind_ok h]

theorem run_colon (cs : List Char) (bs : List UInt8) :
    StateT.run colon (Utf8.encode (':' :: cs)++bs) = .ok ((),Utf8.encode cs++bs) := by
  rw [encode_ascii (by decide),colon]
  exact run_bind_ok (run_peekToken (c := ':') (by decide) (by decide) _) _

end Members

/-- A member as its text. -/
def memberText (m : String × Json) : List Char := Json.stringChars m.1++(':' :: m.2.chars)

theorem memberChars_cons (m : String × Json) (ms : List (String × Json)) :
    Json.memberChars (m::ms) = memberText m++ms.flatMap fun n => ',' :: memberText n := by
  induction ms generalizing m with
  | nil => simp [Json.memberChars,memberText]
  | cons n ms ih =>
    rw [Json.memberChars,ih,List.flatMap_cons]
    · simp [memberText]
    · simp

/-- What `member` does on the text of a member, `step` does on the member itself. -/
def Follows (member : String → α → Reader α) (step : α → String × Json → Except Fault α)
    (m : String × Json) : Prop :=
  ∀ a b, step a m = .ok b → ∀ bs, Stops bs →
    StateT.run (member m.1 a) (Utf8.encode (':' :: m.2.chars)++bs) = .ok (b,bs)

theorem stops_members (ms : List (String × Json)) (bs : List UInt8) :
    Stops (Utf8.encode (ms.flatMap (fun m => ',' :: memberText m)++['\x7d'])++bs) := by
  cases ms with
  | nil => exact stops_ascii (by decide) (by decide) _ _
  | cons m ms => exact stops_ascii (by decide) (by decide) _ _

variable {member : String → α → Reader α} {step : α → String × Json → Except Fault α}

theorem run_members_rest {ms : List (String × Json)} (h : ∀ m ∈ ms, Follows member step m)
    {a b : α} (hf : ms.foldlM step a = .ok b) {n : Nat} (hn : ms.length < n) (bs : List UInt8) :
    StateT.run (members member n false a)
      (Utf8.encode (ms.flatMap (fun m => ',' :: memberText m)++['\x7d'])++bs) =
      .ok (b,bs) := by
  induction ms generalizing n a with
  | nil =>
    obtain ⟨n,rfl⟩ : ∃ m, n = m+1 := ⟨n-1,by simp at hn; omega⟩
    cases hf
    exact run_members_end n false b bs
  | cons m ms ih =>
    obtain ⟨n,rfl⟩ : ∃ m, n = m+1 := ⟨n-1,by omega⟩
    rw [List.foldlM_cons] at hf
    obtain ⟨c,hc,hf⟩ := of_bind_eq_ok hf
    have hm := h m List.mem_cons_self a c hc _ (stops_members ms bs)
    have ih := ih (fun k hk => h k (List.mem_cons_of_mem m hk)) hf (n := n) (by simpa using hn)
    rw [List.flatMap_cons,memberText,List.append_assoc,← List.cons_append,List.append_assoc,
      Utf8.encode_append,List.append_assoc,Utf8.encode_append,List.append_assoc,
      run_members_next hm,ih]

theorem run_object {ms : List (String × Json)} (h : ∀ m ∈ ms, Follows member step m) {a b : α}
    (hf : ms.foldlM step a = .ok b) (bs : List UInt8) :
    StateT.run (object member a) (Utf8.encode (Json.memberChars ms++['\x7d'])++bs) =
      .ok (b,bs) := by
  rw [object,run_bind_ok (run_get _)]
  cases ms with
  | nil =>
    cases hf
    exact run_members_end _ true a bs
  | cons m ms =>
    rw [List.foldlM_cons] at hf
    obtain ⟨c,hc,hf⟩ := of_bind_eq_ok hf
    have hm := h m List.mem_cons_self a c hc _ (stops_members ms bs)
    have ho : Opens (memberText m) := ⟨'"',_,rfl,by decide,by decide,by decide⟩
    rw [memberChars_cons,List.append_assoc,Utf8.encode_append,List.append_assoc]
    obtain ⟨n,hn,hl⟩ := exists_turns ho (length_lt_of_parts ms memberText '\x7d') bs
    have hr := run_members_rest (fun k hk => h k (List.mem_cons_of_mem m hk)) hf hl bs
    rw [hn,memberText,Utf8.encode_append,List.append_assoc,run_members_first hm,hr]

theorem follows_tree {item : Reader Json} {m : String × Json} (h : Takes item m.2.chars m.2) :
    Follows (fun k ms => do colon; return (k,← item)::ms) (fun ms m => .ok (m::ms)) m := by
  intro ms ns hn bs hs
  cases hn
  rw [run_bind_ok (run_colon _ _),run_bind_ok (h.2 bs hs)]
  rfl

theorem foldlM_tree (ms ns : List (String × Json)) :
    ms.foldlM (fun ms m => .ok (m::ms)) ns = (.ok (ms.reverse++ns) : Except Fault _) := by
  induction ms generalizing ns with
  | nil => rfl
  | cons m ms ih =>
    rw [List.reverse_cons,List.append_assoc]
    exact ih (m::ns)

variable {inner : Option (Reader Json)}

/-- A word that stands for a value and is told by its first character. -/
theorem takes_word {c : Char} {cs : List Char} {j : Json} (hj : j.chars = c::cs)
    (hc : c.toNat ≤ 0x7f) (hs : isSpace (UInt8.ofNat c.toNat) = false) (hb : c ≠ ']')
    (hcs : cs.all (·.toNat ≤ 0x7f) = true)
    (hv : ∀ bs, StateT.run (valueOver inner) (UInt8.ofNat c.toNat::bs) =
      StateT.run (do advance; word cs; return j) (UInt8.ofNat c.toNat::bs)) :
    Takes (valueOver inner) j.chars j := by
  rw [hj]
  refine ⟨⟨c,cs,rfl,hc,hs,hb⟩,fun bs _ => ?_⟩
  rw [encode_ascii hc,hv,run_bind_ok (run_advance _ _),run_bind_ok (run_word hcs bs)]
  rfl

theorem takes_null : Takes (valueOver inner) Json.null.chars .null := by
  have hj : Json.null.chars = 'n' :: ['u','l','l'] := rfl
  refine takes_word hj (by decide) (by decide) (by decide) rfl fun bs => ?_
  rw [valueOver.eq_def,run_bind_ok (run_peekToken (by decide) (by decide) bs)]
  rfl

theorem takes_boolean (b : Bool) :
    Takes (valueOver inner) (Json.boolean b).chars (.boolean b) := by
  cases b with
  | true =>
    have hj : (Json.boolean true).chars = 't' :: ['r','u','e'] := rfl
    refine takes_word hj (by decide) (by decide) (by decide) rfl fun bs => ?_
    rw [valueOver.eq_def,run_bind_ok (run_peekToken (by decide) (by decide) bs)]
    rfl
  | false =>
    have hj : (Json.boolean false).chars = 'f' :: ['a','l','s','e'] := rfl
    refine takes_word hj (by decide) (by decide) (by decide) rfl fun bs => ?_
    rw [valueOver.eq_def,run_bind_ok (run_peekToken (by decide) (by decide) bs)]
    rfl

theorem takes_string (s : String) : Takes (valueOver inner) (Json.string s).chars (.string s) := by
  refine ⟨⟨'"',_,rfl,by decide,by decide,by decide⟩,fun bs _ => ?_⟩
  rw [Json.chars,Json.stringChars,List.cons_append,encode_ascii (by decide),valueOver.eq_def,
    run_bind_ok (run_peekToken (by decide) (by decide) _)]
  change StateT.run (do advance; return Json.string (← string)) _ = _
  rw [run_bind_ok (run_advance _ _),run_bind_ok (run_string s bs)]
  rfl

theorem isSpace_of_isDigit {c : Char} (h : c.isDigit = true) :
    isSpace (UInt8.ofNat c.toNat) = false := by
  have hc := toNat_of_isDigit h
  simp only [isSpace,← UInt8.toNat_inj,Utf8.toNat_ofNat (show c.toNat < 256 by omega)]
  simp
  omega

theorem opens_digit {c : Char} (h : c.isDigit = true) (cs : List Char) : Opens (c::cs) := by
  have hc := toNat_of_isDigit h
  exact ⟨c,cs,rfl,by omega,isSpace_of_isDigit h,by rintro rfl; exact absurd h (by decide)⟩

theorem run_valueOver_digit {c : Char} (h : c.isDigit = true) (cs : List Char)
    (bs : List UInt8) :
    StateT.run (valueOver inner) (Utf8.encode (c::cs)++bs) =
      StateT.run (do return Json.number (← number false)) (Utf8.encode (c::cs)++bs) := by
  have hc := toNat_of_isDigit h
  rw [encode_ascii (by omega),valueOver.eq_def,
    run_bind_ok (run_peekToken (by omega) (isSpace_of_isDigit h) _)]
  split <;> simp_all

theorem takes_number {n : Number} (h : n.Exact) :
    Takes (valueOver inner) (Json.number n).chars (.number n) := by
  obtain n | x := n
  · obtain ⟨hl,hh⟩ := h
    rw [Json.chars,Number.chars]
    by_cases hn : n < 0
    · rw [if_pos hn]
      refine ⟨⟨'-',_,rfl,by decide,by decide,by decide⟩,fun bs hs => ?_⟩
      have hr := run_negative (n := n.natAbs) (by omega) (by omega) hs
      have hv : -(n.natAbs : Int) = n := by omega
      rw [List.cons_append,List.nil_append,encode_ascii (by decide),valueOver.eq_def,
        run_bind_ok (run_peekToken (by decide) (by decide) _)]
      change StateT.run (do advance; return Json.number (← number true)) _ = _
      rw [run_bind_ok (run_advance _ _),run_bind_ok hr,hv]
      rfl
    · rw [if_neg hn,List.nil_append]
      obtain ⟨c,cs,hc⟩ := List.exists_cons_of_ne_nil (Decimal.digits_ne_nil n.natAbs)
      have hd : c.isDigit = true :=
        Decimal.isDigit_of_mem_digits (n := n.natAbs) (by rw [hc]; exact List.mem_cons_self)
      refine ⟨hc ▸ opens_digit hd cs,fun bs hs => ?_⟩
      have hr := run_natural (n := n.natAbs) (show _ < 0x10000000000000000 by omega) hs
      have hv : (n.natAbs : Int) = n := by omega
      rw [hc] at hr ⊢
      rw [run_valueOver_digit hd,run_bind_ok hr,hv]
      rfl
  · exact h.elim

theorem takes_list {item : Reader Json} {xs : List Json}
    (h : ∀ x ∈ xs, Takes item x.chars x) :
    Takes (valueOver (some item)) (Json.list xs).chars (.list xs) := by
  refine ⟨⟨'[',_,rfl,by decide,by decide,by decide⟩,fun bs _ => ?_⟩
  rw [Json.chars,List.cons_append,encode_ascii (by decide),valueOver.eq_def,
    run_bind_ok (run_peekToken (by decide) (by decide) _)]
  change StateT.run (do advance; return Json.list (← list item)) _ = _
  rw [run_bind_ok (run_advance _ _),run_bind_ok (run_list h bs)]
  rfl

theorem takes_object {item : Reader Json} {ms : List (String × Json)}
    (h : ∀ m ∈ ms, Takes item m.2.chars m.2) :
    Takes (valueOver (some item)) (Json.object ms).chars (.object ms) := by
  refine ⟨⟨'\x7b',_,rfl,by decide,by decide,by decide⟩,fun bs _ => ?_⟩
  rw [Json.chars,List.cons_append,encode_ascii (by decide),valueOver.eq_def,
    run_bind_ok (run_peekToken (by decide) (by decide) _)]
  change StateT.run (do
    advance
    let ns ← object (fun k ms => do colon; return (k,← item)::ms) []
    return Json.object ns.reverse) _ = _
  have hr := run_object (fun m hm => follows_tree (h m hm)) (foldlM_tree ms []) bs
  rw [run_bind_ok (run_advance _ _),run_bind_ok hr,List.append_nil,List.reverse_reverse]
  rfl

theorem value_eq (d : Nat) : ∃ inner, value d = valueOver inner := by
  cases d with
  | zero => exact ⟨_,rfl⟩
  | succ d => exact ⟨_,rfl⟩

/-- A tree that is not too deep and has only whole numbers is read back from its text. -/
theorem takes_value (j : Json) : ∀ {d : Nat}, j.depth ≤ d → (∀ n ∈ j.numbers, n.Exact) →
    Takes (value d) j.chars j := by
  induction j with
  | null =>
    intro d _ _
    obtain ⟨inner,hv⟩ := value_eq d
    rw [hv]
    exact takes_null
  | boolean b =>
    intro d _ _
    obtain ⟨inner,hv⟩ := value_eq d
    rw [hv]
    exact takes_boolean b
  | number n =>
    intro d _ hn
    obtain ⟨inner,hv⟩ := value_eq d
    rw [hv]
    exact takes_number (hn n (by simp [Json.numbers]))
  | string s =>
    intro d _ _
    obtain ⟨inner,hv⟩ := value_eq d
    rw [hv]
    exact takes_string s
  | list xs ih =>
    intro d hd hn
    obtain _ | d := d
    · simp [Json.depth] at hd
    rw [Json.depth_list_le_iff] at hd
    exact takes_list fun x hx => ih x hx (hd x hx) fun n h =>
      hn n (Json.mem_numbers_list_iff.mpr ⟨x,hx,h⟩)
  | object ms ih =>
    intro d hd hn
    obtain _ | d := d
    · simp [Json.depth] at hd
    rw [Json.depth_object_le_iff] at hd
    exact takes_object fun m hm => ih m hm (hd m hm) fun n h =>
      hn n (Json.mem_numbers_object_iff.mpr ⟨m,hm,h⟩)

end Reader
end PathVector
