import PathVector.Proofs.Run

/-! When handling fails. However a router was brought to its state, only a stranger can make it fail;
and whatever state it is in, a failure changes nothing and sends nothing. -/
namespace PathVector
namespace Router

/-- A router that was started empty keeps its routes and its records of withdrawals among its
neighbors and never changes a relationship. It therefore refuses a message exactly if the sender is
no neighbor and the kind needs one. Refused messages leave no trace, even in a router whose table
was filled with next hops that are no neighbors. -/
theorem failure_iff_stranger (asn : UInt32) (ops : List Operation) :
    let r := Router.after { asn } ops
    r.Closed ∧
    (∀ n s, r.relationship n = .ok s →
      (∀ more, (r.after more).relationship n = .ok s) ∧
      ∀ t, r.addNeighbor n t = { router := r, error := some (.neighborExists n) }) ∧
    (∀ faults sender e error, (r.handle faults sender e).error = some error ↔
      ¬ r.neighbors.contains sender = true ∧ e.kind.needsNeighbor = true ∧
        error = .unknownNeighbor sender) ∧
    ∀ (q : Router) faults sender e error, (q.handle faults sender e).error = some error →
      (q.handle faults sender e).router = q ∧
        (q.handle faults sender e).actions.filterMap Action.attempt? = [] := by
  intro r
  have hr : r.Closed := (closed_start asn).after ops
  refine ⟨hr,fun n s hn => ⟨relationship_after hn,fun t => ?_⟩,fun faults sender e error => ?_,
    fun q faults sender e error he => ⟨router_of_error he,attempts_of_error he⟩⟩
  · exact addNeighbor_of_contains (Table.contains_iff.mpr ⟨s,relationship_eq_ok_iff.mp hn⟩) t
  · rw [hr.error_handle]
    split
    · rename_i h
      simp [h,eq_comm]
    · rename_i h
      simp only [false_iff,reduceCtorEq]
      exact fun hc => h ⟨hc.1,hc.2.1⟩

private def customer : Address := .ofOctets 10 0 0 2

private def stranger : Address := .ofOctets 10 9 9 9

/-- A router with one neighbor and one route, which leads elsewhere. -/
private def misled : Router where
  asn := 1
  db := Database.insert {}
    ⟨⟨.ofOctets 10 0 0 0,.ofLength 8⟩,⟨[],100,false,.unknown⟩⟩ stranger
  neighbors := Table.empty.insert customer .customer

/-- Data for the network of the misleading route fails on the next hop and is not sent; a neighbor
cannot be added twice. -/
theorem failure_of_misled :
    let o := misled.handle (fun _ _ => none) customer
      ⟨customer,.ofOctets 10 1 1 1,.data .null⟩
    let r := after { asn := 1 } [.add customer .customer]
    o.error = some (.unknownNeighbor stranger) ∧ o.router = misled ∧
      o.actions.filterMap Action.attempt? = [] ∧ r.relationship customer = .ok .customer ∧
      r.addNeighbor customer .peer = { router := r, error := some (.neighborExists customer) } := by
  have ho : (misled.handle (fun _ _ => none) customer
      ⟨customer,.ofOctets 10 1 1 1,.data .null⟩).error = some (.unknownNeighbor stranger) := by
    decide
  have hr : (after { asn := 1 } [.add customer .customer]).relationship customer =
      .ok .customer := rfl
  obtain ⟨-,hn,-,hf⟩ := failure_iff_stranger 1 [.add customer .customer]
  have hf := hf misled _ _ _ _ ho
  exact ⟨ho,hf.1,hf.2,hr,(hn _ _ hr).2 .peer⟩

end Router
end PathVector
