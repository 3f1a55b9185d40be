import SharedPlan.Proofs.Routing.Replay

/-!
# SharedPlan.Proofs.Routing.Mirrored

The two indexes of a routing table.

A link is stored with its receiver under the sender and with its sender under the receiver, and
`Growth.inPlace` writes the two one after the other into the table, where the second may fail
after the first.  It never does: a call in place comes to the same as `RoutingTable.addNode`
and `RoutingTable.addLink` (`outcome_inPlace`), so what was grown is stored alike at both
ends (`RoutingTable.indexes_agree`), and looking along links finds what looking against
them finds.
-/

namespace SharedPlan

namespace RoutingTable

variable {t : RoutingTable} {ids : List WaypointId}
  {C : WaypointId → WaypointId → QueryExit → Prop} {n r : WaypointId} {x : QueryExit}

/-! ## Growing in place -/

/-- Change the links at a listed waypoint. -/
def onNode (id : WaypointId) (f : NodeLinks → NodeLinks) : Attempt RoutingTable Unit :=
  .update fun t => do
    let links ← t.node id
    return ⟨t.nodes.insert id (f links)⟩

/-- A call carried out in place, one change after another: whatever was changed before
something fails stays changed. -/
def Growth.inPlace : Growth → Attempt RoutingTable Unit
  | node id => do
    if (← get).contains id then throw (.duplicateWaypoint id.text)
    modify fun t => ⟨t.nodes.insert id ⟨∅, ∅⟩⟩
  | link sender receiver exit => do
    if !(← get).contains receiver then throw (.unknownId receiver)
    onNode sender fun links => { links with receivers := addExit links.receivers receiver exit }
    onNode receiver fun links => { links with senders := addExit links.senders sender exit }

/-- The table that a call answers, if it succeeds. -/
def Growth.answer : Growth → RoutingTable → Except PlanError RoutingTable
  | node id, t => t.addNode id
  | link sender receiver exit, t => t.addLink sender receiver exit

/-- The table after a sequence of calls in place. -/
def grownInPlace (calls : List Growth) : RoutingTable :=
  calls.foldl (fun t c => (c.inPlace.outcome t).2) empty

theorem node_eq_ok_iff {links : NodeLinks} :
    t.node n = .ok links ↔ t.nodes.get? n = some links := by
  unfold node
  cases t.nodes.get? n <;> simp

theorem contains_iff : t.contains n = true ↔ ∃ links, t.nodes.get? n = some links :=
  Option.isSome_iff_exists

theorem outcome_onNode {links : NodeLinks} (h : t.nodes.get? n = some links)
    (f : NodeLinks → NodeLinks) :
    (onNode n f).outcome t = (.ok (), ⟨t.nodes.insert n (f links)⟩) := by
  rw [onNode, Attempt.outcome_update, node_eq_ok_iff.2 h]
  rfl

theorem outcome_onNode_of_eq_none (h : t.nodes.get? n = none) (f : NodeLinks → NodeLinks) :
    (onNode n f).outcome t = (.error (.unknownId n), t) := by
  rw [onNode, Attempt.outcome_update, node, h]
  rfl

/-- **A call in place** comes to the same: nothing is left behind half stored. -/
theorem outcome_inPlace (c : Growth) (t : RoutingTable) :
    c.inPlace.outcome t = (Attempt.update c.answer).outcome t := by
  cases c with
  | node id =>
      rw [Attempt.outcome_update, Growth.answer, addNode]
      cases hid : t.contains id <;>
        simp [Growth.inPlace, Attempt.outcome_bind, hid]
  | link sender receiver exit =>
      rw [Attempt.outcome_update, Growth.answer, addLink, Growth.inPlace, Attempt.outcome_bind,
        Attempt.outcome_get]
      cases hr : t.nodes.get? receiver with
      | none =>
          have hno : t.contains receiver = false := by simp [contains, OrdMap.contains, hr]
          simp [hno]
      | some into =>
          have hreceiver : t.contains receiver = true := contains_iff.2 ⟨into, hr⟩
          cases hs : t.nodes.get? sender with
          | none =>
              have hno : t.contains sender = false := by simp [contains, OrdMap.contains, hs]
              simp [hreceiver, hno, Attempt.outcome_bind, outcome_onNode_of_eq_none hs]
          | some out =>
              have hsender : t.contains sender = true := contains_iff.2 ⟨out, hs⟩
              -- the receiver is listed still, whether or not the sender is the same waypoint
              obtain ⟨links, hlinks⟩ : ∃ links, OrdMap.get? (t.nodes.insert sender
                  { out with receivers := addExit out.receivers receiver exit }) receiver =
                    some links := by
                rw [OrdMap.get?_insert]
                split
                · exact ⟨_, rfl⟩
                · exact ⟨into, hr⟩
              simp only [hreceiver, hsender, Bool.not_true, Bool.false_eq_true, if_false,
                Attempt.outcome_bind, outcome_onNode hs, OrdMap.alter, hs, hlinks, Option.getD_some]
              exact outcome_onNode hlinks _

theorem grownInPlace_eq (calls : List Growth) : grownInPlace calls = grown calls := by
  have hstep (t : RoutingTable) (c : Growth) : (c.inPlace.outcome t).2 = t.grow c := by
    rw [outcome_inPlace, Attempt.outcome_update]
    cases c with
    | node id =>
        rw [Growth.answer, grow]
        cases t.addNode id <;> rfl
    | link sender receiver exit =>
        rw [Growth.answer, grow]
        cases t.addLink sender receiver exit <;> rfl
  simp only [grownInPlace, grown, hstep]

/-! ## Looking along and against links -/

/-- Both ends of a link that is stored are listed. -/
theorem Holds.contains_of_link? (h : t.Holds ids C) {exits : ExitSet}
    (hl : t.link? n r = some exits) : t.contains n = true ∧ t.contains r = true := by
  have hinto : t.linkInto? n r = some exits := (h.mirrored n r).trans hl
  obtain ⟨out, hout, -⟩ := Option.bind_eq_some_iff.1 hl
  obtain ⟨into, hr, -⟩ := Option.bind_eq_some_iff.1 hinto
  exact ⟨contains_iff.2 ⟨out, hout⟩, contains_iff.2 ⟨into, hr⟩⟩

/-- What a link shares with a set of destinations, where it shares something. -/
def shared (link : Option ExitSet) (destinations : ExitSet) : Option ExitSet :=
  (link.map (· ∩ destinations)).filter (!·.isEmpty)

theorem shared_eq_some_iff {link : Option ExitSet} {destinations s : ExitSet} :
    shared link destinations = some s ↔ ∃ exits, link = some exits ∧
      (∃ x, x ∈ exits ∧ x ∈ destinations) ∧ s = exits ∩ destinations := by
  have hmeet (exits : ExitSet) : (!(exits ∩ destinations).isEmpty) = true ↔
      ∃ x, x ∈ exits ∧ x ∈ destinations := by
    rw [Bool.not_eq_true', ← Bool.not_eq_true, OrdSet.isEmpty_iff]
    push Not
    simp only [OrdSet.mem_inter]
  cases link with
  | none => simp [shared]
  | some exits =>
      simp only [shared, Option.map_some, Option.filter_eq_some_iff, Option.some.injEq,
        exists_eq_left']
      constructor
      · rintro ⟨rfl, hs⟩
        exact ⟨(hmeet exits).1 hs, rfl⟩
      · rintro ⟨hx, rfl⟩
        exact ⟨rfl, (hmeet exits).2 hx⟩

theorem shared_singleton_isSome_iff {link : Option ExitSet} :
    (shared link (.singleton x)).isSome = true ↔ ∃ exits, link = some exits ∧ x ∈ exits := by
  rw [Option.isSome_iff_exists]
  simp only [shared_eq_some_iff, OrdSet.mem_singleton, exists_eq_right]
  constructor
  · rintro ⟨-, exits, hexits, hx, -⟩
    exact ⟨exits, hexits, hx⟩
  · rintro ⟨exits, hexits, hx⟩
    exact ⟨_, exits, hexits, hx, rfl⟩

/-- A union is empty where both of its parts are. -/
theorem filter_union (s t : ExitSet) :
    Option.filter (!·.isEmpty) (some (s ∪ t)) = Option.merge (· ∪ ·)
      (Option.filter (!·.isEmpty) (some s)) (Option.filter (!·.isEmpty) (some t)) := by
  have hnil {u : ExitSet} (hu : u.isEmpty = true) : ∀ x, x ∉ u := OrdSet.isEmpty_iff.1 hu
  have hboth : (s ∪ t).isEmpty = (s.isEmpty && t.isEmpty) := by
    rw [Bool.eq_iff_iff, Bool.and_eq_true]
    simp only [OrdSet.isEmpty_iff, OrdSet.mem_union, not_or, forall_and]
  cases hs : s.isEmpty <;> cases ht : t.isEmpty <;>
    simp only [Option.filter, hboth, hs, ht, Bool.and_false, Bool.and_true, Bool.not_false,
      Bool.not_true, Bool.false_eq_true, if_true, if_false, Option.merge]
  · exact congrArg some (OrdSet.ext fun x => by simp [hnil ht x])
  · exact congrArg some (OrdSet.ext fun x => by simp [hnil hs x])

theorem shared_union (link : Option ExitSet) (D₁ D₂ : ExitSet) :
    shared link (D₁ ∪ D₂) = Option.merge (· ∪ ·) (shared link D₁) (shared link D₂) := by
  cases link with
  | none => rfl
  | some exits =>
      have hsplit : exits ∩ (D₁ ∪ D₂) = (exits ∩ D₁) ∪ (exits ∩ D₂) :=
        OrdSet.ext fun x => by simp [and_or_left]
      rw [shared, Option.map_some, hsplit, filter_union]
      rfl

/-- The fan-out has what the links share with the destinations. -/
theorem exists_fanOut (hn : t.contains n = true) (destinations : ExitSet) :
    ∃ routes, t.fanOut n destinations = .ok routes ∧
      ∀ r, routes.get? r = shared (t.link? n r) destinations := by
  obtain ⟨links, hlinks⟩ := contains_iff.1 hn
  refine ⟨_, by rw [fanOut, node_eq_ok_iff.2 hlinks]; rfl, fun r => ?_⟩
  rw [OrdMap.get?_filterMap, link?, hlinks, Option.bind_some]
  cases links.receivers.get? r with
  | none => rfl
  | some exits =>
      cases hempty : (exits ∩ destinations).isEmpty <;> simp [shared, Option.filter, hempty]

/-- The carriers of an exit are the senders that store it. -/
theorem exists_carriers (hr : t.contains r = true) (x : QueryExit) :
    ∃ senders, t.carriers r x = .ok senders ∧
      ∀ m, m ∈ senders ↔ ∃ exits, t.linkInto? m r = some exits ∧ x ∈ exits := by
  obtain ⟨links, hlinks⟩ := contains_iff.1 hr
  refine ⟨_, by rw [carriers, node_eq_ok_iff.2 hlinks]; rfl, fun m => ?_⟩
  rw [OrdMap.mem_keys_iff, OrdMap.get?_filter, linkInto?, hlinks, Option.bind_some]
  cases links.senders.get? m with
  | none => simp
  | some exits => by_cases hx : x ∈ exits <;> simp [Option.filter, hx]

/-- **The two indexes agree.**  After every sequence of calls in place, a link is stored alike
at both of its ends, which are listed, and with an exit.  So the fan-out at a listed waypoint
is what its links share with the destinations, it is found against the links as along them,
and it is united with the destinations. -/
theorem indexes_agree (calls : List Growth) :
    let t := grownInPlace calls
    t = grown calls ∧
      (∀ (c : Growth) e s, c.inPlace.outcome t = (.error e, s) → s = t ∧ c.answer t = .error e) ∧
      (∀ m r, t.linkInto? m r = t.link? m r) ∧
      (∀ m r exits, t.link? m r = some exits →
        exits.isEmpty = false ∧ t.contains m = true ∧ t.contains r = true) ∧
      ∀ n, t.contains n = true →
        (∀ D, ∃ routes, t.fanOut n D = .ok routes ∧ ∀ r s, routes.get? r = some s ↔
          ∃ exits, t.link? n r = some exits ∧ (∃ x, x ∈ exits ∧ x ∈ D) ∧ s = exits ∩ D) ∧
        (∀ x r, t.contains r = true → ∃ routes senders,
          t.fanOut n (.singleton x) = .ok routes ∧ t.carriers r x = .ok senders ∧
            (r ∈ routes.keys ↔ n ∈ senders)) ∧
        ∀ D₁ D₂, ∃ both one two, t.fanOut n (D₁ ∪ D₂) = .ok both ∧
          t.fanOut n D₁ = .ok one ∧ t.fanOut n D₂ = .ok two ∧
            ∀ r, both.get? r = Option.merge (· ∪ ·) (one.get? r) (two.get? r) := by
  intro t
  obtain ⟨ids, C, h⟩ := exists_holds_grown calls
  rw [← grownInPlace_eq calls] at h
  refine ⟨grownInPlace_eq calls, fun c e s hc => ?_, h.mirrored,
    fun m r exits hl => ⟨?_, h.contains_of_link? hl⟩,
    fun n hn => ⟨fun D => ?_, fun x r hr => ?_, fun D₁ D₂ => ?_⟩⟩
  · rw [outcome_inPlace, Attempt.outcome_update] at hc
    split at hc
    · cases hc
    · rename_i hanswer
      cases hc
      exact ⟨rfl, hanswer⟩
  · obtain ⟨x, hx⟩ := h.inhabited m r exits hl
    exact Bool.eq_false_iff.2 fun hempty => OrdSet.isEmpty_iff.1 hempty x hx
  · obtain ⟨routes, hroutes, hget⟩ := exists_fanOut hn D
    exact ⟨routes, hroutes, fun r s => by rw [hget, shared_eq_some_iff]⟩
  · obtain ⟨routes, hroutes, hget⟩ := exists_fanOut hn (.singleton x)
    obtain ⟨senders, hsenders, hmem⟩ := exists_carriers hr x
    refine ⟨routes, senders, hroutes, hsenders, ?_⟩
    rw [OrdMap.mem_keys_iff, hget, shared_singleton_isSome_iff, hmem, h.mirrored]
  · obtain ⟨both, hboth, hget⟩ := exists_fanOut hn (D₁ ∪ D₂)
    obtain ⟨one, hone, hget₁⟩ := exists_fanOut hn D₁
    obtain ⟨two, htwo, hget₂⟩ := exists_fanOut hn D₂
    exact ⟨both, one, two, hboth, hone, htwo, fun r => by rw [hget, hget₁, hget₂, shared_union]⟩

/-- Growth with two links that cross at a waypoint, a link of that waypoint to itself, and two
calls that fail. -/
def crossing : List Growth :=
  [.node ⟨2⟩, .node ⟨3⟩, .node ⟨4⟩, .link ⟨2⟩ ⟨3⟩ ⟨⟨0⟩, ⟨4⟩⟩, .link ⟨2⟩ ⟨3⟩ ⟨⟨1⟩, ⟨5⟩⟩,
    .link ⟨2⟩ ⟨42⟩ ⟨⟨0⟩, ⟨4⟩⟩, .link ⟨3⟩ ⟨3⟩ ⟨⟨1⟩, ⟨5⟩⟩, .node ⟨3⟩, .link ⟨3⟩ ⟨4⟩ ⟨⟨0⟩, ⟨4⟩⟩]

/-- An exit is carried to the waypoint by its link to itself and by one that arrives. -/
theorem indexes_agree_crossing :
    let t := grownInPlace crossing
    (∃ s, (Growth.inPlace (.link ⟨42⟩ ⟨3⟩ ⟨⟨0⟩, ⟨4⟩⟩)).outcome t = (.error (.unknownId ⟨42⟩), s) ∧
        s = t) ∧
      (∃ exits, t.link? ⟨3⟩ ⟨3⟩ = some exits ∧ exits.isEmpty = false) ∧
      ∀ n ∈ [(⟨2⟩ : WaypointId), ⟨3⟩], ∃ routes senders,
        t.fanOut n (.singleton ⟨⟨1⟩, ⟨5⟩⟩) = .ok routes ∧
          t.carriers ⟨3⟩ ⟨⟨1⟩, ⟨5⟩⟩ = .ok senders ∧ ⟨3⟩ ∈ routes.keys ∧ n ∈ senders := by
  intro t
  obtain ⟨-, hfail, -, hstored, hlisted⟩ := indexes_agree crossing
  have hthree : t.contains ⟨3⟩ = true := by decide +kernel
  have hself : t.link? ⟨3⟩ ⟨3⟩ = some (.singleton ⟨⟨1⟩, ⟨5⟩⟩) := by decide +kernel
  have hrefused : ((Growth.inPlace (.link ⟨42⟩ ⟨3⟩ ⟨⟨0⟩, ⟨4⟩⟩)).outcome t).1 =
      .error (.unknownId ⟨42⟩) := by decide +kernel
  refine ⟨⟨_, Prod.ext hrefused rfl, (hfail _ _ _ (Prod.ext hrefused rfl)).1⟩,
    ⟨_, hself, (hstored _ _ _ hself).1⟩, fun n hn => ?_⟩
  have hknown : t.contains n = true := by revert n; decide +kernel
  obtain ⟨routes, senders, hroutes, hsenders, hiff⟩ := (hlisted n hknown).2.1 ⟨⟨1⟩, ⟨5⟩⟩ ⟨3⟩ hthree
  have hmem : ∀ s, t.carriers ⟨3⟩ ⟨⟨1⟩, ⟨5⟩⟩ = .ok s → n ∈ s := by
    have hs : t.carriers ⟨3⟩ ⟨⟨1⟩, ⟨5⟩⟩ = .ok [⟨2⟩, ⟨3⟩] := by decide +kernel
    intro s h
    cases hs.symm.trans h
    exact hn
  exact ⟨routes, senders, hroutes, hsenders, hiff.2 (hmem _ hsenders), hmem _ hsenders⟩

end RoutingTable

end SharedPlan
