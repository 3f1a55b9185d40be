import Mathlib.Logic.Relation
import SharedPlan.Proofs.Routing.Exact

/-!
# SharedPlan.Proofs.Routing.Delivery

Following the routing table.

A `RoutingTable.Hop` is one step of what the table says of an exit: from a waypoint to a key
of its fan-out for that exit.  In the table of an analysed graph hops lead up the
topological order, and from every waypoint that a stream passes but its exit there is a
next one, so they end at the exit and nowhere else (`stuck_iff`).  A `RoutingTable.Leg`
follows an exit to its end; from there any link of the query that leaves leads on, up
to the root (`no_leg_iff`).
-/

namespace SharedPlan

namespace RoutingTable

/-- One step towards an exit: a key of the fan-out for it. -/
def Hop (t : RoutingTable) (x : QueryExit) (m n : WaypointId) : Prop :=
  ∃ routes, t.fanOut m (.singleton x) = .ok routes ∧ n ∈ routes.keys

/-- A way of a query from one waypoint to another: a sequence of hops towards some exit
that leaves the first, followed until there is no next one. -/
def Leg (t : RoutingTable) (q : QueryId) (m n : WaypointId) : Prop :=
  ∃ x, (∃ n', t.Hop ⟨q, x⟩ m n') ∧ Relation.ReflTransGen (t.Hop ⟨q, x⟩) m n ∧
    ¬ ∃ n', t.Hop ⟨q, x⟩ n n'

/-- Following steps from a waypoint leads to another: it does not go on for ever, and it
stops there and nowhere else. -/
structure LeadsTo (R : WaypointId → WaypointId → Prop) (m e : WaypointId) : Prop where
  ends : ¬ ∃ f : Nat → WaypointId, f 0 = m ∧ ∀ i, R (f i) (f (i + 1))
  stops : ∀ n, Relation.ReflTransGen R m n → ((¬ ∃ n', R n n') ↔ n = e)

theorem hop_iff {t : RoutingTable} {x : QueryExit} {m n : WaypointId} :
    t.Hop x m n ↔ t.Carries m n x := by
  cases hm : t.nodes.get? m with
  | none => simp [Hop, Carries, fanOut, node, link?, hm, bind, Except.bind]
  | some links =>
      simp only [Hop, Carries, fanOut, node, link?, hm, bind, Except.bind, pure, Except.pure,
        Except.ok.injEq, exists_eq_left', OrdMap.mem_keys_iff, OrdMap.get?_filterMap,
        Option.bind_some]
      cases links.receivers.get? n with
      | none => simp
      | some exits =>
          have hempty : (exits ∩ OrdSet.singleton x).isEmpty = true ↔ x ∉ exits := by
            rw [OrdSet.isEmpty_iff]
            constructor
            · exact fun hno hx => hno x (by simp [hx])
            · intro hx a ha
              simp only [OrdSet.mem_inter, OrdSet.mem_singleton] at ha
              exact hx (ha.2 ▸ ha.1)
          by_cases hx : x ∈ exits <;> simp [hempty, hx]

end RoutingTable

namespace PlanGraph

variable {g h : PlanGraph} {active : QuerySet} {options : PlannerOptions}
  {report : AnalysisReport} {q : QueryId}

/-! ## Streams go up the order -/

section Order

variable {order : List WaypointId} (hg : g.WellFormed) (ho : g.topologicalOrder = .ok order)

include hg ho

theorem Feeds.idxOf_lt {m n y x : WaypointId} (h : g.Feeds q m n y x) :
    order.idxOf m < order.idxOf n := by
  obtain ⟨kind, hlink, -, ⟨v, hv, -⟩, ⟨w, hw, -⟩, -⟩ := h
  exact idxOf_lt_of_link hg ho (mem_ids_iff.2 ⟨v, hv⟩) (mem_ids_iff.2 ⟨w, hw⟩) hlink

/-- A stream passes nothing above its exit. -/
theorem Enters.idxOf_le_exit {n y : WaypointId} (h : g.Enters q n y) :
    order.idxOf n ≤ order.idxOf y := by
  induction h with
  | root _ _ _ => exact Nat.le_refl _
  | @feed m n y x _ hf ih =>
      have hlt := hf.idxOf_lt hg ho
      obtain ⟨kind, -, -, -, -, rfl⟩ := hf
      cases kind with
      | flowThrough => exact Nat.le_trans (Nat.le_of_lt hlt) ih
      | terminating => exact Nat.le_of_lt hlt

/-- No stream of a query passes anything above its root. -/
theorem Enters.idxOf_le_root {n y r : WaypointId} (hr : g.root? q = some r)
    (h : g.Enters q n y) : order.idxOf n ≤ order.idxOf r := by
  induction h with
  | root hr' _ _ =>
      obtain rfl := Option.some.inj (hr.symm.trans hr')
      exact Nat.le_refl _
  | feed _ hf ih => exact Nat.le_trans (Nat.le_of_lt (hf.idxOf_lt hg ho)) ih

end Order

/-- A stream ends at a waypoint that another stream of the query passes, or at the root. -/
theorem Enters.exit {n y : WaypointId} (h : g.Enters q n y) : ∃ z, g.Enters q y z := by
  induction h with
  | @root r _ hr hw hc => exact ⟨r, .root hr hw hc⟩
  | @feed m n y x hent hf ih =>
      obtain ⟨kind, -, -, -, -, rfl⟩ := hf
      cases kind with
      | flowThrough => exact ih
      | terminating => exact ⟨y, hent⟩

/-- What grows along every step and stays below a bound does not let steps go on for ever. -/
theorem not_exists_infinite {α : Type} {R : α → α → Prop} (rank : α → Nat) {bound : Nat}
    (hlt : ∀ a b, R a b → rank a < rank b) (hle : ∀ a, rank a ≤ bound) :
    ¬ ∃ f : Nat → α, ∀ i, R (f i) (f (i + 1)) := by
  rintro ⟨f, hf⟩
  have hge : ∀ i, i ≤ rank (f i) := by
    intro i
    induction i with
    | zero => exact Nat.zero_le _
    | succ i ih => exact Nat.lt_of_le_of_lt ih (hlt _ _ (hf i))
  have := hge (bound + 1)
  have := hle (f (bound + 1))
  omega

/-! ## Following an exit -/

section Table

variable {order : List WaypointId} (hg : g.WellFormed) (ho : g.topologicalOrder = .ok order)
  {t : RoutingTable} (ht : t.Holds g.ids (g.Streams active))

include ht

theorem hop_iff_streams {x : QueryExit} {m n : WaypointId} :
    t.Hop x m n ↔ g.Streams active m n x := by
  rw [RoutingTable.hop_iff, ht.carries]

/-- Whence an exit leaves, a stream passes that is on its way to it. -/
theorem enters_of_hop {e m n : WaypointId} (h : t.Hop ⟨q, e⟩ m n) : g.Enters q m e := by
  obtain ⟨-, y, hent, hf⟩ := (hop_iff_streams ht).1 h
  exact .feed hent hf

/-- Whither an exit leads, the stream ends or goes on. -/
theorem eq_or_enters_of_hop {e m n : WaypointId} (h : t.Hop ⟨q, e⟩ m n) :
    n = e ∨ g.Enters q n e := by
  obtain ⟨-, y, hent, kind, -, -, -, -, hx⟩ := (hop_iff_streams ht).1 h
  cases kind with
  | flowThrough =>
      have hx : e = y := hx
      exact .inr (hx ▸ hent)
  | terminating =>
      have hx : e = n := hx
      exact .inl hx.symm

/-- A stream that has not reached its exit has a next hop. -/
theorem exists_hop (hq : q ∈ active.toList) {n e : WaypointId} (h : g.Enters q n e)
    (hne : n ≠ e) : ∃ n', t.Hop ⟨q, e⟩ n n' := by
  cases h with
  | root _ _ _ => exact absurd rfl hne
  | @feed _ n' y _ hent hf => exact ⟨n', (hop_iff_streams ht).2 ⟨hq, y, hent, hf⟩⟩

/-- A stream can be followed to its exit. -/
theorem reaches_exit (hq : q ∈ active.toList) {n e : WaypointId} (h : g.Enters q n e) :
    Relation.ReflTransGen (t.Hop ⟨q, e⟩) n e := by
  induction h with
  | root _ _ _ => exact .refl
  | @feed m n y x hent hf ih =>
      have hop : t.Hop ⟨q, x⟩ m n := (hop_iff_streams ht).2 ⟨hq, y, hent, hf⟩
      obtain ⟨kind, -, -, -, -, rfl⟩ := hf
      cases kind with
      | flowThrough => exact .head hop ih
      | terminating => exact .single hop

include hg ho

theorem idxOf_lt_of_hop {x : QueryExit} {m n : WaypointId} (h : t.Hop x m n) :
    order.idxOf m < order.idxOf n := by
  obtain ⟨-, y, -, hf⟩ := (hop_iff_streams ht).1 h
  exact hf.idxOf_lt hg ho

/-- Nothing leaves an exit on the way to itself. -/
theorem no_hop_at_exit {e : WaypointId} : ¬ ∃ n, t.Hop ⟨q, e⟩ e n := by
  rintro ⟨n, h⟩
  have hlt := idxOf_lt_of_hop hg ho ht h
  rcases eq_or_enters_of_hop ht h with rfl | hent
  · omega
  · have := hent.idxOf_le_exit hg ho
    omega

/-- **Hops end at the exit and nowhere else**, and every waypoint on the way takes part
in the query. -/
theorem stuck_iff {e n₀ n₁ n : WaypointId} (hfirst : t.Hop ⟨q, e⟩ n₀ n₁)
    (hn : Relation.ReflTransGen (t.Hop ⟨q, e⟩) n₀ n) :
    (∃ w, g.find? n = some w ∧ w.covers q = true) ∧ ((¬ ∃ n', t.Hop ⟨q, e⟩ n n') ↔ n = e) := by
  have hq : q ∈ active.toList := ((hop_iff_streams ht).1 hfirst).1
  have hway : n = e ∨ g.Enters q n e := by
    rcases Relation.ReflTransGen.cases_tail hn with rfl | ⟨m, -, hlast⟩
    · exact .inr (enters_of_hop ht hfirst)
    · exact eq_or_enters_of_hop ht hlast
  constructor
  · rcases hway with rfl | hent
    · obtain ⟨z, hz⟩ := (enters_of_hop ht hfirst).exit
      exact hz.covers
    · exact hent.covers
  · constructor
    · intro hstuck
      rcases hway with heq | hent
      · exact heq
      · exact Classical.byContradiction fun hne => hstuck (exists_hop ht hq hent hne)
    · rintro rfl
      exact no_hop_at_exit hg ho ht

/-! ## From exit to exit -/

theorem idxOf_le_of_hops {x : QueryExit} {m n : WaypointId}
    (h : Relation.ReflTransGen (t.Hop x) m n) : order.idxOf m ≤ order.idxOf n := by
  induction h with
  | refl => exact Nat.le_refl _
  | tail _ hlast ih => exact Nat.le_trans ih (Nat.le_of_lt (idxOf_lt_of_hop hg ho ht hlast))

/-- A leg ends at the exit that it follows, where other streams of the query pass. -/
theorem enters_of_leg {m n : WaypointId} (h : t.Leg q m n) : ∃ y, g.Enters q n y := by
  obtain ⟨x, ⟨n₁, hfirst⟩, hway, hstuck⟩ := h
  obtain rfl := (stuck_iff hg ho ht hfirst hway).2.1 hstuck
  exact (enters_of_hop ht hfirst).exit

theorem idxOf_lt_of_leg {m n : WaypointId} (h : t.Leg q m n) :
    order.idxOf m < order.idxOf n := by
  obtain ⟨x, ⟨n₁, hfirst⟩, hway, hstuck⟩ := h
  rcases Relation.ReflTransGen.cases_head hway with rfl | ⟨n₂, hnext, hrest⟩
  · exact absurd ⟨n₁, hfirst⟩ hstuck
  · exact Nat.lt_of_lt_of_le (idxOf_lt_of_hop hg ho ht hnext) (idxOf_le_of_hops hg ho ht hrest)

/-- Legs end at the root and nowhere else. -/
theorem no_leg_iff {r n y : WaypointId} (hq : q ∈ active.toList) (hr : g.root? q = some r)
    (hn : g.Enters q n y) : (¬ ∃ n', t.Leg q n n') ↔ n = r := by
  constructor
  · intro hstuck
    cases hn with
    | root hr' _ _ => exact Option.some.inj (hr'.symm.trans hr)
    | @feed _ n₁ z _ hent hf =>
        refine absurd ⟨y, y, ⟨n₁, (hop_iff_streams ht).2 ⟨hq, z, hent, hf⟩⟩, ?_,
          no_hop_at_exit hg ho ht⟩ hstuck
        exact reaches_exit ht hq (.feed hent hf)
  · rintro rfl ⟨n', hleg⟩
    obtain ⟨z, hz⟩ := enters_of_leg hg ho ht hleg
    have hlt := idxOf_lt_of_leg hg ho ht hleg
    have hle := hz.idxOf_le_root hg ho hr
    omega

theorem exists_enters_of_legs {m n y : WaypointId} (hm : g.Enters q m y)
    (h : Relation.ReflTransGen (t.Leg q) m n) : ∃ z, g.Enters q n z := by
  rcases Relation.ReflTransGen.cases_tail h with rfl | ⟨_, -, hlast⟩
  · exact ⟨y, hm⟩
  · exact enters_of_leg hg ho ht hlast

end Table

/-! ## Delivery -/

/-- **Delivery.**  In the table after a successful analysis, whoever follows an exit of a
query from a waypoint that it leaves comes to the exit after finitely many hops,
whichever way is taken, and meets none but waypoints that take part in the query.  Going
on like this from exit to exit, a stream comes to the root of its query from wherever the
demand walk has been. -/
theorem routing_delivers (hg : g.Reachable)
    (ha : (analyze active options).outcome g = (.ok report, h)) :
    ∃ t, h.routing = .ok t ∧
      (∀ q e n₀, (∃ n₁, t.Hop ⟨q, e⟩ n₀ n₁) →
        RoutingTable.LeadsTo (t.Hop ⟨q, e⟩) n₀ e ∧
          ∀ n, Relation.ReflTransGen (t.Hop ⟨q, e⟩) n₀ n →
            ∃ w, g.find? n = some w ∧ w.covers q = true) ∧
      ∀ q n, g.DemandEnters active options q n →
        ∃ r, g.root? q = some r ∧ RoutingTable.LeadsTo (t.Leg q) n r := by
  have hwf := hg.wellFormed
  obtain ⟨t, hrouting, ht⟩ := exists_routing_of_analyze hwf ha
  obtain ⟨order, ho, -, -, -, -⟩ := exists_run_of_analyze hwf ha
  have hrank (n : WaypointId) : order.idxOf n ≤ order.length := List.idxOf_le_length
  refine ⟨t, hrouting, ?_, ?_⟩
  · rintro q e n₀ ⟨n₁, hfirst⟩
    refine ⟨⟨?_, fun n hn => (stuck_iff hwf ho ht hfirst hn).2⟩,
      fun n hn => (stuck_iff hwf ho ht hfirst hn).1⟩
    rintro ⟨f, -, hf⟩
    exact not_exists_infinite order.idxOf (fun _ _ => idxOf_lt_of_hop hwf ho ht) hrank ⟨f, hf⟩
  · intro q n hn
    obtain ⟨hq, ⟨r, hr⟩, y, hent⟩ := hn.enters hwf
    refine ⟨r, hr, ?_, fun n' hn' => ?_⟩
    · rintro ⟨f, -, hf⟩
      exact not_exists_infinite order.idxOf (fun _ _ => idxOf_lt_of_leg hwf ho ht) hrank ⟨f, hf⟩
    · obtain ⟨z, hz⟩ := exists_enters_of_legs hwf ho ht hent hn'
      exact no_leg_iff hwf ho ht hq hr hz

/-- On a line with a filter, what is followed from the scan comes to the print. -/
theorem routing_delivers_line :
    ∃ t, ((analyze (.singleton ⟨0⟩) ⟨64, true, true, 10⟩).outcome
        (line.along ⟨0⟩ (.filter (.singleton ⟨0⟩)))).2.routing = .ok t ∧
      (∀ q e n₀, (∃ n₁, t.Hop ⟨q, e⟩ n₀ n₁) →
        RoutingTable.LeadsTo (t.Hop ⟨q, e⟩) n₀ e ∧
          ∀ n, Relation.ReflTransGen (t.Hop ⟨q, e⟩) n₀ n →
            ∃ w, (line.along ⟨0⟩ (.filter (.singleton ⟨0⟩))).find? n = some w ∧
              w.covers q = true) ∧
      ∀ q n, (line.along ⟨0⟩ (.filter (.singleton ⟨0⟩))).DemandEnters (.singleton ⟨0⟩)
          ⟨64, true, true, 10⟩ q n →
        ∃ r, (line.along ⟨0⟩ (.filter (.singleton ⟨0⟩))).root? q = some r ∧
          RoutingTable.LeadsTo (t.Leg q) n r := by
  have ha : ((analyze (.singleton ⟨0⟩) ⟨64, true, true, 10⟩).outcome
      (line.along ⟨0⟩ (.filter (.singleton ⟨0⟩)))).1 =
        .ok ⟨[⟨2⟩, ⟨3⟩, ⟨4⟩], (∅ : OrdMap QueryId Nat).insert ⟨0⟩ 3, []⟩ := by
    decide +kernel
  exact routing_delivers (line_reachable.along _ _) (Attempt.eq_of_ok ha)

end PlanGraph

end SharedPlan
