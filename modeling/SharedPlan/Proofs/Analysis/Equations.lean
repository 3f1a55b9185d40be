import SharedPlan.Proofs.Analysis.Settled
import SharedPlan.Proofs.Waypoint.Equations

/-!
# SharedPlan.Proofs.Analysis.Equations

The bottom-up pass solves the flow equations.

`PlanGraph.Solves` puts the equations of every waypoint together: what arrives there is
what the waypoints emit that have an edge to it.  On an acyclic graph they have one
solution, since what arrives is told by what is emitted below (`Solves.unique`), and the
fields that the pass leaves are one (`solves_supplied`).  So the pass comes to the same
along every order in which edges lead forward, and it succeeds exactly when the solution
gives every waypoint what it must have (`supplyPass_solves`).
-/

namespace SharedPlan

namespace PlanGraph

/-- A query that is registered at a waypoint and active. -/
structure TakesPart (g : PlanGraph) (active : QuerySet) (q : QueryId) (n : WaypointId)
    (w : Waypoint) : Prop where
  found : g.find? n = some w
  covers : w.covers q = true
  active : q ∈ active.toList

/-- An attribute arrives over an input edge of a waypoint, in its stream or beside it. -/
def Arrives (g : PlanGraph) (σ : WaypointId → QueryId → Supply) (n : WaypointId) (w : Waypoint)
    (aside : Bool) (q : QueryId) (x : SlotId) : Prop :=
  ∃ m kind, ⟨m, n, kind⟩ ∈ g.edges ∧ w.setsAside kind = aside ∧ x ∈ (σ m q).produced

/-- The flow equations. -/
structure Solves (g : PlanGraph) (active : QuerySet) (σ : WaypointId → QueryId → Supply) :
    Prop where
  down : ∀ {n w q}, g.TakesPart active q n w →
    ∀ x, x ∈ (σ n q).down ↔ g.Arrives σ n w false q x
  side : ∀ {n w q}, g.TakesPart active q n w →
    ∀ x, x ∈ (σ n q).side ↔ g.Arrives σ n w true q x
  produced : ∀ {n w q}, g.TakesPart active q n w → (σ n q).produced = w.emits q (σ n q)
  /-- Nothing flows where a query is not registered or not active. -/
  outside : ∀ {n q}, (∀ w, ¬g.TakesPart active q n w) → σ n q = .none

/-- What the waypoints of a graph got and gave, as their fields hold it. -/
def supply (g : PlanGraph) (n : WaypointId) (q : QueryId) : Supply :=
  ((g.find? n).map (·.supply q)).getD .none

variable {g : PlanGraph} {active : QuerySet} {q : QueryId} {n : WaypointId}
  {σ τ : WaypointId → QueryId → Supply}

theorem supply_of_find? {w : Waypoint} (hw : g.find? n = some w) : g.supply n q = w.supply q := by
  rw [supply, hw]
  rfl

/-- What registration wrote tells over which edges an attribute arrives where. -/
theorem arrives_congr {v w : Waypoint} (h : v.unsupplied = w.unsupplied) {aside : Bool}
    {x : SlotId} : g.Arrives σ n v aside q x ↔ g.Arrives σ n w aside q x := by
  have hsetsAside (kind : EdgeKind) : v.setsAside kind = w.setsAside kind := by
    rw [← Waypoint.setsAside_unsupplied, h, Waypoint.setsAside_unsupplied]
  simp only [Arrives, hsetsAside]

theorem covers_eq {v w : Waypoint} (h : v.unsupplied = w.unsupplied) : w.covers q = v.covers q := by
  rw [← Waypoint.covers_unsupplied, ← h, Waypoint.covers_unsupplied]

/-! ## One solution -/

theorem Solves.unique (ha : g.Acyclic) (hσ : g.Solves active σ) (hτ : g.Solves active τ) :
    σ = τ := by
  funext n
  induction n using ha.wellFounded.induction with
  | _ n ih =>
      funext q
      by_cases hn : ∃ w, g.TakesPart active q n w
      · obtain ⟨w, hw⟩ := hn
        have harrives (aside : Bool) (x : SlotId) :
            g.Arrives σ n w aside q x ↔ g.Arrives τ n w aside q x :=
          exists_congr fun m => exists_congr fun kind => and_congr_right fun he => by
            rw [ih m ⟨kind, he⟩]
        have hdown : (σ n q).down = (τ n q).down := OrdSet.ext fun x => by
          rw [hσ.down hw, hτ.down hw, harrives]
        have hside : (σ n q).side = (τ n q).side := OrdSet.ext fun x => by
          rw [hσ.side hw, hτ.side hw, harrives]
        have hproduced : (σ n q).produced = (τ n q).produced := by
          rw [hσ.produced hw, hτ.produced hw]
          simp only [Waypoint.emits, hdown, hside]
        exact Supply.ext hdown hside hproduced
      · rw [hσ.outside (not_exists.1 hn), hτ.outside (not_exists.1 hn)]

/-! ## What the pass leaves -/

theorem mem_edges_iff (hg : g.WellFormed) {m : WaypointId} {kind : EdgeKind} (hm : m ∈ g.ids)
    (hn : n ∈ g.ids) : ⟨m, n, kind⟩ ∈ g.edges ↔ ⟨m, n, kind⟩ ∈ g.links := by
  rw [mem_edges]
  simp [hm, Edge.touchesSentinel, hg.proper m hm, hg.proper n hn]

section Pass

variable {order : List WaypointId} (hg : g.WellFormed) (ho : g.Forward order)

include hg in
/-- Every waypoint is there after the pass, with what registration wrote. -/
theorem exists_supplied {w : Waypoint} (hw : g.beginCycle.find? n = some w) :
    ∃ v, (g.beginCycle.supplied active order).find? n = some v ∧ v.unsupplied = w.unsupplied :=
  exists_find?_of_view Waypoint.id_unsupplied
    (unsupplied_supplied (wellFormed_beginCycle hg).nodup active order).symm hw

include hg in
theorem exists_takesPart {v : Waypoint}
    (hv : (g.beginCycle.supplied active order).find? n = some v) (hc : v.covers q = true)
    (hq : q ∈ active.toList) :
    ∃ w, g.beginCycle.TakesPart active q n w ∧ w.unsupplied = v.unsupplied := by
  obtain ⟨w, hw, hwv⟩ := exists_find?_of_view Waypoint.id_unsupplied
    (unsupplied_supplied (wellFormed_beginCycle hg).nodup active order) hv
  exact ⟨w, ⟨hw, covers_eq hwv ▸ hc, hq⟩, hwv⟩

include hg in
/-- Every waypoint is fed when the solution gives it what it must have. -/
theorem fed_iff_available (hq : q ∈ active.toList) :
    (∀ n v, (g.beginCycle.supplied active order).find? n = some v → v.Fed q) ↔
      ∀ n w, g.beginCycle.TakesPart active q n w →
        w.Available q ((g.beginCycle.supplied active order).supply n q) := by
  constructor
  · intro hfed n w hw
    obtain ⟨v, hv, hvw⟩ := exists_supplied hg hw.found
    rw [supply_of_find? hv, ← Waypoint.available_unsupplied, ← hvw, Waypoint.available_unsupplied,
      Waypoint.available_supply_iff (covers_eq hvw ▸ hw.covers)]
    exact hfed n v hv
  · intro havailable n v hv
    cases hc : v.covers q with
    | false =>
        have hk := wellFormed_supplied (wellFormed_beginCycle hg) active order
        exact (hk.sound v (mem_of_find? hv)).fed_of_not_covers hc
    | true =>
        obtain ⟨w, hw, hwv⟩ := exists_takesPart hg hv hc hq
        have h := havailable n w hw
        rwa [supply_of_find? hv, ← Waypoint.available_unsupplied, hwv,
          Waypoint.available_unsupplied, Waypoint.available_supply_iff hc] at h

include hg ho

/-- What is emitted is what is given to those above. -/
theorem mem_produced_supplied {x : SlotId} :
    x ∈ ((g.beginCycle.supplied active order).supply n q).produced ↔
      ∃ u, (g.beginCycle.supplied active order).find? n = some u ∧ u.Gives active q x := by
  cases hu : (g.beginCycle.supplied active order).find? n with
  | none => simp [supply, hu, Supply.none]
  | some u =>
      have hmem : n ∈ order := by
        rw [ho.perm.mem_iff, ← ids_beginCycle, ← ids_supplied active order]
        exact mem_ids_iff.2 ⟨u, hu⟩
      have hproduced := (ho.settled_supplied hg active q).produced hu
      rw [supply_of_find? hu]
      simp only [Option.some.injEq, exists_eq_left', Waypoint.Gives]
      show x ∈ (u.flow q).produced ↔ _
      rw [hproduced]
      cases hp : u.passesOn with
      | false => simp [Waypoint.yield_eq_empty hp]
      | true =>
          by_cases hemits : q ∈ active.toList ∧ u.supplies q = true
          · simp [hmem, hemits]
          · rw [if_neg fun h => hemits h.2]
            simpa using fun hq hs => absurd ⟨hq, hs⟩ hemits

/-- What is in an inbox arrived there. -/
theorem mem_inbox_supplied {v : Waypoint}
    (hv : (g.beginCycle.supplied active order).find? n = some v) (hc : v.covers q = true)
    (kind : EdgeKind) (x : SlotId) :
    x ∈ v.inbox kind q ↔
      g.beginCycle.Arrives (g.beginCycle.supplied active order).supply n v
        (v.setsAside kind) q x := by
  have hids : (g.beginCycle.supplied active order).ids = g.beginCycle.ids := ids_supplied ..
  have hn : n ∈ g.beginCycle.ids := hids ▸ mem_ids_iff.2 ⟨v, hv⟩
  have hlinks := links_supplied (wellFormed_beginCycle hg).nodup active order
  rw [(ho.settled_supplied hg active q).inbox hv, Arrives]
  simp only [mem_produced_supplied hg ho, Waypoint.setsAside_iff, hlinks, hc, true_and]
  constructor
  · rintro ⟨m, hm, u, hu, ⟨k, hlink, hk⟩, hgives⟩
    have hm' : m ∈ g.beginCycle.ids := hids ▸ mem_ids_iff.2 ⟨u, hu⟩
    exact ⟨m, k, (mem_edges_iff (wellFormed_beginCycle hg) hm' hn).2 hlink, hk, u, hu, hgives⟩
  · rintro ⟨m, k, he, hk, u, hu, hgives⟩
    have hm : m ∈ order := by
      rw [ho.perm.mem_iff, ← ids_beginCycle, ← hids]
      exact mem_ids_iff.2 ⟨u, hu⟩
    exact ⟨m, hm, u, hu, ⟨k, (mem_edges.1 he).2.1, hk⟩, hgives⟩

/-- What is in the stream of a waypoint, and what is kept beside it, arrived there. -/
theorem mem_supply_supplied {v : Waypoint} {x : SlotId}
    (hv : (g.beginCycle.supplied active order).find? n = some v) (hc : v.covers q = true) :
    (x ∈ (v.supply q).down ↔
        g.beginCycle.Arrives (g.beginCycle.supplied active order).supply n v false q x) ∧
      (x ∈ (v.supply q).side ↔
        g.beginCycle.Arrives (g.beginCycle.supplied active order).supply n v true q x) := by
  constructor
  · obtain ⟨kind, hkind⟩ := v.exists_not_setsAside
    simpa [Waypoint.inbox_eq, hkind] using mem_inbox_supplied hg ho hv hc kind x
  · by_cases hside : ∃ kind, v.setsAside kind = true
    · obtain ⟨kind, hkind⟩ := hside
      simpa [Waypoint.inbox_eq, hkind] using mem_inbox_supplied hg ho hv hc kind x
    · simp only [not_exists, Bool.not_eq_true] at hside
      simp [Waypoint.side_eq_empty hside, Arrives, hside]

/-- Where a query is not registered or not active, nothing arrives and nothing is emitted. -/
theorem supply_supplied_eq_none {v : Waypoint}
    (hv : (g.beginCycle.supplied active order).find? n = some v)
    (hnot : ¬(v.covers q = true ∧ q ∈ active.toList)) : v.supply q = .none := by
  have hsettled := ho.settled_supplied hg active q
  have hsound : v.Sound := (wellFormed_supplied (wellFormed_beginCycle hg) active order).sound v
    (mem_of_find? hv)
  have hin (kind : EdgeKind) : v.inbox kind q = ∅ := by
    refine OrdSet.ext fun x => ?_
    rw [hsettled.inbox hv]
    refine iff_of_false ?_ (OrdSet.not_mem_empty x)
    rintro ⟨m, -, u, -, hc, -, -, hq, -⟩
    exact hnot ⟨hc, hq⟩
  refine Supply.ext ?_ ?_ ?_
  · obtain ⟨kind, hkind⟩ := v.exists_not_setsAside
    simpa [Waypoint.inbox_eq, hkind, Supply.none] using hin kind
  · by_cases hside : ∃ kind, v.setsAside kind = true
    · obtain ⟨kind, hkind⟩ := hside
      simpa [Waypoint.inbox_eq, hkind, Supply.none] using hin kind
    · simp only [not_exists, Bool.not_eq_true] at hside
      exact Waypoint.side_eq_empty hside
  · refine (hsettled.produced hv).trans (if_neg ?_)
    rintro ⟨-, hq, hs⟩
    exact hnot ⟨hsound.covers_of_supplies hs, hq⟩

/-- **The pass solves the equations.** -/
theorem solves_supplied :
    g.beginCycle.Solves active (g.beginCycle.supplied active order).supply where
  down {n w q} hw x := by
    obtain ⟨v, hv, hvw⟩ := exists_supplied hg hw.found
    rw [supply_of_find? hv, ← arrives_congr hvw]
    exact (mem_supply_supplied hg ho hv (covers_eq hvw ▸ hw.covers)).1
  side {n w q} hw x := by
    obtain ⟨v, hv, hvw⟩ := exists_supplied hg hw.found
    rw [supply_of_find? hv, ← arrives_congr hvw]
    exact (mem_supply_supplied hg ho hv (covers_eq hvw ▸ hw.covers)).2
  produced {n w q} hw := by
    obtain ⟨v, hv, hvw⟩ := exists_supplied hg hw.found
    have hmem : n ∈ order := by
      rw [ho.perm.mem_iff, ← ids_beginCycle]
      exact mem_ids_iff.2 ⟨w, hw.found⟩
    rw [supply_of_find? hv, ← Waypoint.emits_unsupplied, ← hvw, Waypoint.emits_unsupplied,
      Waypoint.emits_supply (covers_eq hvw ▸ hw.covers)]
    show (v.flow q).produced = _
    rw [(ho.settled_supplied hg active q).produced hv]
    simp [hmem, hw.active]
  outside {n q} hn := by
    cases hv : (g.beginCycle.supplied active order).find? n with
    | none =>
        rw [supply, hv]
        rfl
    | some v =>
        rw [supply_of_find? hv]
        refine supply_supplied_eq_none hg ho hv fun ⟨hc, hq⟩ => ?_
        obtain ⟨w, hw, -⟩ := exists_takesPart hg hv hc hq
        exact hn w hw

/-- The pass succeeds when the solution gives every waypoint what it must have. -/
theorem supplyPass_forward_iff {h : PlanGraph} :
    (supplyPass order active).outcome g.beginCycle = (.ok (), h) ↔
      (∀ n w q, g.beginCycle.TakesPart active q n w →
        w.Available q ((g.beginCycle.supplied active order).supply n q)) ∧
      g.beginCycle.supplied active order = h := by
  have hmem : ∀ id ∈ order, id ∈ g.beginCycle.ids := fun id hid => by
    rw [ids_beginCycle]
    exact ho.perm.mem_iff.1 hid
  rw [supplyPass_eq_ok_iff (wellFormed_beginCycle hg) hmem]
  refine and_congr_left fun _ => ?_
  simp only [ho.fedAlong_iff hg]
  constructor
  · intro hfed n w q hw
    exact (fed_iff_available hg hw.active).1 (hfed q hw.active) n w hw
  · intro havailable q hq
    exact (fed_iff_available hg hq).2 fun n w hw => havailable n w q hw

end Pass

/-- **The bottom-up pass solves the flow equations**: on an acyclic graph they have one
solution; along every order in which the edges lead forward, the pass succeeds exactly
when the solution gives every waypoint what it must have, and then leaves the solution,
beside what registration wrote. -/
theorem supplyPass_solves (hg : g.Reachable) (ha : g.Acyclic) (active : QuerySet) :
    ∃ σ, (∀ τ, g.beginCycle.Solves active τ ↔ τ = σ) ∧ ∀ order, g.Forward order →
      ((∃ h, (supplyPass order active).outcome g.beginCycle = (.ok (), h)) ↔
        ∀ n w q, g.beginCycle.TakesPart active q n w → w.Available q (σ n q)) ∧
      ∀ h, (supplyPass order active).outcome g.beginCycle = (.ok (), h) →
        h.supply = σ ∧
          h.mapWaypoints Waypoint.unsupplied = g.beginCycle.mapWaypoints Waypoint.unsupplied := by
  have hwf := hg.wellFormed
  have hbegun : g.beginCycle.Acyclic := ha.congr (ids_beginCycle g).symm rfl
  obtain ⟨first, hfirst⟩ := exists_topologicalOrder hwf ha
  have hsolves : g.beginCycle.Solves active (g.beginCycle.supplied active first).supply :=
    solves_supplied hwf (forward_topologicalOrder hwf hfirst)
  refine ⟨_, fun τ => ⟨fun hτ => hτ.unique hbegun hsolves, fun h => h ▸ hsolves⟩,
    fun order ho => ?_⟩
  have hsupply : (g.beginCycle.supplied active order).supply =
      (g.beginCycle.supplied active first).supply :=
    (solves_supplied hwf ho).unique hbegun hsolves
  rw [← hsupply]
  constructor
  · constructor
    · rintro ⟨h, hpass⟩
      exact ((supplyPass_forward_iff hwf ho).1 hpass).1
    · intro havailable
      exact ⟨_, (supplyPass_forward_iff hwf ho).2 ⟨havailable, rfl⟩⟩
  · intro h hpass
    obtain ⟨-, rfl⟩ := (supplyPass_forward_iff hwf ho).1 hpass
    exact ⟨rfl, unsupplied_supplied (wellFormed_beginCycle hwf).nodup active order⟩

/-- On a line with a filter, the column that is scanned arrives at the filter and goes on. -/
theorem supplyPass_solves_line :
    ∃ g σ, g = line.along ⟨0⟩ (.filter (.singleton ⟨0⟩)) ∧
      (∀ τ, g.beginCycle.Solves (.singleton ⟨0⟩) τ ↔ τ = σ) ∧
      (∀ n w q, g.beginCycle.TakesPart (.singleton ⟨0⟩) q n w → w.Available q (σ n q)) ∧
      σ ⟨3⟩ ⟨0⟩ = ⟨.singleton ⟨0⟩, ∅, .singleton ⟨0⟩⟩ := by
  obtain ⟨g, hg⟩ : ∃ g, g = line.along ⟨0⟩ (.filter (.singleton ⟨0⟩)) := ⟨_, rfl⟩
  have hreachable : g.Reachable := hg ▸ line_reachable.along _ _
  have ho : g.topologicalOrder = .ok [⟨2⟩, ⟨3⟩, ⟨4⟩] := by
    rw [hg]
    decide +kernel
  have hpass : ((supplyPass [⟨2⟩, ⟨3⟩, ⟨4⟩] (.singleton ⟨0⟩)).outcome g.beginCycle).1 = .ok () := by
    rw [hg]
    decide +kernel
  have hleft : ((supplyPass [⟨2⟩, ⟨3⟩, ⟨4⟩] (.singleton ⟨0⟩)).outcome g.beginCycle).2.supply
      ⟨3⟩ ⟨0⟩ = ⟨.singleton ⟨0⟩, ∅, .singleton ⟨0⟩⟩ := by
    rw [hg]
    decide +kernel
  obtain ⟨σ, hσ, hpasses⟩ := supplyPass_solves hreachable
    (acyclic_of_topologicalOrder hreachable.wellFormed ho) (.singleton ⟨0⟩)
  obtain ⟨hsucceeds, hleaves⟩ :=
    hpasses _ (forward_topologicalOrder hreachable.wellFormed ho)
  have hok := Attempt.eq_of_ok hpass
  exact ⟨g, σ, hg, hσ, hsucceeds.1 ⟨_, hok⟩, (hleaves _ hok).1 ▸ hleft⟩

end PlanGraph

end SharedPlan
