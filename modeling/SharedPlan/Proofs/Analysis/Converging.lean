import SharedPlan.Proofs.Analysis.Settled
import SharedPlan.Proofs.Analysis.Turn
import SharedPlan.Proofs.Waypoint.Backed

/-!
# SharedPlan.Proofs.Analysis.Converging

Where demands can be refused.

Once the bottom-up pass succeeded, every waypoint asks below for what has arrived over its
edges.  Where only one sender takes part, that sender has emitted all of it, so it grants
the demand.  A demand can only be refused below a waypoint at which streams of the query
converge (`PlanGraph.refused_only_where_converging`).
-/

namespace SharedPlan

namespace PlanGraph

variable {g h : PlanGraph} {active : QuerySet} {options : PlannerOptions} {q : QueryId}

/-! ## Converging streams -/

/-- A waypoint that takes part in a query may send over an edge. -/
def Sends (g : PlanGraph) (q : QueryId) (e : Edge) : Prop :=
  e.sender.isSentinel = false ∧ ∃ v, g.find? e.sender = some v ∧ v.covers q = true

/-- Two edges over which waypoints may send a query lead into one that takes part in it;
into a join, two edges of the same kind. -/
def Converges (g : PlanGraph) (q : QueryId) (n : WaypointId) : Prop :=
  ∃ w, g.find? n = some w ∧ w.covers q = true ∧ ∃ e ∈ g.inputs n, ∃ f ∈ g.inputs n,
    e ≠ f ∧ g.Sends q e ∧ g.Sends q f ∧ (w.kind = .join → e.kind = f.kind)

section View

variable {f : Waypoint → Waypoint} (hid : ∀ w, (f w).id = w.id)
  (hkind : ∀ w, (f w).kind = w.kind) (hcovers : ∀ w, (f w).covers q = w.covers q)
  (hv : g.mapWaypoints f = h.mapWaypoints f)

include hid hkind hcovers hv

/-- A waypoint of one graph has in the other one of the same kind that takes part alike. -/
theorem exists_covers_of_view {n : WaypointId} {w : Waypoint} (hw : g.find? n = some w) :
    ∃ v, h.find? n = some v ∧ v.kind = w.kind ∧ v.covers q = w.covers q := by
  obtain ⟨v, hv, hvw⟩ := exists_find?_of_view hid hv hw
  exact ⟨v, hv, by rw [← hkind, hvw, hkind], by rw [← hcovers, hvw, hcovers]⟩

/-- Where streams converge is told by what registration wrote. -/
theorem Converges.of_view {n : WaypointId} (hn : g.Converges q n) : h.Converges q n := by
  have hinputs : g.inputs = h.inputs :=
    inputs_congr (ids_eq_of_view hid hv) (links_eq_of_view hv)
  have hsends {e : Edge} (he : g.Sends q e) : h.Sends q e := by
    obtain ⟨hproper, u, hu, hc⟩ := he
    obtain ⟨v, hv, -, hcv⟩ := exists_covers_of_view hid hkind hcovers hv hu
    exact ⟨hproper, v, hv, hcv.trans hc⟩
  obtain ⟨w, hw, hc, e, he, e', he', hne, hs, hs', hjoin⟩ := hn
  obtain ⟨v, hv, hk, hcv⟩ := exists_covers_of_view hid hkind hcovers hv hw
  rw [hinputs] at he he'
  exact ⟨v, hv, hcv.trans hc, e, he, e', he', hne, hsends hs, hsends hs', hk ▸ hjoin⟩

end View

theorem Converges.of_supplied (hg : g.WellFormed) {order : List WaypointId} {n : WaypointId}
    (hn : (g.beginCycle.supplied active order).Converges q n) : g.Converges q n := by
  have hbegun : g.beginCycle.Converges q n :=
    hn.of_view Waypoint.id_unsupplied Waypoint.kind_unsupplied
      (fun w => Waypoint.covers_unsupplied w q)
      (unsupplied_supplied (wellFormed_beginCycle hg).nodup active order)
  exact hbegun.of_view Waypoint.id_beginCycle (fun w => Role.kind_beginCycle w.role)
    (fun w => Waypoint.covers_beginCycle w q) (beginCycle_beginCycle g)

/-! ## Demands in the supplied graph -/

/-- A result is not the refusal of a demand. -/
def Unrefusing {α : Type} (r : Except PlanError α) : Prop :=
  ∀ name q missing, r ≠ .error (.demandNotSatisfied name q missing)

/-- What is asked at an arrival is emitted there, if the waypoint takes part. -/
def Emitted (g : PlanGraph) (q : QueryId) (a : Arrival) (S : SlotSet) : Prop :=
  ∀ w, g.find? a.waypoint = some w → w.covers q = true → S ⊆ (w.flow q).produced

section Supplied

variable {order : List WaypointId} (hg : g.Reachable) (ho : g.topologicalOrder = .ok order)
  (hq : q ∈ active.toList) (hfed : g.beginCycle.FedAlong active q order)

include hg

/-- A join of the supplied graph uses what it joins against. -/
theorem against_subset_used {n : WaypointId} {v : Waypoint}
    (hv : (g.beginCycle.supplied active order).find? n = some v) :
    v.against q ⊆ (v.flow q).used := by
  obtain ⟨w, hw, hview⟩ := find?_supplied hg.wellFormed hv
  have hjoins := (hg.made w (mem_of_find? hw)).joins q
  have hagainst : v.against q = w.against q := by
    rw [← Waypoint.against_unsupplied, hview, Waypoint.against_unsupplied,
      Waypoint.against_beginCycle]
  have hused : (v.flow q).used = (w.flow q).declared := by
    have hflow : (v.unsupplied.flow q).used = (w.beginCycle.unsupplied.flow q).used := by
      rw [hview]
    rwa [Waypoint.flow_unsupplied, Waypoint.flow_unsupplied, Waypoint.flow_beginCycle] at hflow
  rw [hagainst, hused]
  exact hjoins

include ho hq hfed

/-- **What a waypoint asks for below is emitted there**, if only one waypoint may send it. -/
theorem spreads_emitted (hn : ∀ n, ¬g.Converges q n) :
    Walk.Spreads (g.beginCycle.supplied active order) q
      (Emitted (g.beginCycle.supplied active order) q) where
  union hS hT w hw hc x hx :=
    (OrdSet.mem_union.1 hx).elim (hS w hw hc x) (hT w hw hc x)
  below {a S w e} hS hw hc he _ _ hproper := by
    intro u hu hcu x hx
    have hsettled := settled_supplied hg.wellFormed ho active q
    have hg₁ := wellFormed_supplied (wellFormed_beginCycle hg.wellFormed) active order
    have hyield : S ⊆ w.yield q := by
      intro y hy
      have hy := hS w hw hc y hy
      rw [hsettled.produced hw] at hy
      split at hy
      · exact hy
      · exact absurd hy (OrdSet.not_mem_empty y)
    have hinbox : x ∈ w.inbox e.kind q :=
      (hg₁.sound w (mem_of_find? hw)).below_subset_inbox (against_subset_used hg hw) hc
        ((fedAlong_iff hg.wellFormed ho).1 hfed _ w hw) hyield x hx
    obtain ⟨m, hm, u', hu', -, ⟨kind, hlink, hshares⟩, -, -, hsupplies, hx⟩ :=
      (hsettled.inbox hw).1 hinbox
    -- the waypoint that gave it is the one that is asked
    have hsent : m = e.sender := by
      by_contra hne
      obtain ⟨-, hlink', hreceiver⟩ := mem_inputs.1 he
      have hsender : m.isSentinel = false := hg₁.proper m (mem_ids_iff.2 ⟨u', hu'⟩)
      have hcu' := (hg₁.sound u' (mem_of_find? hu')).covers_of_supplies hsupplies
      refine hn a.waypoint (Converges.of_supplied hg.wellFormed ⟨w, hw, hc, e, he,
        ⟨m, a.waypoint, kind⟩, ?_, ?_, ⟨hproper, u, hu, hcu⟩, ⟨hsender, u', hu', hcu'⟩, ?_⟩)
      · exact mem_inputs.2 ⟨mem_ids_iff.2 ⟨w, hw⟩, hlink, rfl⟩
      · exact fun h => hne (congrArg Edge.sender h).symm
      · intro hjoin
        cases hr : w.role <;> simp only [Waypoint.kind, hr, Role.kind, reduceCtorEq] at hjoin
        simpa only [Waypoint.sharesInbox, hr] using hshares
    obtain rfl := Option.some.inj ((hsent ▸ hu').symm.trans hu)
    rw [hsettled.produced hu, if_pos ⟨hsent ▸ hm, hq, hsupplies⟩]
    exact hx

/-- Without converging streams, a walk of the query from the supplied graph, or from where
the walks of other queries left it, has no demand refused. -/
theorem unrefusing_demandWalk (hn : ∀ n, ¬g.Converges q n) {k : PlanGraph}
    (hview : k.mapWaypoints Waypoint.unasked =
      (g.beginCycle.supplied active order).mapWaypoints Waypoint.unasked)
    (honly : k.only q = (g.beginCycle.supplied active order).only q) (root : WaypointId)
    (limit : Nat) : Unrefusing ((demandWalk q root limit).outcome k).1 := by
  intro name r missing herr
  have hg₁ := wellFormed_supplied (wellFormed_beginCycle hg.wellFormed) active order
  have hstart : Walk.Within (g.beginCycle.supplied active order) q
      (Emitted (g.beginCycle.supplied active order) q) (Walk.start k root) :=
    .start hview (holdsExit_of_only hg.wellFormed honly) fun w _ _ => OrdSet.empty_subset _
  have hspreads := spreads_emitted hg ho hq hfed hn
  rcases hstart.run_error hg₁.nodup hspreads (Prod.ext herr rfl) with h | ⟨a, S, hS, hrefuses⟩
  · cases h
  · cases hrefuses with
    | refused hw hc _ hg => exact hg fun _ => hS _ hw hc

end Supplied

/-- **A demand is refused only where streams converge.**  An analysis that ends with a
refused demand of a query has a waypoint at which streams of the query converge.  Where
there is none, then once the bottom-up pass succeeded no walk of the query, from any root
and within any bound, has a demand refused. -/
theorem refused_only_where_converging (hg : g.Reachable) :
    (∀ {name missing}, (analyze active options).outcome g =
        (.error (.demandNotSatisfied name q missing), h) → ∃ n, g.Converges q n) ∧
      ((∀ n, ¬g.Converges q n) → q ∈ active.toList →
        ∀ {order g₁}, g.topologicalOrder = .ok order →
          (supplyPass order active).outcome g.beginCycle = (.ok (), g₁) →
          ∀ root limit name r missing,
            ((demandWalk q root limit).outcome g₁).1 ≠
              .error (.demandNotSatisfied name r missing)) := by
  constructor
  · intro name missing ha
    by_contra hnone
    obtain ⟨root, k, hturn, hwalk⟩ := turn_of_demandNotSatisfied ha
    obtain ⟨order, ho, hfed, hq, hview, honly⟩ := hturn.supplied hg.wellFormed
    exact unrefusing_demandWalk hg ho hq (hfed q hq) (not_exists.1 hnone) hview honly root _ name q
      missing (congrArg Prod.fst hwalk)
  · intro hn hq order g₁ ho hs root limit
    obtain ⟨hfed, rfl⟩ := (supplyPass_beginCycle_iff hg.wellFormed ho).1 hs
    exact unrefusing_demandWalk hg ho hq (hfed q hq) hn rfl rfl root limit

/-- The line with a scan of another column that feeds the selection as well. -/
def forked : PlanGraph where
  waypoints := line.waypoints ++ [.fresh ⟨5⟩ "side" (.scanner "u" (.singleton ⟨1⟩) ∅)]
  links := line.links ++ [⟨.bottom, ⟨5⟩, .flowThrough⟩, ⟨⟨5⟩, ⟨3⟩, .flowThrough⟩]
  roots := ∅

theorem forked_reachable : forked.Reachable := by
  have side : Waypoint.Made (.fresh ⟨5⟩ "side" (.scanner "u" (.singleton ⟨1⟩) ∅)) := .fresh _ _ rfl
  have h : Reachable ⟨forked.waypoints, forked.links.take 5, ∅⟩ :=
    .addWaypoint line_reachable side rfl
  have e : addEdge ⟨forked.waypoints, forked.links.take 5, ∅⟩ ⟨5⟩ ⟨3⟩ .flowThrough =
      .ok forked := rfl
  exact .addEdge h e

/-- The column that the query prints is asked of both scans, and the second does not have
it; along the line, where nothing converges, the walk succeeds. -/
theorem refused_only_where_converging_forked :
    (∃ g h, g = (forked.along ⟨0⟩ (.filter ∅)).enrolAt ⟨5⟩ ⟨0⟩ .scan ∧
      (analyze (.singleton ⟨0⟩) ⟨64, true, true, 10⟩).outcome g =
        (.error (.demandNotSatisfied "side" ⟨0⟩ (.singleton ⟨0⟩)), h) ∧
      ∃ n, g.Converges ⟨0⟩ n) ∧
    ∃ g g₁, g = line.along ⟨0⟩ (.filter ∅) ∧ (∀ n, ¬g.Converges ⟨0⟩ n) ∧
      (supplyPass [⟨2⟩, ⟨3⟩, ⟨4⟩] (.singleton ⟨0⟩)).outcome g.beginCycle = (.ok (), g₁) ∧
      ∀ root limit name r missing, ((demandWalk ⟨0⟩ root limit).outcome g₁).1 ≠
        .error (.demandNotSatisfied name r missing) := by
  constructor
  · obtain ⟨g, hg⟩ : ∃ g, g = (forked.along ⟨0⟩ (.filter ∅)).enrolAt ⟨5⟩ ⟨0⟩ .scan := ⟨_, rfl⟩
    have ha : ((analyze (.singleton ⟨0⟩) ⟨64, true, true, 10⟩).outcome g).1 =
        .error (.demandNotSatisfied "side" ⟨0⟩ (.singleton ⟨0⟩)) := by
      rw [hg]
      decide +kernel
    have hreachable : g.Reachable := hg ▸ (forked_reachable.along _ _).enrolAt ..
    exact ⟨g, _, hg, Prod.ext ha rfl,
      (refused_only_where_converging hreachable).1 (Prod.ext ha rfl)⟩
  · obtain ⟨g, hg⟩ : ∃ g, g = line.along ⟨0⟩ (.filter ∅) := ⟨_, rfl⟩
    have ho : g.topologicalOrder = .ok [⟨2⟩, ⟨3⟩, ⟨4⟩] := by
      rw [hg]
      decide +kernel
    have hs : ((supplyPass [⟨2⟩, ⟨3⟩, ⟨4⟩] (.singleton ⟨0⟩)).outcome g.beginCycle).1 = .ok () := by
      rw [hg]
      decide +kernel
    have hlinks : ∀ e ∈ g.links, ∀ f ∈ g.links, e.receiver = f.receiver → e = f := by
      rw [hg]
      decide +kernel
    have hapart (n : WaypointId) : ¬g.Converges ⟨0⟩ n := by
      rintro ⟨-, -, -, e, he, f, hf, hne, -⟩
      have he := (mem_inputs.1 he).2
      have hf := (mem_inputs.1 hf).2
      exact hne (hlinks e he.1 f hf.1 (he.2.trans hf.2.symm))
    have hreachable : g.Reachable := hg ▸ line_reachable.along _ _
    exact ⟨g, _, hg, hapart, Attempt.eq_of_ok hs,
      (@refused_only_where_converging g g (.singleton ⟨0⟩) ⟨64, true, true, 10⟩ ⟨0⟩ hreachable).2
        hapart (by decide) ho (Attempt.eq_of_ok hs)⟩

end PlanGraph

end SharedPlan
