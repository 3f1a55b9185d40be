import SharedPlan.Proofs.Analysis.Recorded

/-!
# SharedPlan.Proofs.Analysis.Alone

The part of an analysis that concerns one query.

A query `Clears` an analysis when it has a root, is fed along the order, and its walk
from the supplied graph passes the audit.  This does not depend on the other active
queries (`Clears.congr`), and an analysis succeeds exactly when there is an order and
every active query clears it (`clears_of_analyze`, `exists_analyze`).
-/

namespace SharedPlan

namespace PlanGraph

variable {g h : PlanGraph} {active other : QuerySet} {options : PlannerOptions}
  {report : AnalysisReport} {q : QueryId} {reached : OrdSet WaypointId}

/-! ## The audit -/

/-- The exits of a query are complete when every waypoint reached holds one. -/
theorem checkExits_eq_ok_iff :
    g.checkExits q reached = .ok () ↔
      ∀ id ∈ reached, ∃ w, g.find? id = some w ∧ (w.flow q).hasExit = true := by
  rw [checkExits, forM_eq_ok_iff]
  refine forall_congr' fun id => imp_congr_right fun _ => ?_
  cases hw : g.find? id with
  | none => simp [waypoint, hw, bind, Except.bind]
  | some w =>
      rw [waypoint_eq_ok_iff.2 hw]
      cases he : (w.flow q).hasExit <;>
        simp [he, bind, Except.bind, pure, Except.pure, throw, throwThe, MonadExceptOf.throw]

theorem checkExits_congr (hgh : g.only q = h.only q)
    (hg : g.checkExits q reached = .ok ()) : h.checkExits q reached = .ok () := by
  rw [checkExits_eq_ok_iff] at hg ⊢
  intro id hid
  obtain ⟨w, hw, he⟩ := hg id hid
  obtain ⟨v, hv, hvw⟩ := find?_of_only_eq hgh hw
  exact ⟨v, hv, by rw [Waypoint.flow_eq_of_only hvw, he]⟩

theorem unreachable_only (g : PlanGraph) (q : QueryId) (reached : OrdSet WaypointId) :
    (g.only q).unreachable q reached = g.unreachable q reached := by
  simp only [unreachable, only, mapWaypoints, List.filter_map, List.map_map]
  refine congrArg (List.map _) (List.filter_congr fun w _ => ?_)
  rw [Function.comp_apply, Waypoint.covers_only]
  rfl

/-- Nothing is out of reach when every waypoint that takes part is reached. -/
theorem unreachable_eq_nil_iff :
    g.unreachable q reached = [] ↔ ∀ w ∈ g.waypoints, w.covers q = true → w.id ∈ reached := by
  simp [unreachable, List.filter_eq_nil_iff]

/-- What the audit lists of one query. -/
def strays (g : PlanGraph) (options : PlannerOptions) (q : QueryId) (r : WalkReport) :
    List (QueryId × WaypointId) :=
  if options.warnUnreachable then (g.unreachable q r.entered).map (q, ·) else []

theorem strays_congr (hgh : g.only q = h.only q) (options : PlannerOptions) (r : WalkReport) :
    g.strays options q r = h.strays options q r := by
  rw [strays, strays, ← unreachable_only g, hgh, unreachable_only]

theorem fst_of_mem_strays {r : WalkReport} {p : QueryId × WaypointId}
    (hp : p ∈ g.strays options q r) : p.1 = q := by
  rw [strays] at hp
  split at hp
  · obtain ⟨_, _, rfl⟩ := List.mem_map.1 hp
    rfl
  · exact absurd hp List.not_mem_nil

/-- **The audit** checks the exits of one query after another and puts their lists
together. -/
theorem audit_eq_ok_iff {walks : List (QueryId × WalkReport)} {l : List (QueryId × WaypointId)} :
    g.audit options walks = .ok l ↔
      (options.verifyExits = true → ∀ r ∈ walks, g.checkExits r.1 r.2.entered = .ok ()) ∧
        (walks.map fun r => g.strays options r.1 r.2).flatten = l := by
  rw [audit, bind_pure_eq_ok_iff]
  have hone (r : QueryId × WalkReport) (s : List (QueryId × WaypointId)) :
      (do if options.verifyExits then g.checkExits r.1 r.2.entered
          return if options.warnUnreachable then (g.unreachable r.1 r.2.entered).map (r.1, ·)
            else []) = Except.ok s ↔
        (options.verifyExits = true → g.checkExits r.1 r.2.entered = .ok ()) ∧
          g.strays options r.1 r.2 = s := by
    cases hv : options.verifyExits with
    | false => simp [strays, pure, Except.pure]
    | true =>
        cases hc : g.checkExits r.1 r.2.entered <;>
          simp [strays, bind, Except.bind, pure, Except.pure]
  simp only [mapM_eq_ok_iff, hone, List.forall₂_and_left]
  constructor
  · rintro ⟨s, ⟨hcheck, hs⟩, rfl⟩
    rw [← List.forall₂_map_left_iff, List.forall₂_eq_eq_eq] at hs
    exact ⟨fun hv r hr => hcheck r hr hv, by rw [hs]⟩
  · rintro ⟨hcheck, rfl⟩
    refine ⟨_, ⟨fun r hr hv => hcheck hv r hr, ?_⟩, rfl⟩
    rw [← List.forall₂_map_left_iff, List.forall₂_eq_eq_eq]

/-- Of lists that belong to distinct queries, put together, those of one query are its own. -/
theorem filter_flatten {walks : List (QueryId × WalkReport)} (hwalks : (walks.map (·.1)).Nodup)
    {f : QueryId × WalkReport → List (QueryId × WaypointId)} (hf : ∀ w, ∀ p ∈ f w, p.1 = w.1)
    {r : WalkReport} (hr : (q, r) ∈ walks) :
    (walks.map f).flatten.filter (fun p => p.1 = q) = f (q, r) := by
  induction walks with
  | nil => exact absurd hr List.not_mem_nil
  | cons w rest ih =>
      obtain ⟨hnot, hrest⟩ := List.nodup_cons.1 hwalks
      rw [List.map_cons, List.flatten_cons, List.filter_append]
      rcases List.mem_cons.1 hr with rfl | hr
      · have hown : (f (q, r)).filter (fun p => p.1 = q) = f (q, r) :=
          List.filter_eq_self.2 fun p hp => decide_eq_true (hf _ p hp)
        have hother : (rest.map f).flatten.filter (fun p => p.1 = q) = [] := by
          simp only [List.filter_eq_nil_iff, List.mem_flatten, List.mem_map, decide_eq_true_eq]
          rintro p ⟨_, ⟨w, hw, rfl⟩, hp⟩ rfl
          exact hnot (List.mem_map.2 ⟨w, hw, (hf w p hp).symm⟩)
        rw [hown, hother, List.append_nil]
      · have hne : w.1 ≠ q := fun e => hnot (List.mem_map.2 ⟨_, hr, e.symm⟩)
        have hown : (f w).filter (fun p => p.1 = q) = [] := by
          simp only [List.filter_eq_nil_iff, decide_eq_true_eq]
          exact fun p hp he => hne ((hf w p hp).symm.trans he)
        rw [hown, List.nil_append, ih hrest hr]

/-! ## Clearing an analysis -/

/-- A query has a root, is fed along an order, and its demand walk from the supplied
graph passes the audit.  The walk reports `r` and leaves `k`. -/
structure Clears (g : PlanGraph) (active : QuerySet) (options : PlannerOptions)
    (order : List WaypointId) (q : QueryId) (r : WalkReport) (k : PlanGraph) : Prop where
  fed : g.beginCycle.FedAlong active q order
  walked : ∃ root, g.root? q = some root ∧
    (demandWalk q root options.maxWalkSteps.toNat).outcome (g.beginCycle.supplied active order) =
      (.ok r, k)
  audited : options.verifyExits = true → k.checkExits q r.entered = .ok ()

variable {order : List WaypointId} {r : WalkReport} {k : PlanGraph}

/-- **Whether a query clears an analysis** does not depend on the other active queries,
nor does what its walk reports and leaves. -/
theorem Clears.congr (hg : g.WellFormed) (hq : q ∈ active.toList ↔ q ∈ other.toList)
    (h : g.Clears active options order q r k) :
    ∃ k', g.Clears other options order q r k' ∧ k.only q = k'.only q := by
  obtain ⟨hfed, ⟨root, hroot, hwalk⟩, haudit⟩ := h
  have hids : (g.beginCycle.supplied active order).ids.Nodup := by
    rw [ids_supplied, ids_beginCycle]
    exact hg.nodup
  obtain ⟨k', hwalk', hkk⟩ := demandWalk_congr hids (only_supplied rfl hq order) hwalk
  exact ⟨k', ⟨(fedAlong_congr rfl hq order).1 hfed, ⟨root, hroot, hwalk'⟩,
    fun hv => checkExits_congr hkk (haudit hv)⟩, hkk⟩

theorem Clears.unique {r' : WalkReport} {k' : PlanGraph} (h : g.Clears active options order q r k)
    (h' : g.Clears active options order q r' k') : r = r' ∧ k = k' := by
  obtain ⟨root, hroot, hwalk⟩ := h.walked
  obtain ⟨root', hroot', hwalk'⟩ := h'.walked
  obtain rfl := Option.some.inj (hroot.symm.trans hroot')
  obtain ⟨hr, rfl⟩ := Prod.mk.inj (hwalk.symm.trans hwalk')
  exact ⟨Except.ok.inj hr, rfl⟩

/-- In an analysis that succeeds, every active query clears it, and what is left and
reported of the query is what its own walk left and reported. -/
theorem clears_of_analyze (hg : g.WellFormed)
    (ha : (analyze active options).outcome g = (.ok report, h)) :
    ∃ order, g.topologicalOrder = .ok order ∧
      ∀ q ∈ active.toList, ∃ r k, g.Clears active options order q r k ∧ k.only q = h.only q ∧
        report.visits.get? q = some r.steps ∧
        report.unreachable.filter (fun p => p.1 = q) = h.strays options q r := by
  obtain ⟨order, roots, g₁, walks, strays, ho, hr, hs, hw, haudit, rfl⟩ := analyze_eq_ok_iff.1 ha
  obtain ⟨hfed, rfl⟩ := (supplyPass_beginCycle_iff hg ho).1 hs
  obtain ⟨hmap, hroots⟩ := activeRoots_eq_ok_iff.1 hr
  obtain ⟨hcheck, rfl⟩ := audit_eq_ok_iff.1 haudit
  have hg₁ := wellFormed_supplied (wellFormed_beginCycle hg) active order
  obtain ⟨hall, -, -⟩ := demandWalks_forall₂ hg₁.nodup (hmap ▸ active.nodup_toList) hw
  have hwalks : walks.map (·.1) = active.toList := (fst_demandWalks hw).trans hmap
  refine ⟨order, ho, fun q hq => ?_⟩
  obtain ⟨⟨_, root⟩, hp, rfl⟩ := List.mem_map.1 (hmap ▸ hq)
  obtain ⟨⟨_, r⟩, hmem, rfl, k, hwalk, hk⟩ := exists_of_forall₂ hall hp
  refine ⟨r, k, ⟨hfed _ hq, ⟨root, hroots _ hp, hwalk⟩, fun hv => ?_⟩, hk, ?_, ?_⟩
  · exact checkExits_congr hk.symm (hcheck hv _ hmem)
  · refine OrdMap.get?_ofList ?_ (List.mem_map.2 ⟨_, hmem, rfl⟩)
    rw [List.map_map]
    exact hwalks ▸ active.nodup_toList
  · exact filter_flatten (hwalks ▸ active.nodup_toList) (fun w p => fst_of_mem_strays) hmem

/-- The waypoints listed were not reached by active queries. -/
theorem fst_mem_of_unreachable (ha : (analyze active options).outcome g = (.ok report, h))
    {p : QueryId × WaypointId} (hp : p ∈ report.unreachable) : p.1 ∈ active.toList := by
  obtain ⟨order, roots, g₁, walks, strays, -, hr, -, hw, haudit, rfl⟩ := analyze_eq_ok_iff.1 ha
  obtain ⟨-, rfl⟩ := audit_eq_ok_iff.1 haudit
  obtain ⟨_, hl, hp⟩ := List.mem_flatten.1 hp
  obtain ⟨w, hw', rfl⟩ := List.mem_map.1 hl
  rw [fst_of_mem_strays hp, ← (activeRoots_eq_ok_iff.1 hr).1, ← fst_demandWalks hw]
  exact List.mem_map_of_mem hw'

/-- Where every active query clears it, an analysis succeeds. -/
theorem exists_analyze (hg : g.WellFormed) (ho : g.topologicalOrder = .ok order)
    (hclear : ∀ q ∈ active.toList, ∃ r k, g.Clears active options order q r k) :
    ∃ report h, (analyze active options).outcome g = (.ok report, h) := by
  have hg₁ := wellFormed_supplied (wellFormed_beginCycle hg) active order
  have hs := (supplyPass_beginCycle_iff hg ho).2
    ⟨fun q hq => by obtain ⟨r, k, hc⟩ := hclear q hq; exact hc.fed, rfl⟩
  obtain ⟨roots, hr⟩ := exists_activeRoots fun q hq => by
    obtain ⟨r, k, hc⟩ := hclear q hq
    obtain ⟨root, hroot, -⟩ := hc.walked
    exact ⟨root, hroot⟩
  obtain ⟨hmap, hroots⟩ := activeRoots_eq_ok_iff.1 hr
  have hnodup : (roots.map (·.1)).Nodup := hmap ▸ active.nodup_toList
  have hclear' : ∀ p ∈ roots, ∃ r k, g.Clears active options order p.1 r k ∧
      (demandWalk p.1 p.2 options.maxWalkSteps.toNat).outcome
        (g.beginCycle.supplied active order) = (.ok r, k) := by
    intro p hp
    obtain ⟨r, k, hc⟩ := hclear p.1 (hmap ▸ List.mem_map_of_mem hp)
    obtain ⟨root, hroot, hwalk⟩ := hc.walked
    obtain rfl := Option.some.inj (hroot.symm.trans (hroots p hp))
    exact ⟨r, k, hc, hwalk⟩
  obtain ⟨walks, h, hw⟩ := exists_demandWalks hg₁.nodup hnodup fun p hp => by
    obtain ⟨r, k, -, hwalk⟩ := hclear' p hp
    exact ⟨r, k, hwalk⟩
  obtain ⟨hall, -, -⟩ := demandWalks_forall₂ hg₁.nodup hnodup hw
  have haudit : ∃ strays, h.audit options walks = .ok strays := by
    refine ⟨_, audit_eq_ok_iff.2 ⟨?_, rfl⟩⟩
    rintro hv ⟨_, r⟩ hmem
    obtain ⟨p, hp, rfl, k, hwalk, hk⟩ := exists_of_forall₂ hall.flip hmem
    obtain ⟨r', k', hc, hwalk'⟩ := hclear' p hp
    obtain ⟨hr', rfl⟩ := Prod.mk.inj (hwalk.symm.trans hwalk')
    obtain rfl := Except.ok.inj hr'
    exact checkExits_congr hk (hc.audited hv)
  obtain ⟨strays, haudit⟩ := haudit
  exact ⟨_, h, analyze_eq_ok_iff.2 ⟨order, roots, _, walks, strays, ho, hr, hs, hw, haudit, rfl⟩⟩

end PlanGraph

end SharedPlan
