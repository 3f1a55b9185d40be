import SharedPlan.Proofs.Analysis.Alone
import SharedPlan.Proofs.Analysis.Trimmed

/-!
# SharedPlan.Proofs.Analysis.Narrowing

Whether scanners can skip what an analysis lets them skip.

After an analysis, `PlanGraph.narrowed` lets every scanner read no more than was
projected.  The graph that the bottom-up pass leaves then trims the one that it left
before (`trims_narrowed`), so the demand walks can be followed on it step by step.  The one
thing that can go wrong is a column that a waypoint both reads and computes: it is
asked for nowhere, and may be lost (`analyze_narrowed_iff`).
-/

namespace SharedPlan

/-! ## Waypoints that answer alike -/

/-- Two waypoints answer the allowed demands of a query alike. -/
structure Waypoint.Echoes (q : QueryId) (Allowed : WaypointId → SlotSet → Prop) (w v : Waypoint) :
    Prop where
  id : v.id = w.id
  covers : v.covers q = w.covers q
  reads : v.reads q = w.reads q
  carries : ∀ kind, v.carries kind q = w.carries kind q
  holdsExit : ∀ kind x, v.holdsExit kind ⟨q, x⟩ = w.holdsExit kind ⟨q, x⟩
  projected : v.projected? q = w.projected? q
  grants : ∀ {kind S}, Allowed w.id S → w.Grants kind q S → v.Grants kind q S
  below : ∀ {kind S}, Allowed w.id S → v.below kind q S = w.below kind q S

theorem Waypoint.Echoes.answered {q : QueryId} {Allowed : WaypointId → SlotSet → Prop}
    {w v : Waypoint} (h : Waypoint.Echoes q Allowed w v) (kind : EdgeKind) (needed : SlotSet)
    (x : WaypointId) :
    Waypoint.Echoes q Allowed (w.answered kind q needed ⟨q, x⟩)
      (v.answered kind q needed ⟨q, x⟩) where
  id := by rw [id_answered, id_answered, h.id]
  covers := by rw [covers_answered, covers_answered, h.covers]
  reads := by rw [reads_answered, reads_answered, h.reads]
  carries k := by rw [carries_answered, carries_answered, h.carries]
  holdsExit k y := by
    rw [Bool.eq_iff_iff, holdsExit_answered, holdsExit_answered, h.holdsExit, h.carries]
  projected := by rw [projected?_answered, projected?_answered, h.projected, h.reads]
  grants {k S} ha hg := by
    rw [id_answered] at ha
    rw [grants_answered] at hg ⊢
    exact h.grants ha hg
  below {k S} ha := by
    rw [id_answered] at ha
    rw [below_answered, below_answered, h.below ha]

/-- What has been asked of a waypoint in a walk, on its way to some exit. -/
def Walk.Needs (u : Walk) (n : WaypointId) (S : SlotSet) : Prop :=
  ∃ y, u.asked.get? ⟨n, y⟩ = some S

theorem Walk.alike_echoes (q : QueryId) (Allowed : WaypointId → SlotSet → Prop) :
    Walk.Alike q Allowed (Waypoint.Echoes q Allowed) where
  covers h := h.covers
  holdsExit h := h.holdsExit
  grants h := h.grants
  below h ha _ := h.below ha
  answered h _ _ := h.answered ..

namespace PlanGraph

variable {g h : PlanGraph} {active : QuerySet} {options : PlannerOptions}
  {report : AnalysisReport} {q : QueryId} {order : List WaypointId}

/-! ## The narrowed graph -/

/-- The graph where every active query that reads a scanner uses there what was projected. -/
def narrowed (active : QuerySet) (g : PlanGraph) : PlanGraph := g.mapWaypoints (·.narrow active)

theorem id_narrow (w : Waypoint) : (w.narrow active).id = w.id := (Waypoint.narrow_eq active w).1

theorem kind_narrow (w : Waypoint) : (w.narrow active).kind = w.kind := by
  rw [Waypoint.kind, (Waypoint.narrow_eq active w).2.2.1, Waypoint.kind]

theorem wellFormed_narrowed (hg : g.WellFormed) (active : QuerySet) :
    (g.narrowed active).WellFormed :=
  hg.mapWaypoints_of_sound id_narrow kind_narrow fun _ => Waypoint.sound_narrow

/-- Once a cycle begins, the narrowed graph has the outlines of the graph that was analysed. -/
theorem outline_narrowed (hg : g.WellFormed)
    (ha : (analyze active options).outcome g = (.ok report, h)) (q : QueryId) :
    (h.narrowed active).beginCycle.mapWaypoints (·.outline q) =
      g.beginCycle.mapWaypoints (·.outline q) := by
  rw [← beginCycle_of_analyze hg ha, beginCycle, narrowed, beginCycle, mapWaypoints_mapWaypoints,
    mapWaypoints_mapWaypoints, mapWaypoints_mapWaypoints]
  exact mapWaypoints_congr fun w _ => Waypoint.outline_narrow active q w

/-- What the bottom-up pass writes does not show in outlines. -/
theorem outline_supplied (hg : g.WellFormed) (active : QuerySet) (order : List WaypointId)
    (q : QueryId) :
    (g.supplied active order).mapWaypoints (·.outline q) = g.mapWaypoints (·.outline q) := by
  have ofUnsupplied (k : PlanGraph) :
      (k.mapWaypoints Waypoint.unsupplied).mapWaypoints (·.outline q) =
        k.mapWaypoints (·.outline q) := by
    rw [mapWaypoints_mapWaypoints]
    exact mapWaypoints_congr fun w _ => Waypoint.outline_unsupplied q w
  rw [← ofUnsupplied, unsupplied_supplied hg.nodup, ofUnsupplied]

/-- After an analysis nothing is registered that a cycle has not seen. -/
theorem pending_of_analyze (hg : g.WellFormed)
    (ha : (analyze active options).outcome g = (.ok report, h)) {n : WaypointId} {w : Waypoint}
    (hw : h.find? n = some w) (q : QueryId) : (w.flow q).pending = ∅ := by
  obtain ⟨order, -, -, hasked, -, -⟩ := exists_run_of_analyze hg ha
  obtain ⟨v, hv, hvw⟩ := exists_find?_of_view Waypoint.id_unasked hasked hw
  obtain ⟨u, -, huv⟩ := find?_supplied hg hv
  have hflow : (v.flow q).unasked = (w.flow q).unasked := by
    rw [← Waypoint.flow_unasked, hvw, Waypoint.flow_unasked]
  have hflow' : (v.flow q).unsupplied = (u.beginCycle.flow q).unsupplied := by
    rw [← Waypoint.flow_unsupplied, huv, Waypoint.flow_unsupplied]
  have hpending : (v.flow q).pending = (w.flow q).pending := congrArg (·.pending) hflow
  have hpending' : (v.flow q).pending = (u.beginCycle.flow q).pending := congrArg (·.pending) hflow'
  rw [← hpending, hpending', Waypoint.flow_beginCycle, Flow.beginCycle]

/-- What the narrowed graph emits at a scanner that a query reads is what was projected. -/
theorem own_narrowed (hg : g.WellFormed)
    (ha : (analyze active options).outcome g = (.ok report, h)) (hq : q ∈ active.toList)
    {n : WaypointId} {v : Waypoint}
    (hv : ((h.narrowed active).beginCycle.supplied active order).find? n = some v)
    (hr : v.reads q = true) :
    ∃ w, h.find? n = some w ∧ v.own q = (w.projected? q).getD ∅ := by
  obtain ⟨w', hw', hstatic⟩ :=
    find?_supplied (wellFormed_narrowed (wellFormed_of_analyze hg ha) active) hv
  rw [narrowed, find?_mapWaypoints id_narrow] at hw'
  obtain ⟨w, hw, rfl⟩ := Option.map_eq_some_iff.1 hw'
  refine ⟨w, hw, ?_⟩
  obtain ⟨-, -, hrole, hflow⟩ := Waypoint.narrow_eq active w
  have hreads : w.reads q = true := by
    rw [← Waypoint.reads_outline, ← Waypoint.outline_unsupplied, hstatic,
      Waypoint.outline_unsupplied, Waypoint.outline_narrow, Waypoint.reads_outline,
      Waypoint.reads_beginCycle] at hr
    exact hr
  have hused : ((w.narrow active).beginCycle.flow q).used = (w.projected? q).getD ∅ := by
    rw [Waypoint.flow_beginCycle, hflow, if_pos ⟨hq, hreads⟩]
    have hpending := pending_of_analyze hg ha hw q
    ext x
    simp [Flow.beginCycle, Flow.reading, hpending]
  rw [← Waypoint.own_unsupplied, hstatic, Waypoint.own_unsupplied, ← hused]
  have hrole' : (w.narrow active).beginCycle.role = w.role.beginCycle :=
    congrArg Role.beginCycle hrole
  cases hrw : w.role <;> simp_all [Waypoint.reads, Waypoint.scan?, Waypoint.own, Role.beginCycle]

/-- An order of the graph is one of the narrowed graph. -/
theorem topologicalOrder_narrowed (hg : g.WellFormed)
    (ha : (analyze active options).outcome g = (.ok report, h))
    (ho : g.topologicalOrder = .ok order) : (h.narrowed active).topologicalOrder = .ok order := by
  have hids : (h.narrowed active).ids = g.ids := by
    rw [narrowed, ids_mapWaypoints id_narrow]
    exact ids_eq_of_view Waypoint.id_beginCycle (beginCycle_of_analyze hg ha)
  have hlinks : (h.narrowed active).links = g.links :=
    (links_mapWaypoints ..).trans (links_eq_of_view (beginCycle_of_analyze hg ha))
  exact topologicalOrder_congr hids.symm (successors_congr hids.symm hlinks.symm) ho

/-- A walk over a supplied graph leaves scanners that project what they emit, and skip what they
read and do not project. -/
theorem thrifty_of_runs (hg : g.WellFormed) {root : WaypointId} {steps : Nat} {u : Walk}
    (hrun : Walk.Runs q steps (Walk.start (g.beginCycle.supplied active order) root) u)
    {n : WaypointId} {w : Waypoint} (hw : u.graph.find? n = some w) : w.Thrifty q := by
  refine hrun.forall_find? (P := fun t => t.Thrifty q) (fun ht hg => ht.answered hg)
    (fun {id v} hv => ?_) hw
  obtain ⟨v₀, -, hstatic⟩ := find?_supplied hg hv
  obtain ⟨hp, hd⟩ := Waypoint.scan?_quiet hstatic q
  exact ⟨by simp [hp], by simp [hd]⟩

/-- A second graph holds for a query what the first does, and its scanners have nothing to skip. -/
def Repeats (h : PlanGraph) (q : QueryId) (k : PlanGraph) : Prop :=
  ∀ n w, h.find? n = some w → ∃ v, k.find? n = some v ∧
    (∀ kind x, v.holdsExit kind ⟨q, x⟩ = w.holdsExit kind ⟨q, x⟩) ∧
      v.projected? q = w.projected? q ∧ (v.dropped? q).getD ∅ = ∅

theorem Repeats.congr {h' k k' : PlanGraph} (H : h.Repeats q k) (hh : h.only q = h'.only q)
    (hk : k.only q = k'.only q) : h'.Repeats q k' := by
  intro n w' hw'
  obtain ⟨w, hw, hww⟩ := find?_of_only_eq hh.symm hw'
  obtain ⟨v, hv, hholds, hprojected, hdropped⟩ := H n w hw
  obtain ⟨v', hv', hvv⟩ := find?_of_only_eq hk hv
  refine ⟨v', hv', fun kind x => ?_, ?_, ?_⟩
  · rw [← Waypoint.holdsExit_only, hvv, Waypoint.holdsExit_only, hholds, ← Waypoint.holdsExit_only,
      hww, Waypoint.holdsExit_only]
  · rw [← Waypoint.projected?_only, hvv, Waypoint.projected?_only, hprojected,
      ← Waypoint.projected?_only, hww, Waypoint.projected?_only]
  · rw [← Waypoint.dropped?_only, hvv, Waypoint.dropped?_only, hdropped]

/-! ## The narrowed graph trims the graph that was analysed -/

section Walked

variable (hg : g.WellFormed) (ho : g.topologicalOrder = .ok order) {root : WaypointId}
  {steps : Nat} {u : Walk} (hroot : g.root? q = some root)
  (hrun : Walk.Runs q steps (Walk.start (g.beginCycle.supplied active order) root) u)
  (hu : u.graph.only q = h.only q)

include hg ho hroot hrun hu

/-- A scanner emitted whatever was projected, and projected whatever was needed of it. -/
theorem projected_of_needs {n : WaypointId} {w : Waypoint}
    (hw : (g.beginCycle.supplied active order).find? n = some w) (hr : w.reads q = true) :
    ∃ v, h.find? n = some v ∧ (v.projected? q).getD ∅ ⊆ w.own q ∧
      ∀ S, u.Needs n S → S ⊆ (v.projected? q).getD ∅ := by
  have hwf := wellFormed_supplied (wellFormed_beginCycle hg) active order
  have hscanner : w.carries .flowThrough q = true ∧ w.kind.isSource = true ∧
      ∀ kind, w.passes kind q = false := by
    cases hrw : w.role <;>
      simp_all [Waypoint.reads, Waypoint.scan?, Waypoint.carries, Waypoint.kind, Role.kind,
        WaypointKind.isSource, Waypoint.passes]
  obtain ⟨hcarries, hsource, hpasses⟩ := hscanner
  obtain ⟨v', hv', hasked⟩ :=
    exists_find?_of_view Waypoint.id_unasked (hrun.unasked_eq hwf.nodup).symm hw
  obtain ⟨v, hv, honly⟩ := find?_of_only_eq hu hv'
  have hprojected : v.projected? q = v'.projected? q := by
    rw [← Waypoint.projected?_only, honly, Waypoint.projected?_only]
  refine ⟨v, hv, ?_, ?_⟩
  · intro x hx
    have hthrifty := thrifty_of_runs hg hrun hv'
    have hflow : (v'.flow q).unasked = (w.flow q).unasked := by
      rw [← Waypoint.flow_unasked, hasked, Waypoint.flow_unasked]
    have hproduced : (v'.flow q).produced = (w.flow q).produced := congrArg (·.produced) hflow
    have hx : x ∈ (w.flow q).produced := hproduced ▸ hthrifty.projected x (hprojected ▸ hx)
    rw [(settled_supplied hg ho active q).produced hw] at hx
    split at hx
    · obtain ⟨kind, hp, -⟩ | hown := Waypoint.mem_yield.1 hx
      · rw [hpasses] at hp
        cases hp
      · exact hown
    · exact absurd hx (OrdSet.not_mem_empty x)
  · rintro S ⟨y, hS⟩
    have he : ⟨.bottom, n, .flowThrough⟩ ∈ (g.beginCycle.supplied active order).inputs n := by
      refine mem_inputs.2 ⟨mem_ids_iff.2 ⟨w, hw⟩, ?_, rfl⟩
      exact id_of_find? hw ▸ hwf.sourced w (mem_of_find? hw) hsource
    obtain ⟨htracks, -⟩ := tracks_of_runs hg hroot hrun
    have hp := htracks.passes hS he hw
    obtain ⟨v'', hv'', -, hheeds⟩ := hp.recorded hcarries
    obtain rfl := Option.some.inj (hv'.symm.trans hv'')
    rw [hprojected]
    have hreads : v'.reads q = true := by
      rw [← Waypoint.reads_unasked, hasked, Waypoint.reads_unasked, hr]
    cases hrv : v'.role <;>
      simp_all [Waypoint.Heeds, Waypoint.projected?, Waypoint.reads, Waypoint.scan?]

omit ho in
/-- Where a walk has reached every waypoint of its query, something is needed of each. -/
theorem exists_needs (hreached : h.unreachable q u.entered = []) {n : WaypointId} {w : Waypoint}
    (hw : (g.beginCycle.supplied active order).find? n = some w) (hc : w.covers q = true) :
    ∃ S, u.Needs n S := by
  have hwf := wellFormed_supplied (wellFormed_beginCycle hg) active order
  obtain ⟨v', hv', hasked⟩ :=
    exists_find?_of_view Waypoint.id_unasked (hrun.unasked_eq hwf.nodup).symm hw
  obtain ⟨v, hv, honly⟩ := find?_of_only_eq hu hv'
  have hcovers : v.covers q = true := by
    rw [← Waypoint.covers_only, honly, Waypoint.covers_only, ← Waypoint.covers_unasked, hasked,
      Waypoint.covers_unasked, hc]
  obtain ⟨htracks, -⟩ := tracks_of_runs hg hroot hrun
  have hn : n ∈ u.entered :=
    id_of_find? hv ▸ unreachable_eq_nil_iff.1 hreached v (mem_of_find? hv) hcovers
  obtain ⟨y, S, hS⟩ := (htracks.entered n).1 hn
  exact ⟨S, y, hS⟩

variable (ha : (analyze active options).outcome g = (.ok report, h)) (hq : q ∈ active.toList)

include ha hq

/-- **Once a cycle begins, the narrowed graph trims the graph that was analysed.** -/
theorem trims_narrowed :
    Trims (g.beginCycle.supplied active order)
      ((h.narrowed active).beginCycle.supplied active order) active order q u.Needs := by
  have hh := wellFormed_of_analyze hg ha
  have hb := wellFormed_beginCycle hg
  have hn := wellFormed_narrowed hh active
  have hids : (g.beginCycle.supplied active order).ids = g.ids := by
    rw [ids_supplied, ids_beginCycle]
  have hlinks : (g.beginCycle.supplied active order).links = g.links :=
    links_supplied hb.nodup active order
  obtain ⟨htracks, hstack⟩ := tracks_of_runs hg hroot hrun
  have hwf := wellFormed_supplied hb active order
  have houtline : (g.beginCycle.supplied active order).mapWaypoints (·.outline q) =
      ((h.narrowed active).beginCycle.supplied active order).mapWaypoints (·.outline q) := by
    rw [outline_supplied hb, outline_supplied (wellFormed_beginCycle hn), outline_narrowed hg ha]
  have projected {n : WaypointId} {w v : Waypoint}
      (hw : (g.beginCycle.supplied active order).find? n = some w)
      (hv : ((h.narrowed active).beginCycle.supplied active order).find? n = some v)
      (hr : w.reads q = true) :
      ∃ v', h.find? n = some v' ∧ v.own q = (v'.projected? q).getD ∅ ∧
        (v'.projected? q).getD ∅ ⊆ w.own q ∧
        ∀ S, u.Needs n S → S ⊆ (v'.projected? q).getD ∅ := by
    obtain ⟨v₀, hv₀, hout⟩ := exists_find?_of_view (Waypoint.id_outline q) houtline.symm hv
    obtain rfl := Option.some.inj (hw.symm.trans hv₀)
    have hrv : v.reads q = true := by
      rw [← Waypoint.reads_outline, ← hout, Waypoint.reads_outline, hr]
    obtain ⟨v', hv', hown⟩ := own_narrowed hg ha hq hv hrv
    obtain ⟨v'', hv'', hsub⟩ := projected_of_needs hg ho hroot hrun hu hw hr
    obtain rfl := Option.some.inj (hv'.symm.trans hv'')
    exact ⟨v', hv', hown, hsub⟩
  refine
    { wellFormed := hwf
      outline := houtline
      forward := fun hm hn hlink =>
        idxOf_lt_of_link hg ho (hids ▸ hm) (hids ▸ hn) (hlinks ▸ hlink)
      settled := settled_supplied hg ho active q
      settled' := settled_supplied hn (topologicalOrder_narrowed hg ha ho) active q
      closed := ?_
      less := ?_
      enough := ?_ }
  · rintro m n kind S v w ⟨y, hS⟩ hw hc hv hcov hlink
    have hm := hwf.proper m (mem_ids_iff.2 ⟨v, hv⟩)
    have he : ⟨m, n, kind⟩ ∈ (g.beginCycle.supplied active order).inputs n :=
      mem_inputs.2 ⟨mem_ids_iff.2 ⟨w, hw⟩, hlink, rfl⟩
    have hp := htracks.passes hS he hw
    obtain ⟨T, hT, hsub⟩ := Walk.asked_of_serves hstack (hp.served hc hm) ⟨v, hv, hcov⟩
    exact ⟨T, ⟨_, hT⟩, hsub⟩
  · intro n w v hw hv hr
    obtain ⟨v', hv', hown, hsub, -⟩ := projected hw hv hr
    rw [hown]
    exact hsub
  · intro n w v S hw hv hr hS
    obtain ⟨v', hv', hown, -, hneeds⟩ := projected hw hv hr
    rw [hown]
    exact hneeds S hS

/-- The walk of the query can be followed on the narrowed graph. -/
theorem beside_narrowed :
    Walk.Beside (Waypoint.Echoes q fun n S => ∀ x ∈ S, ∃ T, u.Needs n T ∧ x ∈ T)
      (Walk.start (g.beginCycle.supplied active order) root)
      (Walk.start ((h.narrowed active).beginCycle.supplied active order) root) := by
  have htrims := trims_narrowed hg ho hroot hrun hu ha hq
  have hn := wellFormed_narrowed (wellFormed_of_analyze hg ha) active
  refine ⟨⟨?_, links_eq_of_view htrims.outline, roots_eq_of_view htrims.outline, ?_⟩, rfl, rfl, rfl⟩
  · exact ids_eq_of_view (Waypoint.id_outline q) htrims.outline
  · intro n w hw
    obtain ⟨v, hv, hout⟩ := htrims.exists_find? hw
    obtain ⟨w₀, -, hw₀⟩ := find?_supplied hg hw
    obtain ⟨v₀, -, hv₀⟩ := find?_supplied hn hv
    have hid := id_of_find? hw
    refine ⟨v, hv, ⟨(id_of_find? hv).trans hid.symm, ?_, ?_, fun kind => ?_, fun kind x => ?_, ?_,
      fun {kind S} hS hgrants => ?_, fun {kind S} hS => ?_⟩⟩
    · rw [← Waypoint.covers_outline, hout, Waypoint.covers_outline]
    · rw [← Waypoint.reads_outline, hout, Waypoint.reads_outline]
    · rw [← Waypoint.carries_outline, hout, Waypoint.carries_outline]
    · rw [holdsExit_supplied hn hv, holdsExit_supplied hg hw]
    · rw [(Waypoint.scan?_quiet hv₀ q).1, (Waypoint.scan?_quiet hw₀ q).1]
    · intro hguards x hx
      rw [← Waypoint.guards_outline, hout, Waypoint.guards_outline] at hguards
      obtain ⟨T, hT, hxT⟩ := hS x hx
      exact htrims.mem_produced hw hv (hid ▸ hT) hxT (hgrants hguards x hx)
    · exact htrims.below_eq hw hv (hid ▸ hS)

/-! ## One query on the narrowed graph -/

/-- Feeding a query on the narrowed graph fails nowhere but at a waypoint that does not find
what it computes as well. -/
theorem fedAlong_narrowed_iff (hfed : g.beginCycle.FedAlong active q order)
    (hreached : h.unreachable q u.entered = []) :
    (h.narrowed active).beginCycle.FedAlong active q order ↔
      ∀ n v, ((h.narrowed active).beginCycle.supplied active order).find? n = some v →
        v.FindsOwn q := by
  have htrims := trims_narrowed hg ho hroot hrun hu ha hq
  have hn := wellFormed_narrowed (wellFormed_of_analyze hg ha) active
  have ho' := topologicalOrder_narrowed hg ha ho
  rw [fedAlong_iff hg ho] at hfed
  rw [fedAlong_iff hn ho']
  refine forall_congr' fun n => forall_congr' fun v => imp_congr_right fun hv => ?_
  obtain ⟨w, hw, -⟩ := exists_find?_of_view (Waypoint.id_outline q) htrims.outline.symm hv
  exact htrims.fed_iff hw hv (hfed n w hw) (exists_needs hg hroot hrun hu hreached hw)

/-- The walk of the query on the narrowed graph takes the same visits, and leaves the same
exits and projections; scanners have nothing left to skip. -/
theorem exists_runs_narrowed :
    ∃ u', Walk.Runs q steps
        (Walk.start ((h.narrowed active).beginCycle.supplied active order) root) u' ∧
      u'.entered = u.entered ∧ h.Repeats q u'.graph := by
  have hn := wellFormed_narrowed (wellFormed_of_analyze hg ha) active
  obtain ⟨u', hrun', hbeside⟩ := hrun.follow (Walk.alike_echoes q _)
    (fun hST hT x hx => hT x (hST x hx)) (beside_narrowed hg ho hroot hrun hu ha hq)
    fun a S hS x hx => ⟨S, ⟨a.exit, hS⟩, hx⟩
  refine ⟨u', hrun', hbeside.entered.symm, Repeats.congr (h := u.graph) ?_ hu rfl⟩
  intro n w hw
  obtain ⟨v, hv, hechoes⟩ := hbeside.graph.find? hw
  refine ⟨v, hv, fun kind x => hechoes.holdsExit kind x, hechoes.projected, ?_⟩
  -- What a scanner could skip it would emit without projecting, and it emits what is projected.
  ext x
  refine iff_of_false (fun hx => ?_) (OrdSet.not_mem_empty x)
  obtain ⟨hreads, hused, hnot⟩ := (thrifty_of_runs hn hrun' hv).dropped x hx
  have hwf' := wellFormed_supplied (wellFormed_beginCycle hn) active order
  obtain ⟨v₀, hv₀, hasked⟩ :=
    exists_find?_of_view Waypoint.id_unasked (hrun'.unasked_eq hwf'.nodup) hv
  have hreads₀ : v₀.reads q = true := by
    rw [← Waypoint.reads_unasked, hasked, Waypoint.reads_unasked, hreads]
  obtain ⟨w', hw', hown⟩ := own_narrowed hg ha hq hv₀ hreads₀
  obtain ⟨w'', hw'', honly⟩ := find?_of_only_eq hu hw
  obtain rfl := Option.some.inj (hw'.symm.trans hw'')
  have hprojected : v.projected? q = w'.projected? q := by
    rw [hechoes.projected, ← Waypoint.projected?_only, ← honly, Waypoint.projected?_only]
  have hflow : (v.flow q).unasked = (v₀.flow q).unasked := by
    rw [← Waypoint.flow_unasked, ← hasked, Waypoint.flow_unasked]
  have hused' : (v.flow q).used = (v₀.flow q).used := congrArg (·.used) hflow
  rw [hused', ← Waypoint.own_of_reads hreads₀, hown, ← hprojected] at hused
  exact hnot hused

end Walked

end PlanGraph

end SharedPlan
