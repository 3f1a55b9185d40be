import SharedPlan.Proofs.Analysis.Narrowing

/-!
# SharedPlan.Proofs.Analysis.Dropped

Whether columns that an analysis lets scanners skip can be skipped.

After an analysis that reached everything, the narrowed graph is analysed again.  The
second analysis can fail in one way only: a waypoint that computes an attribute which
it also reads asks for it nowhere, so that no scanner projects it, and on the narrowed
graph it may not arrive (`analyze_narrowed_iff`).  Where no waypoint reads what it
computes itself, dropped columns can be skipped (`exists_analyze_narrowed_of_apart`).
-/

namespace SharedPlan

namespace PlanGraph

variable {g h : PlanGraph} {active : QuerySet} {options : PlannerOptions}
  {report : AnalysisReport} {q : QueryId} {order : List WaypointId}

/-! ## One query -/

section Clears

variable {r r' : WalkReport} {k k' : PlanGraph} (hg : g.WellFormed)
  (ho : g.topologicalOrder = .ok order)
  (ha : (analyze active options).outcome g = (.ok report, h)) (hq : q ∈ active.toList)
  (hk : g.Clears active options order q r k) (honly : k.only q = h.only q)
  (hreached : h.unreachable q r.entered = [])

include hg ho ha hq hk honly hreached

/-- **A query clears the analysis of the narrowed graph** where every waypoint finds what it
computes as well.  Its walk then reports what it reported before. -/
theorem exists_clears_narrowed
    (hfinds : ∀ n v, ((h.narrowed active).beginCycle.supplied active order).find? n = some v →
      v.FindsOwn q) :
    ∃ k', (h.narrowed active).Clears active options order q r k' ∧ h.Repeats q k' := by
  obtain ⟨hfed, ⟨root, hroot, hwalk⟩, haudit⟩ := hk
  obtain ⟨steps, u, hrun, hsteps, rfl, rfl⟩ := Walk.run_eq_ok_iff.1 hwalk
  have hn := wellFormed_narrowed (wellFormed_of_analyze hg ha) active
  obtain ⟨u', hrun', hentered, hrepeats⟩ := exists_runs_narrowed hg ho hroot hrun honly ha hq
  refine ⟨u'.graph, ⟨?_, ⟨root, ?_, ?_⟩, fun hv => ?_⟩, hrepeats⟩
  · exact (fedAlong_narrowed_iff hg ho hroot hrun honly ha hq hfed hreached).2 hfinds
  · show (h.narrowed active).beginCycle.root? q = some root
    rw [root?, roots_eq_of_view (outline_narrowed hg ha q)]
    exact hroot
  · exact Walk.run_eq_ok_iff.2 ⟨steps, u', hrun', hsteps, by rw [hentered], rfl⟩
  · refine checkExits_eq_ok_iff.2 fun id hid => ?_
    obtain ⟨w, hw, hexit⟩ := checkExits_eq_ok_iff.1 (haudit hv) id hid
    obtain ⟨v, hv, hvw⟩ := find?_of_only_eq honly hw
    obtain ⟨v', hv', hholds, -⟩ := hrepeats id v hv
    refine ⟨v', hv', ?_⟩
    rw [← Waypoint.flow_eq_of_only hvw, Waypoint.hasExit_iff] at hexit
    obtain ⟨kind, x, hx⟩ := hexit
    exact Waypoint.hasExit_iff.2 ⟨kind, x, (hholds kind x).trans hx⟩

/-- A query that clears the analysis of the narrowed graph finds everywhere what is computed
there as well. -/
theorem findsOwn_of_clears (hk' : (h.narrowed active).Clears active options order q r' k')
    {n : WaypointId} {v : Waypoint}
    (hv : ((h.narrowed active).beginCycle.supplied active order).find? n = some v) :
    v.FindsOwn q := by
  obtain ⟨hfed, ⟨root, hroot, hwalk⟩, -⟩ := hk
  obtain ⟨steps, u, hrun, hsteps, rfl, rfl⟩ := Walk.run_eq_ok_iff.1 hwalk
  exact (fedAlong_narrowed_iff hg ho hroot hrun honly ha hq hfed hreached).1 hk'.fed n v hv

end Clears

/-! ## All queries -/

/-- Of a query that is not active, an analysis leaves nothing. -/
theorem quiet_of_analyze (hg : g.WellFormed)
    (ha : (analyze active options).outcome g = (.ok report, h)) (hq : q ∉ active.toList)
    {n : WaypointId} {w : Waypoint} (hw : h.find? n = some w) :
    (∀ kind x, w.holdsExit kind ⟨q, x⟩ = false) ∧ w.projected? q = none ∧ w.dropped? q = none := by
  obtain ⟨order, -, -, -, hother, -⟩ := exists_run_of_analyze hg ha
  obtain ⟨v, hv, honly⟩ := find?_of_only_eq (hother q hq) hw
  obtain ⟨v₀, -, hstatic⟩ := find?_supplied hg hv
  obtain ⟨hprojected, hdropped⟩ := Waypoint.scan?_quiet hstatic q
  refine ⟨fun kind x => ?_, ?_, ?_⟩
  · rw [← Waypoint.holdsExit_only, ← honly, Waypoint.holdsExit_only, holdsExit_supplied hg hv]
  · rw [← Waypoint.projected?_only, ← honly, Waypoint.projected?_only, hprojected]
  · rw [← Waypoint.dropped?_only, ← honly, Waypoint.dropped?_only, hdropped]

section Narrowed

variable (hg : g.WellFormed) (hwarn : options.warnUnreachable = true)
  (ha : (analyze active options).outcome g = (.ok report, h)) (hempty : report.unreachable = [])

include hg hwarn ha hempty

/-- In an analysis that reached everything, the walk of an active query did so. -/
theorem reached_of_analyze (hq : q ∈ active.toList) :
    ∃ r k, g.Clears active options report.order q r k ∧ k.only q = h.only q ∧
      h.unreachable q r.entered = [] := by
  obtain ⟨order, ho, hclear⟩ := clears_of_analyze hg ha
  obtain rfl := Except.ok.inj ((order_of_analyze ha).symm.trans ho)
  obtain ⟨r, k, hk, honly, -, hstrays⟩ := hclear q hq
  refine ⟨r, k, hk, honly, ?_⟩
  rw [hempty, strays, if_pos hwarn] at hstrays
  exact List.map_eq_nil_iff.1 hstrays.symm

/-- The narrowed graph can be analysed when every waypoint finds there what it computes as
well. -/
theorem exists_analyze_narrowed
    (hfinds : ∀ q ∈ active.toList, ∀ n v,
      ((h.narrowed active).beginCycle.supplied active report.order).find? n = some v →
        v.FindsOwn q) :
    ∃ r k, (analyze active options).outcome (h.narrowed active) = (.ok r, k) := by
  have ho := order_of_analyze ha
  have hn := wellFormed_narrowed (wellFormed_of_analyze hg ha) active
  refine exists_analyze hn (topologicalOrder_narrowed hg ha ho) fun q hq => ?_
  obtain ⟨r, k, hk, honly, hreached⟩ := reached_of_analyze hg hwarn ha hempty hq
  obtain ⟨k', hk', -⟩ := exists_clears_narrowed hg ho ha hq hk honly hreached (hfinds q hq)
  exact ⟨_, k', hk'⟩

variable {r : AnalysisReport} {k : PlanGraph}
  (hk : (analyze active options).outcome (h.narrowed active) = (.ok r, k))

include hk

/-- A narrowed graph that can be analysed has every waypoint find what it computes as well. -/
theorem findsOwn_of_analyze (hq : q ∈ active.toList) {n : WaypointId} {v : Waypoint}
    (hv : ((h.narrowed active).beginCycle.supplied active report.order).find? n = some v) :
    v.FindsOwn q := by
  have ho := order_of_analyze ha
  have hn := wellFormed_narrowed (wellFormed_of_analyze hg ha) active
  obtain ⟨r₁, k₁, hk₁, honly, hreached⟩ := reached_of_analyze hg hwarn ha hempty hq
  obtain ⟨order, ho', hclear⟩ := clears_of_analyze hn hk
  obtain rfl := Except.ok.inj ((topologicalOrder_narrowed hg ha ho).symm.trans ho')
  obtain ⟨r₂, k₂, hk₂, -⟩ := hclear q hq
  exact findsOwn_of_clears hg ho ha hq hk₁ honly hreached hk₂ hv

/-- The analysis of the narrowed graph repeats what was recorded before. -/
theorem repeats_of_analyze (q : QueryId) : h.Repeats q k := by
  have ho := order_of_analyze ha
  have hn := wellFormed_narrowed (wellFormed_of_analyze hg ha) active
  by_cases hq : q ∈ active.toList
  · obtain ⟨r₁, k₁, hk₁, honly, hreached⟩ := reached_of_analyze hg hwarn ha hempty hq
    obtain ⟨order, ho', hclear⟩ := clears_of_analyze hn hk
    obtain rfl := Except.ok.inj ((topologicalOrder_narrowed hg ha ho).symm.trans ho')
    obtain ⟨r₂, k₂, hk₂, honly', -⟩ := hclear q hq
    obtain ⟨k₃, hk₃, hrepeats⟩ := exists_clears_narrowed hg ho ha hq hk₁ honly hreached
      fun _ _ => findsOwn_of_analyze hg hwarn ha hempty hk hq
    obtain ⟨-, rfl⟩ := hk₃.unique hk₂
    exact hrepeats.congr rfl honly'
  · intro n w hw
    have hw' : (h.narrowed active).find? n = some (w.narrow active) := by
      rw [narrowed, find?_mapWaypoints id_narrow, hw, Option.map_some]
    obtain ⟨v, hv, -⟩ :=
      exists_find?_of_view Waypoint.id_beginCycle (beginCycle_of_analyze hn hk).symm hw'
    obtain ⟨hexits, hprojected, -⟩ := quiet_of_analyze hg ha hq hw
    obtain ⟨hexits', hprojected', hdropped'⟩ := quiet_of_analyze hn hk hq hv
    refine ⟨v, hv, fun kind x => ?_, ?_, ?_⟩
    · rw [hexits, hexits']
    · rw [hprojected, hprojected']
    · rw [hdropped', Option.getD_none]

end Narrowed

/-- **Whether dropped columns can be skipped.**  After an analysis that reached everything,
let scanners read only what was projected.  The analysis then succeeds again exactly when
every attribute that a waypoint must find, although it computes it as well, still arrives
there.  When it succeeds, the same exits are recorded and the same columns projected, and
nothing is left to drop. -/
theorem analyze_narrowed_iff (hg : g.Reachable) (hwarn : options.warnUnreachable = true)
    (ha : (analyze active options).outcome g = (.ok report, h)) (hempty : report.unreachable = []) :
    ((∃ r k, (analyze active options).outcome (h.narrowed active) = (.ok r, k)) ↔
      ∀ q ∈ active.toList, ∀ n v,
        ((h.narrowed active).beginCycle.supplied active report.order).find? n = some v →
          v.FindsOwn q) ∧
    ∀ r k, (analyze active options).outcome (h.narrowed active) = (.ok r, k) →
      ∀ q n w v, h.find? n = some w → k.find? n = some v →
        (∀ kind x, v.holdsExit kind ⟨q, x⟩ = w.holdsExit kind ⟨q, x⟩) ∧
          v.projected? q = w.projected? q ∧ (v.dropped? q).getD ∅ = ∅ := by
  have hwf := hg.wellFormed
  refine ⟨⟨?_, exists_analyze_narrowed hwf hwarn ha hempty⟩, ?_⟩
  · rintro ⟨r, k, hk⟩ q hq n v hv
    exact findsOwn_of_analyze hwf hwarn ha hempty hk hq hv
  · intro r k hk q n w v hw hv
    obtain ⟨v', hv', hrepeats⟩ := repeats_of_analyze hwf hwarn ha hempty hk q n w hw
    obtain rfl := Option.some.inj (hv.symm.trans hv')
    exact hrepeats

/-- Below a filter that computes nothing, the column is projected, and the line is analysed
again with nothing to drop. -/
theorem analyze_narrowed_line :
    ∃ report h r k, (analyze (.singleton ⟨0⟩) ⟨64, true, true, 10⟩).outcome
        (line.along ⟨0⟩ (.filter (.singleton ⟨0⟩))) = (.ok report, h) ∧
      report.unreachable = [] ∧
      (analyze (.singleton ⟨0⟩) ⟨64, true, true, 10⟩).outcome (h.narrowed (.singleton ⟨0⟩)) =
        (.ok r, k) ∧
      (∀ q ∈ (QuerySet.singleton ⟨0⟩).toList, ∀ n v,
        ((h.narrowed (.singleton ⟨0⟩)).beginCycle.supplied (.singleton ⟨0⟩)
          report.order).find? n = some v → v.FindsOwn q) ∧
      ∀ q n w v, h.find? n = some w → k.find? n = some v →
        (∀ kind x, v.holdsExit kind ⟨q, x⟩ = w.holdsExit kind ⟨q, x⟩) ∧
          v.projected? q = w.projected? q ∧ (v.dropped? q).getD ∅ = ∅ := by
  have ha : ((analyze (.singleton ⟨0⟩) ⟨64, true, true, 10⟩).outcome
      (line.along ⟨0⟩ (.filter (.singleton ⟨0⟩)))).1 =
        .ok ⟨[⟨2⟩, ⟨3⟩, ⟨4⟩], (∅ : OrdMap QueryId Nat).insert ⟨0⟩ 3, []⟩ := by
    decide +kernel
  have hk : ((analyze (.singleton ⟨0⟩) ⟨64, true, true, 10⟩).outcome
      (((analyze (.singleton ⟨0⟩) ⟨64, true, true, 10⟩).outcome
        (line.along ⟨0⟩ (.filter (.singleton ⟨0⟩)))).2.narrowed (.singleton ⟨0⟩))).1 =
        .ok ⟨[⟨2⟩, ⟨3⟩, ⟨4⟩], (∅ : OrdMap QueryId Nat).insert ⟨0⟩ 3, []⟩ := by
    decide +kernel
  obtain ⟨hiff, hrepeats⟩ :=
    analyze_narrowed_iff (line_reachable.along _ _) rfl (Attempt.eq_of_ok ha) rfl
  exact ⟨_, _, _, _, Attempt.eq_of_ok ha, rfl, Attempt.eq_of_ok hk,
    hiff.1 ⟨_, _, Attempt.eq_of_ok hk⟩, hrepeats _ _ (Attempt.eq_of_ok hk)⟩

/-- Below a selection that reads the column and computes it as well, the column is dropped;
but without it the selection is not fed. -/
theorem analyze_narrowed_fails_line :
    ∃ report h, (analyze (.singleton ⟨0⟩) ⟨64, true, true, 10⟩).outcome
        (line.along ⟨0⟩ (.synthesize ⟨0⟩ (.singleton ⟨0⟩))) = (.ok report, h) ∧
      report.unreachable = [] ∧
      ¬∃ r k, (analyze (.singleton ⟨0⟩) ⟨64, true, true, 10⟩).outcome
        (h.narrowed (.singleton ⟨0⟩)) = (.ok r, k) := by
  have ha : ((analyze (.singleton ⟨0⟩) ⟨64, true, true, 10⟩).outcome
      (line.along ⟨0⟩ (.synthesize ⟨0⟩ (.singleton ⟨0⟩)))).1 =
        .ok ⟨[⟨2⟩, ⟨3⟩, ⟨4⟩], (∅ : OrdMap QueryId Nat).insert ⟨0⟩ 3, []⟩ := by
    decide +kernel
  have hfails : ((analyze (.singleton ⟨0⟩) ⟨64, true, true, 10⟩).outcome
      (((analyze (.singleton ⟨0⟩) ⟨64, true, true, 10⟩).outcome
        (line.along ⟨0⟩ (.synthesize ⟨0⟩ (.singleton ⟨0⟩)))).2.narrowed (.singleton ⟨0⟩))).1.isOk =
          false := by
    decide +kernel
  refine ⟨_, _, Attempt.eq_of_ok ha, rfl, ?_⟩
  rintro ⟨r, k, hk⟩
  rw [hk] at hfails
  cases hfails

/-- **Where no waypoint reads what it computes itself, dropped columns can be skipped.** -/
theorem exists_analyze_narrowed_of_apart (hg : g.Reachable) (hwarn : options.warnUnreachable = true)
    (ha : (analyze active options).outcome g = (.ok report, h)) (hempty : report.unreachable = [])
    (hapart : ∀ q ∈ active.toList, ∀ n w, g.beginCycle.find? n = some w →
      ∀ kind, w.passes kind q = true → ∀ x ∈ w.requires kind q, x ∉ w.own q) :
    ∃ r k, (analyze active options).outcome (h.narrowed active) = (.ok r, k) := by
  have hwf := hg.wellFormed
  have hn := wellFormed_narrowed (wellFormed_of_analyze hwf ha) active
  refine exists_analyze_narrowed hwf hwarn ha hempty fun q hq n v hv => ?_
  have houtline : ((h.narrowed active).beginCycle.supplied active report.order).mapWaypoints
      (·.outline q) = g.beginCycle.mapWaypoints (·.outline q) := by
    rw [outline_supplied (wellFormed_beginCycle hn), outline_narrowed hwf ha]
  obtain ⟨w, hw, hout⟩ := exists_find?_of_view (Waypoint.id_outline q) houtline hv
  intro kind hp x hx hown
  have hscans {v : Waypoint} (hp : v.passes kind q = true) : v.role.scans = false := by
    cases hr : v.role <;> simp_all [Waypoint.passes, Role.scans]
  have hpw : w.passes kind q = true := by
    rw [← Waypoint.passes_outline, hout, Waypoint.passes_outline, hp]
  refine absurd ?_ (hapart q hq n w hw kind hpw x ?_)
  · rwa [← Waypoint.own_outline (hscans hpw), hout, Waypoint.own_outline (hscans hp)]
  · rwa [← Waypoint.requires_outline, hout, Waypoint.requires_outline]

end PlanGraph

end SharedPlan
