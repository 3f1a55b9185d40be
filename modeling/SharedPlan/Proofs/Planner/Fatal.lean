import SharedPlan.Proofs.Analysis.Fatal
import SharedPlan.Proofs.Planner.Attempts

/-!
# SharedPlan.Proofs.Planner.Fatal

Compile cycles fail only because the plan contradicts itself.

A planner is driven by calls of its own and by calls on its graph, which bypass names and
registries (`Planner.Act`).  Whatever is done, and whether or not it succeeds, the graph
stays one that can be built (`reachable_actAll`), so a cycle ends with a snapshot or with an
error that aborts it (`compile_fails_fatally`).
-/

namespace SharedPlan

namespace Planner

variable {p : Planner}

/-! ## Acts -/

/-- What can be done to a planner: call it, or call its graph. -/
inductive Act where
  | call (c : Call)
  | addWaypoint (w : Waypoint) (made : w.Made)
  | addEdge (sender receiver : WaypointId) (kind : EdgeKind)
  | setRoot (q : QueryId) (id : WaypointId)
  | deleteQuery (q : QueryId)
  | clearQueries

/-- A call on the graph; where it fails, the graph stays as it is. -/
def onGraph (f : PlanGraph → Except PlanError PlanGraph) : Attempt Planner Unit :=
  build (Attempt.within (·.graph) (fun ws graph => { ws with graph }) (.update f))

/-- What a planner does when something is done to it. -/
def act (p : Planner) : Act → Reply × Planner
  | .call c => p.perform c
  | .addWaypoint w _ => answer .done (onGraph (·.addWaypoint w)) p
  | .addEdge sender receiver kind => answer .done (onGraph (·.addEdge sender receiver kind)) p
  | .setRoot q id => answer .done (onGraph (·.setRoot q id)) p
  | .deleteQuery q => answer .done (onGraph fun g => .ok (g.deleteQuery q)) p
  | .clearQueries => answer .done (onGraph fun g => .ok g.clearQueries) p

/-- The planner after a sequence of acts. -/
def actAll (acts : List Act) (p : Planner) : Planner := acts.foldl (fun p a => (p.act a).2) p

/-! ## The graph stays one that can be built -/

theorem reachable_perform (hp : p.workspace.graph.Reachable) (c : Call) :
    (p.perform c).2.workspace.graph.Reachable := by
  have hself : Alike p p := ⟨rfl, rfl, rfl, rfl, hp, hp, rfl⟩
  exact (hself.perform c).2.workspace.graph.left

theorem reachable_onGraph (hp : p.workspace.graph.Reachable)
    {f : PlanGraph → Except PlanError PlanGraph}
    (hf : ∀ {g}, f p.workspace.graph = .ok g → g.Reachable) :
    (answer .done (onGraph f) p).2.workspace.graph.Reachable := by
  simp only [answer, onGraph, build, Attempt.outcome_within, Attempt.outcome_update]
  cases hr : f p.workspace.graph with
  | error e => exact hp
  | ok g => exact hf hr

/-- **Every act leaves a graph that can be built**, whether it succeeds or fails. -/
theorem reachable_act (hp : p.workspace.graph.Reachable) (a : Act) :
    (p.act a).2.workspace.graph.Reachable := by
  cases a with
  | call c => exact reachable_perform hp c
  | addWaypoint w made => exact reachable_onGraph hp fun h => hp.addWaypoint made h
  | addEdge sender receiver kind => exact reachable_onGraph hp fun h => hp.addEdge h
  | setRoot q id => exact reachable_onGraph hp fun h => hp.setRoot h
  | deleteQuery q => exact reachable_onGraph hp fun h => Except.ok.inj h ▸ hp.deleteQuery q
  | clearQueries => exact reachable_onGraph hp fun h => Except.ok.inj h ▸ hp.clearQueries

theorem reachable_actAll (hp : p.workspace.graph.Reachable) (acts : List Act) :
    (p.actAll acts).workspace.graph.Reachable := by
  induction acts generalizing p with
  | nil => exact hp
  | cons a rest ih => exact ih (reachable_act hp a)

theorem Fresh.reachable (hp : p.Fresh) : p.workspace.graph.Reachable :=
  hp.alike.workspace.graph.left

/-! ## Cycles -/

/-- Routing an analysed graph does not fail. -/
theorem isFatal_of_analyzeAndRoute {g h : PlanGraph} (hg : g.Reachable) {active : QuerySet}
    {options : PlannerOptions} {e : PlanError}
    (hr : (analyzeAndRoute active options).outcome g = (.error e, h)) : e.isFatal = true := by
  rw [analyzeAndRoute_outcome] at hr
  cases ha : (PlanGraph.analyze active options).outcome g with
  | mk r k =>
      rw [ha] at hr
      cases r with
      | error e' =>
          obtain rfl := Except.error.inj (Prod.mk.inj hr).1
          exact PlanGraph.isFatal_of_analyze hg ha
      | ok report =>
          obtain ⟨t, ht, -⟩ := PlanGraph.exists_routing_of_analyze hg.wellFormed ha
          simp only [ht, Prod.mk.injEq, reduceCtorEq, false_and] at hr

/-- **A compile cycle can only fail with an invariant violation.**  Whatever was done to a planner
and to its graph, by calls that succeeded or failed, a cycle ends with a snapshot or with
an error that aborts it.  No pass comes to a waypoint that is not there or is there twice. -/
theorem compile_fails_fatally (hp : p.Fresh) (acts : List Act) :
    (∃ s, (compile.outcome (p.actAll acts)).1 = .ok s) ∨
      ∃ e, (compile.outcome (p.actAll acts)).1 = .error e ∧ e.isFatal = true ∧
        (∀ name, e ≠ .unknownWaypoint name) ∧ ∀ name, e ≠ .duplicateWaypoint name := by
  have hreachable := reachable_actAll hp.reachable acts
  rw [compile_outcome]
  cases hr : (analyzeAndRoute (p.actAll acts).workspace.queries.active
      (p.actAll acts).options).outcome (p.actAll acts).workspace.graph with
  | mk r graph =>
      cases r with
      | ok routing => exact .inl ⟨_, rfl⟩
      | error e =>
          have hfatal := isFatal_of_analyzeAndRoute hreachable hr
          refine .inr ⟨e, rfl, hfatal, ?_, ?_⟩ <;> rintro name rfl <;> cases hfatal

/-- A waypoint that is given to the graph itself, and calls on the graph that fail: a query without
a root is what the cycle fails with. -/
theorem compile_fails_fatally_rootless :
    ∃ p e, p = Planner.new .standard (.ofNames ["a"]) ∧
      (compile.outcome (p.actAll [.call (.addQuery "q"), .setRoot ⟨0⟩ ⟨2⟩,
        .addWaypoint (.fresh ⟨2⟩ "out" (.print ∅)) (.fresh _ _ rfl),
        .addEdge ⟨2⟩ ⟨3⟩ .flowThrough])).1 = .error e ∧
      e = .missingRoot ⟨0⟩ ∧ e.isFatal = true := by
  obtain ⟨p, hp⟩ : ∃ p, p = Planner.new .standard (.ofNames ["a"]) := ⟨_, rfl⟩
  have herror : (compile.outcome (p.actAll [.call (.addQuery "q"), .setRoot ⟨0⟩ ⟨2⟩,
      .addWaypoint (.fresh ⟨2⟩ "out" (.print ∅)) (.fresh _ _ rfl),
      .addEdge ⟨2⟩ ⟨3⟩ .flowThrough])).1 = .error (.missingRoot ⟨0⟩) := by
    rw [hp]
    decide +kernel
  have hfresh : p.Fresh := hp ▸ .new .standard (.ofNames ["a"])
  rcases compile_fails_fatally hfresh _ with ⟨s, hs⟩ | ⟨e, he, hfatal, -⟩
  · rw [herror] at hs
    cases hs
  · exact ⟨p, e, hp, he, (Except.error.inj (herror.symm.trans he)).symm, hfatal⟩

end Planner

end SharedPlan
