import SharedPlan.Proofs.Analysis.Recorded

/-!
# SharedPlan.Proofs.Analysis.Renewed

What an analysis leaves, whether or not it succeeds.

All that the passes write is forgotten when the next cycle begins, so a graph on which an
analysis failed in the middle `Renews` the one that it started from (`renews_analyze`).
An analysis begins a cycle before it looks at anything else that a waypoint keeps.
On graphs that begin a cycle alike it therefore comes to the same end, and leaves the same
graph where it succeeds (`analyze_congr`).
-/

namespace SharedPlan

namespace Attempt

variable {σ α β : Type} {P : σ → Prop}

/-- A step keeps a property of the state, whether it succeeds or fails. -/
def Keeps (P : σ → Prop) (a : Attempt σ α) : Prop := ∀ s, P s → P (a.outcome s).2

/-- A step that only answers keeps everything. -/
theorem keeps_pure (x : α) : Keeps P (pure x : Attempt σ α) := fun _ h => h

theorem keeps_get : Keeps P (get : Attempt σ σ) := fun _ h => h

theorem keeps_ofExcept (r : Except PlanError α) : Keeps P (.ofExcept r : Attempt σ α) :=
  fun _ h => h

/-- Steps one after another keep what each of them keeps. -/
theorem Keeps.bind {a : Attempt σ α} {f : α → Attempt σ β} (ha : Keeps P a)
    (hf : ∀ x, Keeps P (f x)) : Keeps P (a >>= f) := by
  intro s hs
  have hs' := ha s hs
  rw [outcome_bind]
  cases ha' : a.outcome s with
  | mk r s' =>
      rw [ha'] at hs'
      cases r with
      | error e => exact hs'
      | ok x => exact hf x s' hs'

/-- So do steps over a list. -/
theorem keeps_forM {l : List α} {f : α → Attempt σ Unit} (h : ∀ x ∈ l, Keeps P (f x)) :
    Keeps P (l.forM f) := by
  induction l with
  | nil => exact keeps_pure ()
  | cons x rest ih =>
      have hx := h x List.mem_cons_self
      exact hx.bind fun _ => ih fun y hy => h y (List.mem_cons_of_mem x hy)

theorem keeps_mapM {l : List α} {f : α → Attempt σ β} (h : ∀ x ∈ l, Keeps P (f x)) :
    Keeps P (l.mapM f) := by
  induction l with
  | nil => exact keeps_pure []
  | cons x rest ih =>
      have hx := h x List.mem_cons_self
      have hrest := ih fun y hy => h y (List.mem_cons_of_mem x hy)
      rw [List.mapM_cons]
      exact hx.bind fun _ => hrest.bind fun _ => keeps_pure _

end Attempt

namespace PlanGraph

open Attempt (Keeps)

variable {g h : PlanGraph} {active : QuerySet} {options : PlannerOptions} {q : QueryId}

/-! ## Graphs that begin a cycle alike -/

/-- A graph that can be built, on which a cycle begins as on another. -/
structure Renews (g h : PlanGraph) : Prop where
  reachable : h.Reachable
  beginCycle : h.beginCycle = g.beginCycle

/-- A reachable graph renews itself. -/
theorem Renews.refl (hg : g.Reachable) : Renews g g := ⟨hg, rfl⟩

/-- A cycle that begins twice begins once. -/
theorem beginCycle_beginCycle (g : PlanGraph) : g.beginCycle.beginCycle = g.beginCycle := by
  rw [PlanGraph.beginCycle, PlanGraph.beginCycle, mapWaypoints_mapWaypoints]
  exact mapWaypoints_congr fun w _ => w.beginCycle_beginCycle

/-- The start of a cycle renews a graph. -/
theorem renews_beginCycle (hg : g.Reachable) : Renews g g.beginCycle :=
  ⟨hg.beginCycle, beginCycle_beginCycle g⟩

/-- A step of a waypoint that the next cycle forgets. -/
theorem Renews.replace (h' : Renews g h) {v w : Waypoint} {id : WaypointId}
    (hv : h.find? id = some v) (hstep : v.Step w) (hw : w.beginCycle = v.beginCycle) :
    Renews g (h.replace w) := by
  have hid : v.id = id := id_of_find? hv
  refine ⟨h'.reachable.change (hid.symm ▸ hv) hstep, ?_⟩
  rw [← h'.beginCycle]
  exact mapWaypoints_replace_eq h'.reachable.wellFormed.nodup
    (hstep.id_eq.trans hid ▸ hv) hw

/-! ## The passes -/

section Supply

variable {P : PlanGraph → Prop}
  (hemit : ∀ {s id w}, P s → s.find? id = some w → P (s.replace (w.emit active).1))
  (hreceive : ∀ {s id w kind m}, P s → s.find? id = some w → P (s.replace (w.receive kind m)))

include hemit in
/-- Emitting at a waypoint keeps what every step of it keeps. -/
theorem keeps_emitAt (id : WaypointId) : Keeps P (emitAt id active) := by
  intro s hs
  rw [emitAt, Attempt.outcome_ofOutcome]
  cases hw : s.waypoint id with
  | error e => exact hs
  | ok w => exact hemit hs (waypoint_eq_ok_iff.1 hw)

include hreceive in
/-- So does a delivery. -/
theorem keeps_deliver (m : QuerySlots) (e : Edge) : Keeps P (deliver m e) := by
  intro s hs
  rw [deliver, Attempt.outcome_update]
  cases hw : s.waypoint e.receiver with
  | error e => exact hs
  | ok w => exact hreceive hs (waypoint_eq_ok_iff.1 hw)

include hemit hreceive in
/-- What a waypoint's emitting and its receiving keep, a bottom-up pass keeps. -/
theorem keeps_supplyPass (order : List WaypointId) : Keeps P (supplyPass order active) := by
  refine Attempt.keeps_forM fun id _ => (keeps_emitAt hemit id).bind fun m => ?_
  refine Attempt.keeps_get.bind fun s => Attempt.keeps_forM fun e _ => ?_
  cases e.receiver.isSentinel with
  | true => exact Attempt.keeps_pure ()
  | false => exact keeps_deliver hreceive m e

end Supply

/-- An upward pass renews the graph, also where it fails. -/
theorem renews_supplyPass (order : List WaypointId) : Keeps (Renews g) (supplyPass order active) :=
  keeps_supplyPass (fun hs hw => hs.replace hw (.emit active) (Waypoint.beginCycle_emit _ active))
    (fun hs hw => hs.replace hw (.receive _ _) (Waypoint.beginCycle_receive ..)) order

section Demand

variable {P : PlanGraph → Prop}
  (hask : ∀ {s id w v kind needed below x}, P s → s.find? id = some w →
    w.ask kind q needed ⟨q, x⟩ = .ok (below, v) → P (s.replace v))

include hask

/-- What an answer keeps, crossing edges keeps, also where a demand is refused. -/
theorem keeps_crossAll {a : Arrival} {needed : SlotSet} (l : List Edge) {s : Walk}
    (hs : P s.graph) : P (Walk.crossAll q a needed l s).2.graph := by
  induction l generalizing s with
  | nil => exact hs
  | cons e rest ih =>
      rw [Walk.crossAll]
      cases hc : Walk.cross q a needed e s with
      | error e => exact hs
      | ok t =>
          obtain ⟨w, hw, hg, rfl⟩ := Walk.cross_eq_ok_iff.1 hc
          have hanswer := Waypoint.ask_eq_ok_iff.2
            ⟨hg, rfl, (rfl : w.answered e.kind q needed ⟨q, Walk.exitOver a e.kind⟩ = _)⟩
          exact ih (hask hs hw hanswer)

/-- A visit keeps what every answer keeps. -/
theorem keeps_visit {v : Visit} {s : Walk} (hs : P s.graph) :
    P (Walk.visit q v s).2.graph := by
  unfold Walk.visit
  split
  · exact hs
  · split
    · split
      · exact hs
      · exact keeps_crossAll hask _ hs
    · exact hs

/-- So does a walk, for any number of visits. -/
theorem keeps_run {limit remaining : Nat} {s : Walk} (hs : P s.graph) :
    P (Walk.run q limit remaining s).2 := by
  induction remaining generalizing s with
  | zero =>
      cases hstack : s.stack with
      | nil => rwa [Walk.run_nil hstack]
      | cons v rest => rwa [Walk.run_zero hstack]
  | succ remaining ih =>
      cases hstack : s.stack with
      | nil => rwa [Walk.run_nil hstack]
      | cons v rest =>
          have hvisit : P (Walk.visit q v { s with stack := rest }).2.graph :=
            keeps_visit hask hs
          rw [Walk.run_succ hstack]
          cases hv : Walk.visit q v { s with stack := rest } with
          | mk r t =>
              rw [hv] at hvisit
              cases r with
              | error e => exact hvisit
              | ok u => exact ih hvisit

end Demand

/-! ## The whole analysis -/

/-- What an analysis does once it has found the order and the roots. -/
def cycleFrom (order : List WaypointId) (roots : List (QueryId × WaypointId)) (active : QuerySet)
    (options : PlannerOptions) : Attempt PlanGraph AnalysisReport := do
  modify beginCycle
  supplyPass order active
  let walks ← demandWalks options.maxWalkSteps.toNat roots
  let unreachable ← .ofExcept ((← get).audit options walks)
  return ⟨order, .ofList (walks.map fun r => (r.1, r.2.steps)), unreachable⟩

/-- **What an analysis does, step by step**: the order, the roots, then the cycle. -/
theorem analyze_outcome (g : PlanGraph) (active : QuerySet) (options : PlannerOptions) :
    (analyze active options).outcome g =
      match g.topologicalOrder with
      | .error e => (.error e, g)
      | .ok order =>
        match g.activeRoots active with
        | .error e => (.error e, g)
        | .ok roots => (cycleFrom order roots active options).outcome g := by
  have hanalyze : analyze active options = (do
      let order ← .ofExcept (← get).topologicalOrder
      let roots ← .ofExcept ((← get).activeRoots active)
      cycleFrom order roots active options) := rfl
  simp only [hanalyze, Attempt.outcome_bind, Attempt.outcome_get, Attempt.outcome_ofExcept]
  cases g.topologicalOrder with
  | error e => simp only
  | ok order =>
      cases hr : g.activeRoots active with
      | error e => simp only [hr]
      | ok roots => simp only [hr]

section Cycle

variable {P : PlanGraph → Prop}
  (hbegin : ∀ {s}, P s → P s.beginCycle)
  (hemit : ∀ {s id w}, P s → s.find? id = some w → P (s.replace (w.emit active).1))
  (hreceive : ∀ {s id w kind m}, P s → s.find? id = some w → P (s.replace (w.receive kind m)))
  (hask : ∀ {r s id w v kind needed below x}, r ∈ active.toList → P s → s.find? id = some w →
    w.ask kind r needed ⟨r, x⟩ = .ok (below, v) → P (s.replace v))

include hbegin hemit hreceive hask

/-- What the steps of a cycle keep, an analysis keeps, also where it fails. -/
theorem keeps_analyze : Keeps P (analyze active options) := by
  intro g hg
  rw [analyze_outcome]
  cases g.topologicalOrder with
  | error e => exact hg
  | ok order =>
      cases hr : g.activeRoots active with
      | error e => exact hg
      | ok roots =>
          have hwalks : Keeps P (demandWalks options.maxWalkSteps.toNat roots) := by
            refine Attempt.keeps_mapM fun p hp => ?_
            have hactive : p.1 ∈ active.toList :=
              (activeRoots_eq_ok_iff.1 hr).1 ▸ List.mem_map_of_mem hp
            exact Attempt.Keeps.bind (a := demandWalk p.1 p.2 options.maxWalkSteps.toNat)
              (fun s hs => keeps_run (hask hactive) hs) fun _ => Attempt.keeps_pure _
          have hcycle : Keeps P (cycleFrom order roots active options) := by
            refine Attempt.Keeps.bind (a := modify PlanGraph.beginCycle) (fun s hs => hbegin hs)
              fun _ => (keeps_supplyPass hemit hreceive order).bind fun _ => ?_
            exact hwalks.bind fun walks => Attempt.keeps_get.bind fun s =>
              (Attempt.keeps_ofExcept _).bind fun _ => Attempt.keeps_pure _
          exact hcycle g hg

end Cycle

/-- **An analysis leaves no trace on the next**, whether it succeeds or fails at any stage:
the graph that it leaves can be built, and on it a cycle begins as before. -/
theorem renews_analyze (hg : g.Reachable) (active : QuerySet) (options : PlannerOptions) :
    Renews g ((analyze active options).outcome g).2 :=
  keeps_analyze
    (fun hs => ⟨hs.reachable.beginCycle, (beginCycle_beginCycle _).trans hs.beginCycle⟩)
    (fun hs hw => hs.replace hw (.emit active) (Waypoint.beginCycle_emit _ active))
    (fun hs hw => hs.replace hw (.receive _ _) (Waypoint.beginCycle_receive ..))
    (fun _ hs hw ha => hs.replace hw (.ask ha) (Waypoint.beginCycle_of_ask ha)) g (.refl hg)

/-- **On graphs that begin a cycle alike an analysis comes to the same end**, and where it
succeeds it leaves the same graph. -/
theorem analyze_congr (hgh : g.beginCycle = h.beginCycle) (active : QuerySet)
    (options : PlannerOptions) :
    ((analyze active options).outcome g).1 = ((analyze active options).outcome h).1 ∧
      ∀ report, ((analyze active options).outcome g).1 = .ok report →
        (analyze active options).outcome g = (analyze active options).outcome h := by
  have hids : g.ids = h.ids := ids_eq_of_view Waypoint.id_beginCycle hgh
  have hnames (id : WaypointId) : (g.find? id).map (·.name) = (h.find? id).map (·.name) := by
    have := congrArg (Option.map (·.name)) (find?_map_eq_of_view Waypoint.id_beginCycle hgh id)
    rwa [Option.map_map, Option.map_map] at this
  have horder : g.topologicalOrder = h.topologicalOrder :=
    topologicalOrder_eq hids (successors_congr hids (links_eq_of_view hgh)) hnames
  have hroots : g.activeRoots active = h.activeRoots active := by
    have hroot : g.rootOf = h.rootOf := by
      funext q
      rw [rootOf, rootOf, root?, root?, roots_eq_of_view hgh]
    rw [activeRoots, activeRoots, hroot]
  rw [analyze_outcome, analyze_outcome, horder, hroots]
  cases h.topologicalOrder with
  | error e => exact ⟨rfl, fun report hr => by cases hr⟩
  | ok order =>
      cases h.activeRoots active with
      | error e => exact ⟨rfl, fun report hr => by cases hr⟩
      | ok roots =>
          -- beginning the cycle makes the two graphs one
          have hsame : (cycleFrom order roots active options).outcome g =
              (cycleFrom order roots active options).outcome h := by
            rw [cycleFrom, Attempt.outcome_bind, Attempt.outcome_bind, Attempt.outcome_modify,
              Attempt.outcome_modify, hgh]
          exact ⟨congrArg Prod.fst hsame, fun _ _ => hsame⟩

end PlanGraph

end SharedPlan
