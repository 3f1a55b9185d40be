import SharedPlan.Document.Basic
import SharedPlan.Proofs.Analysis.Renewed

/-!
# SharedPlan.Proofs.Planner.Alike

Plans that differ in nothing but what cycles left on their waypoints.

A relation of graphs is `PlanGraph.Respected` when building on related graphs comes to the
same and leaves related graphs.  Plans are then `Workspace.Over` it when their registries
are the same and their graphs are related, and every call that builds a plan
`Attempt.Respects` this (`Workspace.respects_create` to `Workspace.respects_apply`).

Graphs are `PlanGraph.Alike` when they can be built and begin a cycle alike, which is such
a relation (`PlanGraph.respected_alike`).
-/

namespace SharedPlan

/-! ## Steps on related states -/

namespace Attempt

variable {σ τ α β : Type} {R : σ → σ → Prop}

/-- On related states a step answers the same and leaves related states. -/
def Respects (R : σ → σ → Prop) (a : Attempt σ α) : Prop :=
  ∀ s t, R s t → (a.outcome s).1 = (a.outcome t).1 ∧ R (a.outcome s).2 (a.outcome t).2

/-- A step that only answers respects every relation. -/
theorem respects_pure (x : α) : Respects R (pure x : Attempt σ α) := fun _ _ h => ⟨rfl, h⟩

/-- So does one that answers or fails without looking at the state. -/
theorem respects_ofExcept (r : Except PlanError α) : Respects R (.ofExcept r : Attempt σ α) :=
  fun _ _ h => ⟨rfl, h⟩

/-- Steps one after another respect what each of them does. -/
theorem Respects.bind {a : Attempt σ α} {f : α → Attempt σ β} (ha : Respects R a)
    (hf : ∀ x, Respects R (f x)) : Respects R (a >>= f) := by
  intro s t hst
  obtain ⟨hr, hst'⟩ := ha s t hst
  rw [outcome_bind, outcome_bind]
  cases hs : a.outcome s with
  | mk r s' =>
      cases ht : a.outcome t with
      | mk r' t' =>
          rw [hs, ht] at hr hst'
          obtain rfl : r = r' := hr
          cases r with
          | error e => exact ⟨rfl, hst'⟩
          | ok x => exact hf x s' t' hst'

/-- A step that looks at the state does so alike if it sees the same in both. -/
theorem respects_get_bind {f : σ → Attempt σ β}
    (hf : ∀ s t, R s t → f s = f t ∧ Respects R (f s)) : Respects R (get >>= f) := by
  intro s t hst
  obtain ⟨heq, hrespects⟩ := hf s t hst
  rw [outcome_bind, outcome_bind, outcome_get, outcome_get]
  simp only
  rw [← heq]
  exact hrespects s t hst

/-- A change of the state respects a relation if it fails alike and otherwise leads to related
states. -/
theorem respects_update {f : σ → Except PlanError σ} (hf : ∀ s t, R s t → Agree R (f s) (f t)) :
    Respects R (.update f) := by
  intro s t hst
  rw [outcome_update, outcome_update]
  have hagree := hf s t hst
  cases hs : f s <;> cases ht : f t <;> rw [hs, ht] at hagree <;> cases hagree
  · exact ⟨rfl, hst⟩
  · rename_i h
    exact ⟨rfl, h⟩

/-- Steps over a list respect a relation. -/
theorem respects_forM {l : List α} {f : α → Attempt σ Unit} (h : ∀ x ∈ l, Respects R (f x)) :
    Respects R (l.forM f) := by
  induction l with
  | nil => exact respects_pure ()
  | cons x rest ih =>
      have hx := h x List.mem_cons_self
      exact hx.bind fun _ => ih fun y hy => h y (List.mem_cons_of_mem x hy)

/-- So they do when their answers are collected. -/
theorem respects_mapM {l : List α} {f : α → Attempt σ β} (h : ∀ x ∈ l, Respects R (f x)) :
    Respects R (l.mapM f) := by
  induction l with
  | nil => exact respects_pure []
  | cons x rest ih =>
      have hx := h x List.mem_cons_self
      have hrest := ih fun y hy => h y (List.mem_cons_of_mem x hy)
      rw [List.mapM_cons]
      exact hx.bind fun _ => hrest.bind fun _ => respects_pure _

end Attempt

/-! ## Graphs -/

namespace PlanGraph

variable {g h : PlanGraph}

/-- The start of a cycle adds and removes no waypoint. -/
@[simp] theorem contains_beginCycle (g : PlanGraph) (id : WaypointId) :
    g.beginCycle.contains id = g.contains id := by
  rw [Bool.eq_iff_iff, contains_iff, contains_iff, ids_beginCycle]

@[simp] theorem outputs_beginCycle (g : PlanGraph) : g.beginCycle.outputs = g.outputs :=
  outputs_congr (ids_beginCycle g) rfl

/-! ### Building before and after a cycle has begun -/

/-- It makes no difference whether a waypoint is added before a cycle begins or after. -/
theorem beginCycle_addWaypoint (g : PlanGraph) (w : Waypoint) :
    (g.addWaypoint w).map beginCycle = g.beginCycle.addWaypoint w.beginCycle := by
  have hkind : w.beginCycle.kind = w.kind := Role.kind_beginCycle w.role
  have hname : w.beginCycle.name = w.name := rfl
  simp only [addWaypoint, Waypoint.id_beginCycle, contains_beginCycle, hkind, hname]
  cases w.id.isSentinel
  · cases g.contains w.id
    · cases w.kind.isSource <;> cases w.kind.isSink <;>
        simp [Except.map, beginCycle, mapWaypoints, link]
    · rfl
  · rfl

/-- Nor does it for an edge. -/
theorem beginCycle_addEdge (g : PlanGraph) (sender receiver : WaypointId) (kind : EdgeKind) :
    (g.addEdge sender receiver kind).map beginCycle =
      g.beginCycle.addEdge sender receiver kind := by
  simp only [addEdge, contains_beginCycle, outputs_beginCycle]
  split
  · rfl
  split
  · rfl
  split
  · rfl
  split
  · split <;> rfl
  · rfl

/-- Nor for a root. -/
theorem beginCycle_setRoot (g : PlanGraph) (q : QueryId) (id : WaypointId) :
    (g.setRoot q id).map beginCycle = g.beginCycle.setRoot q id := by
  simp only [setRoot, contains_beginCycle, outputs_beginCycle]
  split
  · rfl
  · cases (g.outputs id).any fun e => e.receiver = .top <;> rfl

/-- Nor for a changed waypoint. -/
theorem beginCycle_replace (g : PlanGraph) (w : Waypoint) :
    (g.replace w).beginCycle = g.beginCycle.replace w.beginCycle :=
  mapWaypoints_replace Waypoint.id_beginCycle g w

/-- Nor for a deleted query. -/
theorem beginCycle_deleteQuery (g : PlanGraph) (q : QueryId) :
    (g.deleteQuery q).beginCycle = g.beginCycle.deleteQuery q := by
  simp only [deleteQuery, beginCycle, mapWaypoints, List.map_map]
  congr 1
  exact List.map_congr_left fun w _ => w.beginCycle_deleteQuery q

/-- Clearing forgets whatever a cycle left. -/
theorem clearQueries_beginCycle (g : PlanGraph) : g.beginCycle.clearQueries = g.clearQueries := by
  simp only [clearQueries, beginCycle, mapWaypoints, List.map_map]
  congr 1
  exact List.map_congr_left fun w _ => w.clear_beginCycle

/-! ### Alike graphs -/

/-- Graphs that can be built and begin a cycle alike. -/
structure Alike (g h : PlanGraph) : Prop where
  left : g.Reachable
  right : h.Reachable
  beginCycle : g.beginCycle = h.beginCycle

/-- Running passes on graphs that are alike leaves graphs that are. -/
theorem Renews.alike {k l : PlanGraph} (H : Alike g h) (hk : Renews g k) (hl : Renews h l) :
    Alike k l :=
  ⟨hk.reachable, hl.reachable, hk.beginCycle.trans (H.beginCycle.trans hl.beginCycle.symm)⟩

/-- The waypoint under an id begins a cycle alike in both graphs. -/
theorem Alike.waypoint (H : Alike g h) (id : WaypointId) :
    Agree (fun w v => w.beginCycle = v.beginCycle) (g.waypoint id) (h.waypoint id) := by
  have hview := find?_map_eq_of_view Waypoint.id_beginCycle H.beginCycle id
  rw [PlanGraph.waypoint, PlanGraph.waypoint]
  cases hg : g.find? id <;> cases hh : h.find? id <;> rw [hg, hh] at hview
  · exact .error _
  · cases hview
  · cases hview
  · exact .ok (Option.some.inj hview)

/-- A call that makes the same of the graph once a cycle has begun agrees on alike graphs. -/
theorem Alike.agree {f : PlanGraph → Except PlanError PlanGraph} (H : Alike g h)
    (hview : (f g).map PlanGraph.beginCycle = (f h).map PlanGraph.beginCycle)
    (hreach : ∀ {k l}, k.Reachable → f k = .ok l → l.Reachable) : Agree Alike (f g) (f h) := by
  cases hg : f g with
  | error e =>
      cases hh : f h with
      | error e' =>
          rw [hg, hh] at hview
          cases hview
          exact .error e
      | ok l =>
          rw [hg, hh] at hview
          cases hview
  | ok k =>
      cases hh : f h with
      | error e =>
          rw [hg, hh] at hview
          cases hview
      | ok l =>
          rw [hg, hh] at hview
          exact .ok ⟨hreach H.left hg, hreach H.right hh, Except.ok.inj hview⟩

/-- A waypoint is added to both graphs or refused by both. -/
theorem Alike.addWaypoint (H : Alike g h) {w : Waypoint} (hw : w.Made) :
    Agree Alike (g.addWaypoint w) (h.addWaypoint w) := by
  refine H.agree (f := fun k => k.addWaypoint w) ?_ fun hk => hk.addWaypoint hw
  rw [beginCycle_addWaypoint, beginCycle_addWaypoint, H.beginCycle]

/-- So is an edge. -/
theorem Alike.addEdge (H : Alike g h) (sender receiver : WaypointId) (kind : EdgeKind) :
    Agree Alike (g.addEdge sender receiver kind) (h.addEdge sender receiver kind) := by
  refine H.agree (f := fun k => k.addEdge sender receiver kind) ?_ fun hk => hk.addEdge
  rw [beginCycle_addEdge, beginCycle_addEdge, H.beginCycle]

/-- So is a root. -/
theorem Alike.setRoot (H : Alike g h) (q : QueryId) (id : WaypointId) :
    Agree Alike (g.setRoot q id) (h.setRoot q id) := by
  refine H.agree (f := fun k => k.setRoot q id) ?_ fun hk => hk.setRoot
  rw [beginCycle_setRoot, beginCycle_setRoot, H.beginCycle]

/-- Deleting a query keeps graphs alike. -/
theorem Alike.deleteQuery (H : Alike g h) (q : QueryId) :
    Alike (g.deleteQuery q) (h.deleteQuery q) := by
  refine ⟨H.left.deleteQuery q, H.right.deleteQuery q, ?_⟩
  rw [beginCycle_deleteQuery, beginCycle_deleteQuery, H.beginCycle]

/-- So does clearing. -/
theorem Alike.clearQueries (H : Alike g h) : Alike g.clearQueries h.clearQueries := by
  refine ⟨H.left.clearQueries, H.right.clearQueries, ?_⟩
  rw [← clearQueries_beginCycle g, H.beginCycle, clearQueries_beginCycle]

/-! ### Registration -/

/-- Putting a waypoint in its own place changes nothing. -/
theorem replace_self (hg : g.ids.Nodup) {id : WaypointId} {w : Waypoint}
    (hw : g.find? id = some w) : g.replace w = g := by
  have hview := mapWaypoints_replace_eq (f := fun v => v) hg (w := w) (v := w)
    (id_of_find? hw ▸ hw) rfl
  have hmap (k : PlanGraph) : k.mapWaypoints (fun v => v) = k := by simp [mapWaypoints]
  rwa [hmap, hmap] at hview

/-- The later of two changes of a waypoint counts. -/
theorem replace_replace (g : PlanGraph) {v w : Waypoint} (h : v.id = w.id) :
    (g.replace v).replace w = g.replace w := by
  simp only [replace, List.map_map]
  congr 1
  refine List.map_congr_left fun u _ => ?_
  by_cases hu : u.id = w.id
  · simp [h, hu]
  · simp [h, hu]

/-- Registering queries keeps the id. -/
theorem id_enrolAll (queries : List QueryId) (d : Duty) (w : Waypoint) :
    (queries.foldl (·.enrol · d) w).id = w.id := by
  induction queries generalizing w with
  | nil => rfl
  | cons q rest ih => exact (ih _).trans (Waypoint.Step.enrol q d).id_eq

/-- Registrations of some queries on one waypoint. -/
theorem Reachable.enrolAll (hg : g.Reachable) {id : WaypointId} {w : Waypoint}
    (hw : g.find? id = some w) (queries : List QueryId) (d : Duty) :
    (g.replace (queries.foldl (·.enrol · d) w)).Reachable := by
  induction queries generalizing g w with
  | nil => rwa [List.foldl_nil, replace_self hg.wellFormed.nodup hw]
  | cons q rest ih =>
      have hstep : w.Step (w.enrol q d) := .enrol q d
      have hid : w.id = id := id_of_find? hw
      have hfind : (g.replace (w.enrol q d)).find? id = some (w.enrol q d) := by
        rw [find?_replace, hstep.id_eq, if_pos hid.symm, hw, Option.map_some]
      have hrest := ih (hg.change (hid.symm ▸ hw) hstep) hfind
      rwa [replace_replace g (id_enrolAll rest d _).symm] at hrest

/-- Waypoints that begin a cycle alike do so whatever is registered on both. -/
theorem beginCycle_enrolAll {v w : Waypoint} (h : v.beginCycle = w.beginCycle)
    (queries : List QueryId) (d : Duty) :
    (queries.foldl (·.enrol · d) v).beginCycle = (queries.foldl (·.enrol · d) w).beginCycle := by
  induction queries generalizing v w with
  | nil => exact h
  | cons q rest ih => exact ih (Waypoint.beginCycle_enrol_congr h q d)

/-! ### What building respects -/

/-- Building on related graphs comes to the same and leaves related graphs. -/
structure Respected (G : PlanGraph → PlanGraph → Prop) : Prop where
  addWaypoint {g h : PlanGraph} {w : Waypoint} :
    G g h → w.Made → Agree G (g.addWaypoint w) (h.addWaypoint w)
  addEdge {g h : PlanGraph} (sender receiver : WaypointId) (kind : EdgeKind) :
    G g h → Agree G (g.addEdge sender receiver kind) (h.addEdge sender receiver kind)
  setRoot {g h : PlanGraph} (q : QueryId) (id : WaypointId) :
    G g h → Agree G (g.setRoot q id) (h.setRoot q id)
  enrol {g h : PlanGraph} (id : WaypointId) (queries : List QueryId) (d : Duty) : G g h →
    Agree (fun v w => v.kind = w.kind ∧
        G (g.replace (queries.foldl (·.enrol · d) v)) (h.replace (queries.foldl (·.enrol · d) w)))
      (g.waypoint id) (h.waypoint id)
  deleteQuery {g h : PlanGraph} (q : QueryId) : G g h → G (g.deleteQuery q) (h.deleteQuery q)
  clearQueries {g h : PlanGraph} : G g h → G g.clearQueries h.clearQueries

/-- Making a waypoint the root of one query after another comes to the same. -/
theorem Respected.setRoots {G : PlanGraph → PlanGraph → Prop} (hG : Respected G) (H : G g h)
    (queries : List QueryId) (id : WaypointId) :
    Agree G (queries.foldlM (·.setRoot · id) g) (queries.foldlM (·.setRoot · id) h) := by
  induction queries generalizing g h with
  | nil => exact .ok H
  | cons q rest ih =>
      rw [List.foldlM_cons, List.foldlM_cons]
      exact (hG.setRoot q id H).bind fun k l _ _ hkl => ih hkl

/-- Registering queries at a waypoint keeps graphs alike. -/
theorem Alike.enrol (H : Alike g h) (id : WaypointId) (queries : List QueryId) (d : Duty) :
    Agree (fun v w => v.kind = w.kind ∧
        Alike (g.replace (queries.foldl (·.enrol · d) v))
          (h.replace (queries.foldl (·.enrol · d) w)))
      (g.waypoint id) (h.waypoint id) := by
  have hagree := H.waypoint id
  cases hv : g.waypoint id <;> cases hw : h.waypoint id <;> rw [hv, hw] at hagree <;> cases hagree
  · exact .error _
  · rename_i v w hvw
    rw [waypoint_eq_ok_iff] at hv hw
    refine .ok ⟨?_, H.left.enrolAll hv queries d, H.right.enrolAll hw queries d, ?_⟩
    · have := congrArg Waypoint.kind hvw
      rwa [Waypoint.kind, Waypoint.kind, Waypoint.role_beginCycle, Waypoint.role_beginCycle,
        Role.kind_beginCycle, Role.kind_beginCycle] at this
    · rw [beginCycle_replace, beginCycle_replace, H.beginCycle, beginCycle_enrolAll hvw]

/-- **What cycles left is not seen while a graph is built.** -/
theorem respected_alike : Respected Alike where
  addWaypoint H hw := H.addWaypoint hw
  addEdge sender receiver kind H := H.addEdge sender receiver kind
  setRoot q id H := H.setRoot q id
  enrol id queries d H := H.enrol id queries d
  deleteQuery q H := H.deleteQuery q
  clearQueries H := H.clearQueries

end PlanGraph

/-! ## Plans under construction -/

namespace Workspace

open Attempt (Respects)

/-- Plans with the same registries, whose graphs are related. -/
structure Over (G : PlanGraph → PlanGraph → Prop) (s t : Workspace) : Prop where
  names : s.names = t.names
  queries : s.queries = t.queries
  attributes : s.attributes = t.attributes
  graph : G s.graph t.graph

/-- Plans with the same registries, whose graphs begin a cycle alike. -/
abbrev Alike : Workspace → Workspace → Prop := Over PlanGraph.Alike

variable {s t : Workspace} {G : PlanGraph → PlanGraph → Prop}

/-- Names of waypoints are looked up alike. -/
theorem Over.waypointId (h : Over G s t) : s.waypointId = t.waypointId := by
  funext name
  rw [Workspace.waypointId, Workspace.waypointId, h.names]

/-- The role of a new waypoint depends on the names only. -/
theorem Over.roleOf (h : Over G s t) : s.roleOf = t.roleOf := by
  funext spec
  cases spec <;> simp only [Workspace.roleOf, h.attributes]

/-- So does the duty of a registration. -/
theorem Over.dutyOf (h : Over G s t) : s.dutyOf = t.dutyOf := by
  funext r
  cases r <;> simp only [Workspace.dutyOf, h.attributes, waypointIds, h.waypointId]

/-- The role of a waypoint to be created keeps nothing for any query. -/
theorem clear_of_roleOf {spec : WaypointSpec} {role : Role} (h : s.roleOf spec = .ok role) :
    role.clear = role := by
  have hbind {α : Type} {r : Except PlanError α} {f : α → Role}
      (h : (do let x ← r; return f x) = .ok role) (hf : ∀ x, (f x).clear = f x) :
      role.clear = role := by
    obtain ⟨x, -, rfl⟩ := bind_pure_eq_ok_iff.1 h
    exact hf x
  cases spec with
  | scanner | textLoader | ingest | cluster => exact hbind h fun _ => rfl
  | join _ columns keys =>
      simp only [Workspace.roleOf] at h
      cases hc : s.attributes.resolveSet columns with
      | error e => simp [hc, bind, Except.bind] at h
      | ok slots =>
          rw [hc] at h
          exact hbind h fun _ => rfl
  | _ =>
      obtain rfl := Except.ok.inj h
      rfl

variable (hG : PlanGraph.Respected G)

include hG

/-- A duty is assigned in both plans or refused by both. -/
theorem Over.assign (h : Over G s t) (waypoint : String) (queries : List QueryId) (d : Duty) :
    Agree (Over G) (s.assign waypoint queries d) (t.assign waypoint queries d) := by
  unfold Workspace.assign
  rw [h.waypointId]
  refine Agree.bind_self _ fun id => ?_
  refine (hG.enrol id queries d h.graph).bind fun v w _ _ ⟨hkind, hgraph⟩ => ?_
  rw [hkind]
  split
  · have hput {g k : PlanGraph} (hgk : G g k) :
        Agree (Over G) (.ok { s with graph := g }) (.ok { t with graph := k }) :=
      .ok ⟨h.names, h.queries, h.attributes, hgk⟩
    dsimp only
    split
    · exact (hG.setRoots hgraph queries id).bind fun g k _ _ hgk => hput hgk
    · exact hput hgraph
  · exact .error _

/-- A waypoint is created in both plans or in neither. -/
theorem respects_create (spec : WaypointSpec) : Respects (Over G) (create spec) := by
  intro s t h
  rw [create, Attempt.outcome_ofOutcome, Attempt.outcome_ofOutcome, h.roleOf]
  cases hr : t.roleOf spec with
  | error e => exact ⟨rfl, h⟩
  | ok role =>
      have hmade : Waypoint.Made (.fresh (s.names.intern spec.name).1 spec.name role) :=
        .fresh _ _ (clear_of_roleOf hr)
      have hagree := hG.addWaypoint h.graph hmade
      simp only
      rw [← h.names]
      cases hs : s.graph.addWaypoint (.fresh (s.names.intern spec.name).1 spec.name role) <;>
        cases ht : t.graph.addWaypoint (.fresh (s.names.intern spec.name).1 spec.name role) <;>
        rw [hs, ht] at hagree <;>
        cases hagree
      · exact ⟨rfl, rfl, h.queries, h.attributes, h.graph⟩
      · rename_i hgraph
        exact ⟨rfl, rfl, h.queries, h.attributes, hgraph⟩

/-- Two waypoints are connected in both plans or in neither. -/
theorem respects_connect (sender receiver : String) (kind : EdgeKind) :
    Respects (Over G) (connect sender receiver kind) := by
  refine Attempt.respects_update fun s t h => ?_
  rw [h.waypointId]
  refine Agree.bind_self _ fun senderId => Agree.bind_self _ fun receiverId => ?_
  refine (hG.addEdge senderId receiverId kind h.graph).bind fun g k _ _ hgk => ?_
  exact .ok ⟨h.names, h.queries, h.attributes, hgk⟩

theorem respects_returnAsState (waypoint query : String) :
    Respects (Over G) (returnAsState waypoint query) := by
  refine Attempt.respects_update fun s t h => ?_
  rw [h.queries]
  exact Agree.bind_self _ fun q => h.assign hG waypoint [q] .returnAsState

/-- A registration succeeds on both plans or on neither. -/
theorem respects_register (r : Registration) : Respects (Over G) (register r) := by
  have hduty : Respects (Over G) (registerDuty r) := by
    refine Attempt.respects_update fun s t h => ?_
    rw [h.queries, h.dutyOf]
    exact Agree.bind_self _ fun queries => Agree.bind_self _ fun d =>
      h.assign hG r.waypoint queries d
  refine hduty.bind fun _ => ?_
  split
  · exact respects_returnAsState hG _ _
  · exact Attempt.respects_pure ()

omit hG in
/-- A query gets the same id in both plans. -/
theorem respects_addQuery (name : String) : Respects (Over G) (addQuery name) := by
  intro s t h
  rw [addQuery, Attempt.outcome_ofOutcome, Attempt.outcome_ofOutcome, h.queries]
  cases t.queries.add name with
  | error e => exact ⟨rfl, h⟩
  | ok p => exact ⟨rfl, h.names, rfl, h.attributes, h.graph⟩

omit hG in
/-- A query gets another name in both plans or in neither. -/
theorem respects_addAlias (name : String) (q : QueryId) : Respects (Over G) (addAlias name q) := by
  refine Attempt.respects_update fun s t h => ?_
  rw [h.queries]
  exact Agree.bind_self _ fun queries => .ok ⟨h.names, rfl, h.attributes, h.graph⟩

/-- **A document is applied to both plans alike**, as far as it can be. -/
theorem respects_apply (d : PlanDocument) : Respects (Over G) (apply d) := by
  have hquery (name : String) : Respects (Over G) (declareQuery name) := by
    refine Attempt.respects_get_bind fun s t h => ⟨by rw [h.queries], ?_⟩
    split
    · exact (respects_addQuery name).bind fun _ => Attempt.respects_pure ()
    · exact Attempt.respects_pure ()
  have halias (name query : String) : Respects (Over G) (declareAlias name query) := by
    refine Attempt.respects_get_bind fun s t h => ⟨by rw [h.queries], ?_⟩
    refine (Attempt.respects_ofExcept _).bind fun q => ?_
    refine Attempt.respects_get_bind fun s t h => ⟨by rw [h.queries], ?_⟩
    split
    · exact respects_addAlias name q
    · exact Attempt.respects_pure ()
  have hwaypoint (spec : WaypointSpec) : Respects (Over G) (declareWaypoint spec) := by
    intro s t h
    obtain ⟨hr, hafter⟩ := respects_create hG spec s t h
    rw [declareWaypoint, Attempt.outcome_ofOutcome, Attempt.outcome_ofOutcome]
    cases hs : (create spec).outcome s with
    | mk r s' =>
        cases ht : (create spec).outcome t with
        | mk r' t' =>
            rw [hs, ht] at hr hafter
            obtain rfl : r = r' := hr
            cases r <;> exact ⟨rfl, hafter⟩
  refine (Attempt.respects_forM fun name _ => hquery name).bind fun _ => ?_
  refine (Attempt.respects_forM fun e _ => halias e.1 e.2).bind fun _ => ?_
  refine (Attempt.respects_forM fun spec _ => hwaypoint spec).bind fun _ => ?_
  refine (Attempt.respects_forM fun e _ => respects_connect hG _ _ _).bind fun _ => ?_
  exact Attempt.respects_forM fun r _ => respects_register hG r

/-- The same queries can be deleted, and the plans stay related. -/
theorem Over.deleteQuery (h : Over G s t) (name : String) :
    (s.deleteQuery name).1 = (t.deleteQuery name).1 ∧
      Over G (s.deleteQuery name).2 (t.deleteQuery name).2 := by
  simp only [Workspace.deleteQuery, h.queries]
  cases t.queries.lookup name with
  | none => exact ⟨rfl, h⟩
  | some q => exact ⟨rfl, h.names, rfl, h.attributes, hG.deleteQuery q h.graph⟩

/-- Clearing keeps the plans related. -/
theorem Over.clearQueries (h : Over G s t) : Over G s.clearQueries t.clearQueries :=
  ⟨h.names, by simp only [Workspace.clearQueries, h.queries], h.attributes,
    hG.clearQueries h.graph⟩

end Workspace

end SharedPlan
