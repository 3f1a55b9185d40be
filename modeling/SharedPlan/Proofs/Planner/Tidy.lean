import SharedPlan.Proofs.Names.Queries
import SharedPlan.Proofs.Planner.Attempts
import SharedPlan.Proofs.Waypoint.Residue

/-!
# SharedPlan.Proofs.Planner.Tidy

Nothing is kept for a query id that is not in use.

A graph is `PlanGraph.Tidy` for some queries when its waypoints keep records of these
only, and every root covers its query.  Building adds records of queries that a name stands
for, a compile cycle records of active ones, and deleting a query or clearing all of them
takes theirs away.  So the plan of a planner stays tidy for the queries of its registry,
whatever is called and whether it succeeds (`tidy_runAll`), and an id that is handed
out again comes back with a clean record (`queries_in_use`).
-/

namespace SharedPlan

open Attempt (Keeps)

/-! ## Graphs -/

namespace PlanGraph

variable {g h : PlanGraph} {A B : QueryId → Prop} {q : QueryId} {id : WaypointId}
  {v w : Waypoint}

/-- A query occurs in a graph: some waypoint keeps something for it
(`Waypoint.not_mem_queries_iff`), or it has a root. -/
def Mentions (g : PlanGraph) (q : QueryId) : Prop :=
  (∃ w ∈ g.waypoints, q ∈ w.queries) ∨ ∃ root, g.root? q = some root

/-- Only queries of some kind occur, and the root of a query covers it. -/
structure Tidy (A : QueryId → Prop) (g : PlanGraph) : Prop where
  kept : ∀ w ∈ g.waypoints, ∀ q ∈ w.queries, A q
  rooted : ∀ q root, g.root? q = some root →
    ∃ w, g.find? root = some w ∧ w.covers q = true

/-- A query that occurs is of the kind. -/
theorem Tidy.of_mentions (hg : g.Tidy A) (hq : g.Mentions q) : A q := by
  rcases hq with ⟨w, hw, hq⟩ | ⟨root, hroot⟩
  · exact hg.kept w hw q hq
  · obtain ⟨w, hw, hcovers⟩ := hg.rooted q root hroot
    exact hg.kept w (mem_of_find? hw) q (Waypoint.mem_queries_of_covers hcovers)

theorem Tidy.mono (hg : g.Tidy A) (hAB : ∀ q, A q → B q) : g.Tidy B where
  kept w hw q hq := hAB q (hg.kept w hw q hq)
  rooted := hg.rooted

theorem tidy_empty : PlanGraph.empty.Tidy A where
  kept _ hw := absurd hw List.not_mem_nil
  rooted _ _ h := by cases h

theorem Tidy.link (hg : g.Tidy A) (sender receiver : WaypointId) (kind : EdgeKind) :
    (g.link sender receiver kind).Tidy A :=
  ⟨hg.kept, hg.rooted⟩

/-- A waypoint is added without queries. -/
theorem Tidy.addWaypoint (hg : g.Tidy A) (hw : w.queries = []) (ha : g.addWaypoint w = .ok h) :
    h.Tidy A := by
  obtain ⟨-, -, rfl⟩ := eq_of_addWaypoint ha
  constructor
  · intro v hv q hq
    rcases List.mem_append.1 hv with hv | hv
    · exact hg.kept v hv q hq
    · rw [List.mem_singleton.1 hv, hw] at hq
      exact absurd hq List.not_mem_nil
  · intro q root hroot
    obtain ⟨v, hv, hcovers⟩ := hg.rooted q root hroot
    refine ⟨v, ?_, hcovers⟩
    rw [find?, List.find?_append]
    exact Option.or_eq_some_iff.2 (.inl hv)

theorem Tidy.addEdge (hg : g.Tidy A) {sender receiver : WaypointId} {kind : EdgeKind}
    (ha : g.addEdge sender receiver kind = .ok h) : h.Tidy A := by
  obtain ⟨-, -, rfl | rfl⟩ := eq_of_addEdge ha
  · exact hg
  · exact hg.link ..

/-- A waypoint may change as long as it keeps records of the right queries only and covers
what it covered. -/
theorem Tidy.replace (hg : g.Tidy A) (hv : g.find? id = some v) (hid : w.id = v.id)
    (hkept : ∀ q ∈ w.queries, A q) (hcovers : ∀ q, v.covers q = true → w.covers q = true) :
    (g.replace w).Tidy A := by
  have hid : w.id = id := hid.trans (id_of_find? hv)
  constructor
  · intro u hu q hq
    obtain ⟨x, hx, rfl⟩ := List.mem_map.1 hu
    split at hq
    · exact hkept q hq
    · exact hg.kept x hx q hq
  · intro q root hroot
    obtain ⟨x, hx, hcx⟩ := hg.rooted q root hroot
    rw [find?_replace, hid]
    split
    · rename_i hr
      rw [hr, hv] at hx
      obtain rfl := Option.some.inj hx
      exact ⟨w, by rw [hr, hv, Option.map_some], hcovers q hcx⟩
    · exact ⟨x, hx, hcx⟩

/-- A waypoint that covers a query may be its root. -/
theorem Tidy.setRoot (hg : g.Tidy A) (hw : g.find? id = some w) (hcovers : w.covers q = true)
    (hs : g.setRoot q id = .ok h) : h.Tidy A ∧ h.find? id = some w := by
  have hroots : ∀ r root, (g.roots.insert q id).get? r = some root →
      ∃ w, g.find? root = some w ∧ w.covers r = true := by
    intro r root hroot
    rw [OrdMap.get?_insert] at hroot
    split at hroot
    · rename_i hr
      obtain rfl := Option.some.inj hroot
      exact ⟨w, hw, hr ▸ hcovers⟩
    · exact hg.rooted r root hroot
  rcases eq_of_setRoot hs with rfl | rfl
  · exact ⟨⟨hg.kept, hroots⟩, hw⟩
  · exact ⟨⟨hg.kept, hroots⟩, hw⟩

/-- Roots are set for queries that the waypoint covers, which are in use. -/
theorem Tidy.setRoots (hg : g.Tidy A) (hw : g.find? id = some w) (l : List QueryId)
    (hl : ∀ q ∈ l, w.covers q = true) (hs : l.foldlM (·.setRoot · id) g = .ok h) : h.Tidy A := by
  induction l generalizing g with
  | nil =>
      obtain rfl := Except.ok.inj hs
      exact hg
  | cons q rest ih =>
      obtain ⟨hq, hrest⟩ := List.forall_mem_cons.1 hl
      rw [List.foldlM_cons] at hs
      cases hk : g.setRoot q id with
      | error e =>
          rw [hk] at hs
          cases hs
      | ok k =>
          rw [hk] at hs
          obtain ⟨htidy, hfind⟩ := hg.setRoot hw hq hk
          exact ih htidy hfind hrest hs

/-- A deleted query occurs no more. -/
theorem Tidy.deleteQuery (hg : g.Tidy A) (q : QueryId) :
    (g.deleteQuery q).Tidy fun r => r ≠ q ∧ A r := by
  constructor
  · intro w hw r hr
    obtain ⟨v, hv, rfl⟩ := List.mem_map.1 hw
    obtain ⟨hne, hr⟩ := Waypoint.mem_queries_deleteQuery.1 hr
    exact ⟨hne, hg.kept v hv r hr⟩
  · intro r root hroot
    rw [root?, PlanGraph.deleteQuery, OrdMap.get?_erase] at hroot
    split at hroot
    · cases hroot
    · rename_i hne
      obtain ⟨w, hw, hcovers⟩ := hg.rooted r root hroot
      refine ⟨w.deleteQuery q, ?_, ?_⟩
      · have hfind := find?_mapWaypoints (f := (·.deleteQuery q)) (fun _ => rfl) g root
        rw [hw] at hfind
        exact hfind
      · rw [Waypoint.covers, Waypoint.flow_deleteQuery, if_neg hne]
        exact hcovers

/-- In a cleared graph no query occurs. -/
theorem tidy_clearQueries (g : PlanGraph) : g.clearQueries.Tidy A where
  kept w hw q hq := by
    obtain ⟨v, -, rfl⟩ := List.mem_map.1 hw
    rw [Waypoint.queries_clear] at hq
    exact absurd hq List.not_mem_nil
  rooted _ _ h := by cases h

/-- **A cycle keeps a graph tidy**, whether it succeeds or fails, if only queries of the right
kind are active. -/
theorem keeps_tidy_analyze {active : QuerySet} (hactive : ∀ q ∈ active.toList, A q)
    (options : PlannerOptions) : Keeps (Tidy A) (analyze active options) := by
  refine keeps_analyze (fun {g} hg => ⟨?_, ?_⟩) ?_ ?_ ?_
  · intro w hw q hq
    obtain ⟨v, hv, rfl⟩ := List.mem_map.1 hw
    exact hg.kept v hv q (Waypoint.mem_queries_of_beginCycle hq)
  · intro q root hroot
    obtain ⟨w, hw, hcovers⟩ := hg.rooted q root hroot
    refine ⟨w.beginCycle, by rw [find?_beginCycle, hw, Option.map_some], ?_⟩
    rw [Waypoint.covers, Waypoint.flow_beginCycle]
    exact hcovers
  · intro g id w hg hw
    refine hg.replace hw (Waypoint.id_emit w active) (fun q hq => ?_) fun q hq => ?_
    · exact (Waypoint.mem_queries_of_emit hq).elim (hactive q)
        (hg.kept w (mem_of_find? hw) q)
    · rw [← Waypoint.covers_unsupplied, Waypoint.unsupplied_emit, Waypoint.covers_unsupplied]
      exact hq
  · intro g id w kind m hg hw
    refine hg.replace hw (Waypoint.id_receive w kind m) (fun q hq => ?_) fun q hq => ?_
    · exact hg.kept w (mem_of_find? hw) q (Waypoint.mem_queries_of_receive hq)
    · rw [← Waypoint.covers_unsupplied, Waypoint.unsupplied_receive, Waypoint.covers_unsupplied]
      exact hq
  · intro r g id w v kind needed below x hr hg hw ha
    refine hg.replace hw (Waypoint.Step.ask ha).id_eq (fun q hq => ?_) fun q hq => ?_
    · rcases Waypoint.mem_queries_of_ask ha hq with rfl | hq
      · exact hactive q hr
      · exact hg.kept w (mem_of_find? hw) q hq
    · obtain ⟨-, -, rfl⟩ := Waypoint.ask_eq_ok_iff.1 ha
      rw [Waypoint.covers_eq_of_unasked (Waypoint.unasked_answered ..)]
      exact hq

end PlanGraph

/-! ## Plans under construction -/

namespace Workspace

variable {s t : Workspace} {q : QueryId}

/-- The registry is valid, and only ids in use occur in the graph. -/
structure Tidy (s : Workspace) : Prop where
  queries : s.queries.Valid
  graph : s.graph.Tidy (· ∈ s.queries.names.keys)

/-- A step that is an update keeps a property if what it answers has it. -/
theorem keeps_update {P : Workspace → Prop} {f : Workspace → Except PlanError Workspace}
    (hf : ∀ {s t}, P s → f s = .ok t → P t) : Keeps P (.update f) := by
  intro s hs
  rw [Attempt.outcome_update]
  cases ht : f s with
  | error e => exact hs
  | ok t => exact hf hs ht

theorem Tidy.of_resolve (hs : s.Tidy) {name : String} (hq : s.queries.resolve name = .ok q) :
    q ∈ s.queries.names.keys :=
  hs.queries.of_lookup (QueryRegistry.lookup_of_resolve hq)

/-- **What an assignment does**: it registers the queries on a waypoint of the right kind, and
makes it their root if the duty calls for it. -/
theorem eq_of_assign {waypoint : String} {l : List QueryId} {d : Duty}
    (ht : s.assign waypoint l d = .ok t) :
    ∃ id w graph, s.graph.find? id = some w ∧ w.kind ∈ d.kinds ∧
      (if d.rooted then l.foldlM (·.setRoot · id) (s.graph.replace (l.foldl (·.enrol · d) w))
        else .ok (s.graph.replace (l.foldl (·.enrol · d) w))) = .ok graph ∧
      t = { s with graph } := by
  obtain ⟨id, -, ht⟩ := bind_eq_ok_iff.1 ht
  obtain ⟨w, hw, ht⟩ := bind_eq_ok_iff.1 ht
  split at ht
  · rename_i hkind
    refine ⟨id, w, ?_⟩
    dsimp only at ht
    split at ht
    all_goals
      rename_i hd
      obtain ⟨graph, hgraph, rfl⟩ := bind_pure_eq_ok_iff.1 ht
      exact ⟨graph, PlanGraph.waypoint_eq_ok_iff.1 hw, hkind, by simpa [hd] using hgraph, rfl⟩
  · cases ht

/-- What every assignment of the query keeps, handing on state keeps. -/
theorem keeps_returnAsState {P : Workspace → Prop} {waypoint name : String}
    (hassign : ∀ {s t l d}, P s → (∀ q ∈ l, s.queries.resolve name = .ok q) →
      s.assign waypoint l d = .ok t → P t) : Keeps P (returnAsState waypoint name) := by
  refine keeps_update fun hs ht => ?_
  obtain ⟨q, hq, ht⟩ := bind_eq_ok_iff.1 ht
  exact hassign hs (List.forall_mem_singleton.2 hq) ht

/-- What every assignment of queries that go by the given names keeps, a registration keeps. -/
theorem keeps_register {P : Workspace → Prop} {r : Registration}
    (hassign : ∀ {s t l d}, P s → (∀ q ∈ l, ∃ name ∈ r.queries, s.queries.resolve name = .ok q) →
      s.assign r.waypoint l d = .ok t → P t) : Keeps P (register r) := by
  have hduty : Keeps P (registerDuty r) := by
    refine keeps_update fun hs ht => ?_
    obtain ⟨l, hl, ht⟩ := bind_eq_ok_iff.1 ht
    obtain ⟨d, -, ht⟩ := bind_eq_ok_iff.1 ht
    exact hassign hs (fun q hq => exists_of_forall₂ (mapM_eq_ok_iff.1 hl).flip hq) ht
  refine hduty.bind fun _ => ?_
  split
  · refine keeps_returnAsState fun hs hl ht => hassign hs (fun q hq => ?_) ht
    exact ⟨_, List.mem_cons_self, hl q hq⟩
  · exact Attempt.keeps_pure ()

/-- Registering queries that are in use keeps a plan tidy. -/
theorem Tidy.assign (hs : s.Tidy) {waypoint : String} {l : List QueryId} {d : Duty}
    (hl : ∀ q ∈ l, q ∈ s.queries.names.keys)
    (ht : s.assign waypoint l d = .ok t) : t.Tidy := by
  obtain ⟨id, w, graph, hw, hkind, hgraph, rfl⟩ := eq_of_assign ht
  have hkept (l : List QueryId) (w : Waypoint) {q : QueryId}
      (hq : q ∈ (l.foldl (·.enrol · d) w).queries) : q ∈ l ∨ q ∈ w.queries := by
    induction l generalizing w with
    | nil => exact .inr hq
    | cons r rest ih =>
        rcases ih _ hq with hq | hq
        · exact .inl (List.mem_cons_of_mem r hq)
        · refine (Waypoint.mem_queries_of_enrol hq).imp_left ?_
          rintro rfl
          exact List.mem_cons_self
  have hcovers (l : List QueryId) (w : Waypoint) {q : QueryId} (hq : w.covers q = true) :
      (l.foldl (·.enrol · d) w).covers q = true := by
    induction l generalizing w with
    | nil => exact hq
    | cons r rest ih => exact ih _ (Waypoint.covers_enrol d hq)
  have hself (hd : d.rooted = true) (l : List QueryId) (w : Waypoint) (hkind : w.kind ∈ d.kinds) :
      ∀ q ∈ l, (l.foldl (·.enrol · d) w).covers q = true := by
    induction l generalizing w with
    | nil => simp
    | cons r rest ih =>
        refine List.forall_mem_cons.2 ⟨hcovers rest _ (Waypoint.covers_enrol_self hd hkind), ?_⟩
        exact ih _ ((Waypoint.Step.enrol r d).kind_eq.symm ▸ hkind)
  have hreplaced := hs.graph.replace hw (PlanGraph.id_enrolAll l d w)
    (fun q hq => (hkept l w hq).elim (hl q) (hs.graph.kept w (PlanGraph.mem_of_find? hw) q))
    fun q hq => hcovers l w hq
  refine ⟨hs.queries, ?_⟩
  split at hgraph
  · rename_i hd
    have hid : (l.foldl (·.enrol · d) w).id = id :=
      (PlanGraph.id_enrolAll l d w).trans (PlanGraph.id_of_find? hw)
    refine hreplaced.setRoots ?_ l (hself hd l w hkind) hgraph
    rw [PlanGraph.find?_replace, hid, if_pos rfl, hw, Option.map_some]
  · exact Except.ok.inj hgraph ▸ hreplaced

/-- More queries may be in use than occur. -/
theorem Tidy.of_queries (hs : s.Tidy) {queries : QueryRegistry} (hv : queries.Valid)
    (hmono : ∀ q ∈ s.queries.names.keys, q ∈ queries.names.keys) :
    Tidy { s with queries } :=
  ⟨hv, hs.graph.mono hmono⟩

/-! ### Calls -/

theorem keeps_tidy_create (spec : WaypointSpec) : Keeps Tidy (create spec) := by
  intro s hs
  rw [create, Attempt.outcome_ofOutcome]
  cases hr : s.roleOf spec with
  | error e => exact hs
  | ok role =>
      dsimp only
      cases ha : s.graph.addWaypoint (.fresh (s.names.intern spec.name).1 spec.name role) with
      | error e => exact ⟨hs.queries, hs.graph⟩
      | ok graph =>
          have hfresh := Waypoint.queries_fresh (s.names.intern spec.name).1 spec.name
            (clear_of_roleOf hr)
          exact ⟨hs.queries, hs.graph.addWaypoint hfresh ha⟩

theorem keeps_tidy_connect (sender receiver : String) (kind : EdgeKind) :
    Keeps Tidy (connect sender receiver kind) := by
  refine keeps_update fun hs ht => ?_
  obtain ⟨_, -, ht⟩ := bind_eq_ok_iff.1 ht
  obtain ⟨_, -, ht⟩ := bind_eq_ok_iff.1 ht
  obtain ⟨graph, ha, rfl⟩ := bind_pure_eq_ok_iff.1 ht
  exact ⟨hs.queries, hs.graph.addEdge ha⟩

theorem keeps_tidy_returnAsState (waypoint query : String) :
    Keeps Tidy (returnAsState waypoint query) :=
  keeps_returnAsState fun hs hl ht => hs.assign (fun q hq => hs.of_resolve (hl q hq)) ht

theorem keeps_tidy_register (r : Registration) : Keeps Tidy (register r) := by
  refine keeps_register fun hs hl ht => hs.assign (fun q hq => ?_) ht
  obtain ⟨name, -, hname⟩ := hl q hq
  exact hs.of_resolve hname

theorem keeps_tidy_addQuery (name : String) : Keeps Tidy (addQuery name) := by
  intro s hs
  rw [addQuery, Attempt.outcome_ofOutcome]
  cases ha : s.queries.add name with
  | error e => exact hs
  | ok p =>
      obtain ⟨-, -, -, hp⟩ := QueryRegistry.eq_of_add ha
      refine hs.of_queries (hs.queries.add ha) fun q hq => ?_
      rw [hp]
      exact OrdMap.mem_keys_insert.2 (.inr hq)

/-- An alias puts no query of its own into the graph. -/
theorem keeps_tidy_addAlias (name : String) (hq : q ∈ QuerySet.ids) :
    Keeps Tidy (addAlias name q) := by
  refine keeps_update fun {s t} hs ht => ?_
  obtain ⟨queries, ha, rfl⟩ := bind_pure_eq_ok_iff.1 ht
  obtain ⟨-, -, hqueries⟩ := QueryRegistry.eq_of_addAlias ha
  refine hs.of_queries (hs.queries.addAlias hq ha) fun r hr => ?_
  rw [hqueries]
  exact hr

theorem Tidy.deleteQuery (hs : s.Tidy) (name : String) :
    (s.deleteQuery name).2.Tidy := by
  rw [Workspace.deleteQuery]
  split
  · exact hs
  · rename_i q _
    refine ⟨hs.queries.remove q, (hs.graph.deleteQuery q).mono fun r hr => ?_⟩
    exact QueryRegistry.mem_keys_remove.2 hr

/-- After a clear no query occurs, whatever is left of the registry. -/
theorem Tidy.clearQueries (hs : s.Tidy) : s.clearQueries.Tidy := by
  have hremove (l : List QueryId) (r : QueryRegistry) (hr : r.Valid) :
      (l.foldl (·.remove ·) r).Valid := by
    induction l generalizing r with
    | nil => exact hr
    | cons q rest ih => exact ih _ (hr.remove q)
  exact ⟨hremove _ _ hs.queries, PlanGraph.tidy_clearQueries _⟩

theorem keeps_tidy_apply (d : PlanDocument) : Keeps Tidy (apply d) := by
  have hquery (name : String) : Keeps Tidy (declareQuery name) := by
    refine Attempt.keeps_get.bind fun s => ?_
    split
    · exact (keeps_tidy_addQuery name).bind fun _ => Attempt.keeps_pure ()
    · exact Attempt.keeps_pure ()
  have halias (name query : String) : Keeps Tidy (declareAlias name query) := by
    intro s hs
    rw [declareAlias, Attempt.outcome_bind, Attempt.outcome_get]
    dsimp only
    rw [Attempt.outcome_bind, Attempt.outcome_ofExcept]
    cases hq : s.queries.resolve query with
    | error e => exact hs
    | ok q =>
        -- the id comes from the registry, so it may get another name
        have hin : q ∈ QuerySet.ids := QuerySet.mem_ids.2 (hs.queries.below q (hs.of_resolve hq))
        refine Keeps.bind Attempt.keeps_get (fun t => ?_) s hs
        split
        · exact keeps_tidy_addAlias name hin
        · exact Attempt.keeps_pure ()
  have hwaypoint (spec : WaypointSpec) : Keeps Tidy (declareWaypoint spec) := by
    intro s hs
    have hafter := keeps_tidy_create spec s hs
    rw [declareWaypoint, Attempt.outcome_ofOutcome]
    cases hc : (create spec).outcome s with
    | mk r t =>
        rw [hc] at hafter
        cases r <;> exact hafter
  refine (Attempt.keeps_forM fun name _ => hquery name).bind fun _ => ?_
  refine (Attempt.keeps_forM fun e _ => halias e.1 e.2).bind fun _ => ?_
  refine (Attempt.keeps_forM fun spec _ => hwaypoint spec).bind fun _ => ?_
  refine (Attempt.keeps_forM fun e _ => keeps_tidy_connect _ _ _).bind fun _ => ?_
  exact Attempt.keeps_forM fun r _ => keeps_tidy_register r

end Workspace

/-! ## Planners -/

namespace Planner

variable {p : Planner}

/-- Every call keeps a plan tidy. -/
theorem tidy_perform (hp : p.workspace.Tidy) (c : Call) : (p.perform c).2.workspace.Tidy := by
  have hcompile : (compile.outcome p).2.workspace.Tidy := by
    have hgraph : ((PlanGraph.analyze p.workspace.queries.active p.options).outcome
        p.workspace.graph).2.Tidy (· ∈ p.workspace.queries.names.keys) :=
      PlanGraph.keeps_tidy_analyze
        (fun q hq => hp.queries.mem_active_iff.1 hq) p.options _ hp.graph
    rw [compile_outcome, analyzeAndRoute_outcome]
    cases ha : (PlanGraph.analyze p.workspace.queries.active p.options).outcome
        p.workspace.graph with
    | mk r graph =>
        rw [ha] at hgraph
        cases r with
        | error e => exact ⟨hp.queries, hgraph⟩
        | ok report =>
            dsimp only
            cases hr : graph.routing <;> exact ⟨hp.queries, hgraph⟩
  cases c with
  | create spec => exact Workspace.keeps_tidy_create spec _ hp
  | connect sender receiver kind => exact Workspace.keeps_tidy_connect sender receiver kind _ hp
  | register r => exact Workspace.keeps_tidy_register r _ hp
  | returnAsState waypoint query => exact Workspace.keeps_tidy_returnAsState waypoint query _ hp
  | apply d => exact Workspace.keeps_tidy_apply d _ hp
  | addQuery name => exact Workspace.keeps_tidy_addQuery name _ hp
  | addAlias name q hq => exact Workspace.keeps_tidy_addAlias name hq _ hp
  | deleteQuery name => exact hp.deleteQuery name
  | clearQueries => exact hp.clearQueries
  | compile => exact hcompile
  | tryCompile inFlight =>
      cases inFlight with
      | true => exact hp
      | false => exact hcompile

/-- A run keeps a plan tidy. -/
theorem tidy_runAll (calls : List Call) (hp : p.workspace.Tidy) :
    (p.runAll calls).workspace.Tidy := by
  induction calls generalizing p with
  | nil => exact hp
  | cons c rest ih => exact ih (tidy_perform hp c)

theorem Fresh.tidy (hp : p.Fresh) : p.workspace.Tidy := by
  have hnew (options : PlannerOptions) (attributes : Attributes) :
      (Planner.new options attributes).workspace.Tidy :=
    ⟨QueryRegistry.valid_withCapacity _, PlanGraph.tidy_empty⟩
  cases hp with
  | new options attributes => exact hnew options attributes
  | @document options d _ h =>
      have hafter := congrArg (·.2.workspace) (outcome_of_ofDocument h)
      rw [← show _ = p.workspace from hafter]
      exact Workspace.keeps_tidy_apply d _ (hnew options d.attributeRegistry)

/-- Handing out an id changes the registry only. -/
theorem eq_of_addQuery {name : String} {q : QueryId}
    (h : (p.perform (.addQuery name)).1 = .added (.ok q)) :
    ∃ queries, p.workspace.queries.add name = .ok (q, queries) ∧
      (p.perform (.addQuery name)).2 = { p with workspace := { p.workspace with queries } } := by
  simp only [perform, answer, build, Attempt.outcome_within, Workspace.addQuery,
    Attempt.outcome_ofOutcome] at h ⊢
  cases ha : p.workspace.queries.add name with
  | error e =>
      rw [ha] at h
      cases h
  | ok r =>
      rw [ha] at h
      obtain rfl : r.1 = q := Except.ok.inj (Reply.added.inj h)
      exact ⟨r.2, rfl, rfl⟩

/-- **Only queries in use occur.**  Whatever a planner was called for, every query id that
occurs in its graph is active.  So an id that is handed out has no record on any waypoint and no
root; and the root of a query, if it has one, is a waypoint that covers it. -/
theorem queries_in_use (hp : p.Fresh) (calls : List Call) :
    (∀ q, (p.runAll calls).workspace.graph.Mentions q →
      q ∈ (p.runAll calls).workspace.queries.active) ∧
    (∀ name q, ((p.runAll calls).perform (.addQuery name)).1 = .added (.ok q) →
      ¬((p.runAll calls).perform (.addQuery name)).2.workspace.graph.Mentions q) ∧
    ∀ q root, (p.runAll calls).workspace.graph.root? q = some root →
      ∃ w, (p.runAll calls).workspace.graph.find? root = some w ∧ w.covers q = true := by
  have htidy := tidy_runAll calls hp.tidy
  refine ⟨fun q hq => ?_, fun name q hadd hq => ?_, htidy.graph.rooted⟩
  · exact (QuerySet.mem_toList.1
      (htidy.queries.mem_active_iff.2 (htidy.graph.of_mentions hq))).1
  · obtain ⟨queries, hqueries, hafter⟩ := eq_of_addQuery hadd
    rw [hafter] at hq
    exact htidy.queries.not_mem_of_add hqueries (htidy.graph.of_mentions hq)

/-- A query that was registered and compiled leaves nothing behind for the one that gets its id. -/
theorem queries_in_use_scan :
    ∃ p, p = Planner.new .standard (.ofNames ["a"]) ∧
      (p.runAll (.addQuery "q" :: scanAndPrint ++ [.compile])).workspace.graph.Mentions ⟨0⟩ ∧
      ((p.runAll (.addQuery "q" :: scanAndPrint ++ [.compile, .deleteQuery "q"])).perform
        (.addQuery "r")).1 = .added (.ok ⟨0⟩) ∧
      ¬((p.runAll (.addQuery "q" :: scanAndPrint ++ [.compile, .deleteQuery "q"])).perform
        (.addQuery "r")).2.workspace.graph.Mentions ⟨0⟩ := by
  obtain ⟨p, hp⟩ : ∃ p, p = Planner.new .standard (.ofNames ["a"]) := ⟨_, rfl⟩
  have hroot : (p.runAll (.addQuery "q" :: scanAndPrint ++ [.compile])).workspace.graph.root? ⟨0⟩ =
      some ⟨3⟩ := by
    rw [hp]
    decide +kernel
  have hadd : ((p.runAll (.addQuery "q" :: scanAndPrint ++ [.compile, .deleteQuery "q"])).perform
      (.addQuery "r")).1 = .added (.ok ⟨0⟩) := by
    rw [hp]
    decide +kernel
  have hfresh : p.Fresh := hp ▸ .new .standard (.ofNames ["a"])
  exact ⟨p, hp, .inr ⟨_, hroot⟩, hadd, (queries_in_use hfresh _).2.1 _ _ hadd⟩

end Planner

end SharedPlan
