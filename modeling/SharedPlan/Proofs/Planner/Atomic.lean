import SharedPlan.Proofs.Planner.Tidy

/-!
# SharedPlan.Proofs.Planner.Atomic

A call that builds a plan is carried out as a whole or not at all.

The calls of `SharedPlan.Workspace` hand over a changed plan or none.
`BuilderCall.inPlace` carries them out in place instead, one change after another, and
takes none of them back when a later one fails.  Both come to the same
(`BuilderCall.outcome_inPlace`): once a waypoint has been changed, making it a root cannot
fail.

Creating a waypoint interns its name first.  The ids of the waypoints are those of
interned names (`Workspace.Named`), so a name that is new is not refused, and one that is
refused was there before (`Workspace.intern_of_addWaypoint_error`).
-/

namespace SharedPlan

open Attempt (Keeps)

namespace PlanGraph

variable {g h : PlanGraph} {id : WaypointId}

/-- An edge adds no waypoint. -/
theorem ids_of_addEdge {sender receiver : WaypointId} {kind : EdgeKind}
    (ha : g.addEdge sender receiver kind = .ok h) : h.ids = g.ids := by
  obtain ⟨-, -, rfl | rfl⟩ := eq_of_addEdge ha <;> rfl

/-- A waypoint of the graph can be made a root. -/
theorem exists_setRoot (hid : id ∈ g.ids) (q : QueryId) :
    ∃ h, g.setRoot q id = .ok h ∧ h.ids = g.ids := by
  unfold setRoot
  rw [contains_iff.2 hid]
  exact ⟨_, rfl, by split <;> rfl⟩

/-- Roots at a waypoint of the graph are set for any queries. -/
theorem exists_setRoots (hid : id ∈ g.ids) (l : List QueryId) :
    ∃ h, l.foldlM (·.setRoot · id) g = .ok h ∧ h.ids = g.ids := by
  induction l generalizing g with
  | nil => exact ⟨g, rfl, rfl⟩
  | cons q rest ih =>
      obtain ⟨k, hk, hids⟩ := exists_setRoot hid q
      obtain ⟨h, hh, hids'⟩ := ih (hids ▸ hid)
      exact ⟨h, by rw [List.foldlM_cons, hk]; exact hh, hids'.trans hids⟩

end PlanGraph

/-! ## Calls in place -/

namespace Attempt

variable {σ α β : Type}

/-- A step that only looks at the state. -/
def look (f : σ → Except PlanError α) : Attempt σ α := .ofOutcome fun s => (f s, s)

/-- Looking something up and going on is the update that does both, if going on is. -/
theorem outcome_look_bind {f : σ → Except PlanError α} {k : α → Attempt σ Unit}
    {g : α → σ → Except PlanError σ} {s : σ}
    (h : ∀ x, f s = .ok x → (k x).outcome s = (update (g x)).outcome s) :
    (look f >>= k).outcome s = (update fun s => f s >>= fun x => g x s).outcome s := by
  rw [outcome_bind, look, outcome_ofOutcome, outcome_update]
  cases hx : f s with
  | error e => rfl
  | ok x => exact h x hx

end Attempt

open Attempt (look)

namespace Workspace

variable {s t : Workspace}

/-- Intern a name. -/
def intern (name : String) : Attempt Workspace WaypointId :=
  .ofOutcome fun s => (.ok (s.names.intern name).1, { s with names := (s.names.intern name).2 })

/-- Change the graph. -/
def onGraph (f : PlanGraph → Except PlanError PlanGraph) : Attempt Workspace Unit :=
  .update fun s => do return { s with graph := ← f s.graph }

/-- Register queries for a duty on a waypoint: change the waypoint where it stands, then make it
the root of one query after another. -/
def assignInPlace (waypoint : String) (queries : List QueryId) (duty : Duty) :
    Attempt Workspace Unit := do
  let id ← look (·.waypointId waypoint)
  let w ← look (·.graph.waypoint id)
  if w.kind ∈ duty.kinds then
    onGraph fun g => .ok (g.replace (queries.foldl (·.enrol · duty) w))
    if duty.rooted then queries.forM fun q => onGraph (·.setRoot q id)
  else throw (.wrongKind waypoint duty.kinds w.kind)

/-- A change of the graph changes nothing else. -/
theorem outcome_onGraph {f : PlanGraph → Except PlanError PlanGraph} {graph : PlanGraph}
    (h : f s.graph = .ok graph) : (onGraph f).outcome s = (.ok (), { s with graph }) := by
  rw [onGraph, Attempt.outcome_update, h]
  rfl

theorem outcome_setRoots {id : WaypointId} {l : List QueryId} {graph : PlanGraph}
    (hid : id ∈ s.graph.ids) (h : l.foldlM (·.setRoot · id) s.graph = .ok graph) :
    (l.forM fun q => onGraph (·.setRoot q id)).outcome s = (.ok (), { s with graph }) := by
  induction l generalizing s with
  | nil =>
      obtain rfl := Except.ok.inj h
      rfl
  | cons q rest ih =>
      obtain ⟨k, hk, hids⟩ := PlanGraph.exists_setRoot hid q
      rw [List.foldlM_cons, hk] at h
      have hrest := ih (s := { s with graph := k }) (hids ▸ hid) h
      rw [List.forM, List.forM_eq_forM, Attempt.outcome_bind, outcome_onGraph hk]
      exact hrest

/-- **A registration in place** is one: what is written into the waypoint is never left
behind without the root. -/
theorem outcome_assignInPlace (waypoint : String) (l : List QueryId) (d : Duty) (s : Workspace) :
    (assignInPlace waypoint l d).outcome s = (Attempt.update (assign waypoint l d)).outcome s := by
  refine Attempt.outcome_look_bind fun id _ => Attempt.outcome_look_bind fun w hw => ?_
  by_cases hkind : w.kind ∈ d.kinds
  · have henrolled : (onGraph fun g => .ok (g.replace (l.foldl (·.enrol · d) w))).outcome s =
        (.ok (), { s with graph := s.graph.replace (l.foldl (·.enrol · d) w) }) := rfl
    rw [if_pos hkind, Attempt.outcome_bind, henrolled, Attempt.outcome_update]
    simp only [hkind, if_true]
    by_cases hrooted : d.rooted = true
    · have hid : id ∈ (s.graph.replace (l.foldl (·.enrol · d) w)).ids := by
        rw [PlanGraph.ids_replace]
        exact PlanGraph.mem_ids_iff.2 ⟨w, PlanGraph.waypoint_eq_ok_iff.1 hw⟩
      obtain ⟨graph, hgraph, -⟩ := PlanGraph.exists_setRoots hid l
      simp only [hrooted, if_true, hgraph]
      exact outcome_setRoots hid hgraph
    · simp only [hrooted]
      rfl
  · rw [if_neg hkind, Attempt.outcome_update]
    simp only [hkind, if_false]
    rfl

end Workspace

/-- A call that builds a plan by name. -/
inductive BuilderCall where
  | create (spec : WaypointSpec)
  | connect (sender receiver : String) (kind : EdgeKind)
  | register (r : Registration)
  | returnAsState (waypoint query : String)
  /-- Look a query up. -/
  | queryId (name : String)

namespace BuilderCall

open Workspace

/-- The call. -/
def attempt : BuilderCall → Attempt Workspace Unit
  | create spec => do let _ ← Workspace.create spec
  | connect sender receiver kind => Workspace.connect sender receiver kind
  | register r => registerDuty r
  | returnAsState waypoint query => Workspace.returnAsState waypoint query
  | queryId name => do let _ ← look (·.queries.resolve name)

/-- The call carried out in place: whatever was changed before something fails stays changed. -/
def inPlace : BuilderCall → Attempt Workspace Unit
  | create spec => do
    let role ← look (·.roleOf spec)
    let id ← intern spec.name
    onGraph (·.addWaypoint (.fresh id spec.name role))
  | connect sender receiver kind => do
    let senderId ← look (·.waypointId sender)
    let receiverId ← look (·.waypointId receiver)
    onGraph (·.addEdge senderId receiverId kind)
  | register r => do
    let queries ← look fun s => r.queries.mapM s.queries.resolve
    let duty ← look (·.dutyOf r)
    assignInPlace r.waypoint queries duty
  | returnAsState waypoint query => do
    let q ← look (·.queries.resolve query)
    assignInPlace waypoint [q] .returnAsState
  | queryId name => do let _ ← look (·.queries.resolve name)

/-- **Every call comes to the same in place.** -/
theorem outcome_inPlace (c : BuilderCall) (s : Workspace) :
    c.inPlace.outcome s = c.attempt.outcome s := by
  cases c with
  | create spec =>
      simp only [inPlace, attempt, Attempt.outcome_bind, look, Workspace.create,
        Attempt.outcome_ofOutcome]
      cases hr : s.roleOf spec with
      | error e => rfl
      | ok role =>
          simp only [intern, onGraph, Attempt.outcome_ofOutcome, Attempt.outcome_update]
          cases s.graph.addWaypoint (.fresh (s.names.intern spec.name).1 spec.name role) <;> rfl
  | connect sender receiver kind =>
      exact Attempt.outcome_look_bind fun _ _ => Attempt.outcome_look_bind fun _ _ => rfl
  | register r =>
      exact Attempt.outcome_look_bind fun l _ => Attempt.outcome_look_bind fun d _ =>
        outcome_assignInPlace r.waypoint l d s
  | returnAsState waypoint query =>
      exact Attempt.outcome_look_bind fun q _ => outcome_assignInPlace waypoint [q] .returnAsState s
  | queryId _ => rfl

end BuilderCall

/-! ## The ids of the waypoints -/

theorem WaypointId.isSentinel_of_two_le {w : WaypointId} (h : 2 ≤ w.val.toNat) :
    w.isSentinel = false := by
  rw [isSentinel, Bool.or_eq_false_iff, beq_eq_false_iff_ne, beq_eq_false_iff_ne]
  constructor <;> rintro rfl <;> exact absurd h (by decide)

namespace WaypointNames

variable {n : WaypointNames} {name : String} {w : WaypointId}

/-- A name that is found has one of the ids given so far. -/
theorem lt_size_of_lookup (h : n.lookup name = some w) : w.val.toNat < n.size := by
  obtain ⟨i, hi, rfl⟩ := Option.map_eq_some_iff.1 h
  have hlt : i < n.names.length := (List.idxOf?_eq_some_iff.1 hi).1
  exact (Nat.mod_le i _).trans_lt hlt

/-- A name that is known keeps its id; only the counters move. -/
theorem intern_of_lookup (h : n.lookup name = some w) :
    n.intern name = (w, { n with calls := n.calls + 1, hits := n.hits + 1 }) := by
  rw [intern, h]

/-- A name that is new is given the next id. -/
theorem intern_of_lookup_eq_none (h : n.lookup name = none) :
    n.intern name = (⟨n.size.toUInt32⟩,
      { names := n.names ++ [name], calls := n.calls + 1, hits := n.hits,
        misses := n.misses + 1 }) := by
  rw [intern, h]

/-- Interning takes no name away, and the id that it gives is that of an interned name. -/
theorem intern_lt (n : WaypointNames) (name : String) :
    n.size ≤ (n.intern name).2.size ∧
      (n.intern name).1.val.toNat < (n.intern name).2.size := by
  cases h : n.lookup name with
  | some w =>
      rw [intern_of_lookup h]
      exact ⟨le_rfl, lt_size_of_lookup h⟩
  | none =>
      have hsize : (n.intern name).2.size = n.size + 1 := by
        rw [intern_of_lookup_eq_none h]
        exact List.length_append
      rw [hsize, intern_of_lookup_eq_none h]
      exact ⟨Nat.le_succ _, Nat.lt_succ_of_le (Nat.mod_le ..)⟩

end WaypointNames

namespace Workspace

variable {s t : Workspace}

/-- The names of the sentinels are interned, and every waypoint has the id of a name. -/
structure Named (s : Workspace) : Prop where
  sentinels : 2 ≤ s.names.size
  lt_size : ∀ id ∈ s.graph.ids, id.val.toNat < s.names.size

/-- An empty workspace has nothing to name. -/
theorem named_empty (queries : QueryRegistry) (attributes : Attributes) :
    Named ⟨.initial, queries, attributes, .empty⟩ :=
  ⟨le_rfl, fun _ hid => absurd hid List.not_mem_nil⟩

/-- Names and ids are all that matters. -/
theorem Named.congr (hs : s.Named) (hnames : t.names = s.names) (hids : t.graph.ids = s.graph.ids) :
    t.Named :=
  ⟨hnames ▸ hs.sentinels, hnames ▸ hids ▸ hs.lt_size⟩

theorem Named.assign (hs : s.Named) {waypoint : String} {l : List QueryId} {d : Duty}
    (ht : s.assign waypoint l d = .ok t) : t.Named := by
  obtain ⟨id, w, graph, hw, -, hgraph, rfl⟩ := eq_of_assign ht
  have hid : id ∈ (s.graph.replace (l.foldl (·.enrol · d) w)).ids := by
    rw [PlanGraph.ids_replace]
    exact PlanGraph.mem_ids_iff.2 ⟨w, hw⟩
  refine hs.congr rfl ?_
  obtain ⟨h, hh, hids⟩ := PlanGraph.exists_setRoots hid l
  rw [hh] at hgraph
  split at hgraph
  · rw [← Except.ok.inj hgraph, hids, PlanGraph.ids_replace]
  · rw [← Except.ok.inj hgraph, PlanGraph.ids_replace]

theorem keeps_named_create (spec : WaypointSpec) : Keeps Named (create spec) := by
  intro s hs
  obtain ⟨hle, hlt⟩ := s.names.intern_lt spec.name
  have hids : ∀ id ∈ s.graph.ids, id.val.toNat < (s.names.intern spec.name).2.size :=
    fun id hid => (hs.lt_size id hid).trans_le hle
  rw [create, Attempt.outcome_ofOutcome]
  cases s.roleOf spec with
  | error e => exact hs
  | ok role =>
      dsimp only
      cases ha : s.graph.addWaypoint (.fresh (s.names.intern spec.name).1 spec.name role) with
      | error e => exact ⟨hs.sentinels.trans hle, hids⟩
      | ok graph =>
          obtain ⟨-, -, rfl⟩ := PlanGraph.eq_of_addWaypoint ha
          refine ⟨hs.sentinels.trans hle, fun id hid => ?_⟩
          rw [PlanGraph.ids, List.map_append, List.mem_append] at hid
          rcases hid with hid | hid
          · exact hids id hid
          · exact List.mem_singleton.1 hid ▸ hlt

/-- **A call keeps the ids those of interned names,** whether or not it succeeds. -/
theorem keeps_named_attempt (c : BuilderCall) : Keeps Named c.attempt := by
  cases c with
  | create spec => exact (keeps_named_create spec).bind fun _ => Attempt.keeps_pure ()
  | connect sender receiver kind =>
      refine keeps_update fun hs ht => ?_
      obtain ⟨_, -, ht⟩ := bind_eq_ok_iff.1 ht
      obtain ⟨_, -, ht⟩ := bind_eq_ok_iff.1 ht
      obtain ⟨graph, ha, rfl⟩ := bind_pure_eq_ok_iff.1 ht
      exact hs.congr rfl (PlanGraph.ids_of_addEdge ha)
  | register r =>
      refine keeps_update fun hs ht => ?_
      obtain ⟨_, -, ht⟩ := bind_eq_ok_iff.1 ht
      obtain ⟨_, -, ht⟩ := bind_eq_ok_iff.1 ht
      exact hs.assign ht
  | returnAsState waypoint query =>
      exact keeps_returnAsState fun hs _ ht => hs.assign ht
  | queryId name =>
      intro s hs
      rw [BuilderCall.attempt, Attempt.outcome_bind, look, Attempt.outcome_ofOutcome]
      cases s.queries.resolve name <;> exact hs

/-- **A name that is refused was there before.**  As long as there are ids left, a new name gets
one that no waypoint has. -/
theorem intern_of_addWaypoint_error (hs : s.Named) (hsize : s.names.size < UInt32.size)
    {name : String} {role : Role} {e : PlanError}
    (ha : s.graph.addWaypoint (.fresh (s.names.intern name).1 name role) = .error e) :
    (s.names.intern name).2 =
      { s.names with calls := s.names.calls + 1, hits := s.names.hits + 1 } := by
  cases h : s.names.lookup name with
  | some w => rw [WaypointNames.intern_of_lookup h]
  | none =>
      rw [WaypointNames.intern_of_lookup_eq_none h] at ha
      have hval : s.names.size.toUInt32.toNat = s.names.size := Nat.mod_eq_of_lt hsize
      have hproper : WaypointId.isSentinel ⟨s.names.size.toUInt32⟩ = false :=
        WaypointId.isSentinel_of_two_le (hs.sentinels.trans_eq hval.symm)
      have hnew : s.graph.contains ⟨s.names.size.toUInt32⟩ = false := by
        rw [← Bool.not_eq_true, PlanGraph.contains_iff]
        exact fun hid => (hs.lt_size _ hid).ne hval
      simp [PlanGraph.addWaypoint, Waypoint.fresh, hproper, hnew] at ha

end Workspace

/-! ## All or nothing -/

namespace BuilderCall

/-- The plans that calls lead to, between which queries are added, removed and given other names:
from a plan without waypoints and queries, for some attributes and some number of queries. -/
inductive Built : Workspace → Prop
  | empty (capacity : Nat) (attributes : Attributes) :
      Built ⟨.initial, .withCapacity capacity, attributes, .empty⟩
  | call {s : Workspace} (c : BuilderCall) : Built s → Built (c.attempt.outcome s).2
  | addQuery {s : Workspace} (name : String) :
      Built s → Built ((Workspace.addQuery name).outcome s).2
  | removeQuery {s : Workspace} (q : QueryId) :
      Built s → Built { s with queries := s.queries.remove q }
  | addAlias {s : Workspace} (name : String) (q : QueryId) :
      Built s → Built ((Workspace.addAlias name q).outcome s).2

variable {s t : Workspace}

/-- In what has been built every waypoint has a name of its own. -/
theorem Built.named (hs : Built s) : s.Named := by
  induction hs with
  | empty capacity attributes => exact Workspace.named_empty _ attributes
  | call c _ ih => exact Workspace.keeps_named_attempt c _ ih
  | @addQuery s name _ ih =>
      rw [Workspace.addQuery, Attempt.outcome_ofOutcome]
      cases s.queries.add name <;> exact ih.congr rfl rfl
  | removeQuery q _ ih => exact ih.congr rfl rfl
  | addAlias name q _ ih =>
      refine Workspace.keeps_update (fun hs ht => ?_) _ ih
      obtain ⟨queries, -, rfl⟩ := bind_pure_eq_ok_iff.1 ht
      exact hs.congr rfl rfl

/-- **What a call that fails leaves**: nothing but a name that was interned for a waypoint that
the graph then refused. -/
theorem eq_of_attempt_error {c : BuilderCall} {e : PlanError}
    (h : c.attempt.outcome s = (.error e, t)) :
    t = s ∨ ∃ name role, t = { s with names := (s.names.intern name).2 } ∧
      s.graph.addWaypoint (.fresh (s.names.intern name).1 name role) = .error e := by
  cases c with
  | create spec =>
      rw [attempt, Attempt.outcome_bind, Workspace.create, Attempt.outcome_ofOutcome] at h
      cases hr : s.roleOf spec with
      | error e' =>
          rw [hr] at h
          exact .inl (Prod.mk.inj h).2.symm
      | ok role =>
          rw [hr] at h
          dsimp only at h
          cases ha : s.graph.addWaypoint (.fresh (s.names.intern spec.name).1 spec.name role) with
          | error e' =>
              rw [ha] at h
              obtain ⟨he, rfl⟩ := Prod.mk.inj h
              exact .inr ⟨spec.name, role, rfl, Except.error.inj he ▸ ha⟩
          | ok graph =>
              rw [ha] at h
              cases h
  | connect _ _ _ => exact .inl (Attempt.eq_of_update_eq_error h)
  | register _ => exact .inl (Attempt.eq_of_update_eq_error h)
  | returnAsState _ _ => exact .inl (Attempt.eq_of_update_eq_error h)
  | queryId name =>
      rw [attempt, Attempt.outcome_bind, look, Attempt.outcome_ofOutcome] at h
      cases hq : s.queries.resolve name <;> rw [hq] at h
      · exact .inl (Prod.mk.inj h).2.symm
      · cases h

/-- **Every call is carried out as a whole or not at all.**  Carried out in place, one change after
another, it comes to the same as the call; and one that fails leaves the graph, the queries and
the attributes exactly as they were.  It leaves the interned names as they were, too, as long
as there are ids left for new ones; only the calls of the interner and those that found
their name may be counted one higher. -/
theorem all_or_nothing (hs : Built s) (c : BuilderCall) :
    c.inPlace.outcome s = c.attempt.outcome s ∧
      ∀ e t, c.inPlace.outcome s = (.error e, t) →
        t.graph = s.graph ∧ t.queries = s.queries ∧ t.attributes = s.attributes ∧
          (s.names.size < UInt32.size → ∃ n ≤ 1, t.names =
            { s.names with calls := s.names.calls + n, hits := s.names.hits + n }) := by
  refine ⟨c.outcome_inPlace s, fun e t ht => ?_⟩
  rw [outcome_inPlace] at ht
  rcases eq_of_attempt_error ht with rfl | ⟨name, role, rfl, ha⟩
  · exact ⟨rfl, rfl, rfl, fun _ => ⟨0, by decide, by simp⟩⟩
  · refine ⟨rfl, rfl, rfl, fun hsize => ⟨1, UInt64.le_refl 1, ?_⟩⟩
    exact Workspace.intern_of_addWaypoint_error hs.named hsize ha

/-- A scan and a print above it, for an attribute and a query. -/
def laid : Workspace :=
  [create (.scanner "scan" "t" ["a"]), create (.print "out"),
    connect "scan" "out" .flowThrough].foldl (fun s c => (c.attempt.outcome s).2)
      ((Workspace.addQuery "q").outcome ⟨.initial, .withCapacity 64, .ofNames ["a"], .empty⟩).2

theorem built_laid : Built laid :=
  .call _ (.call _ (.call _ (.addQuery "q" (.empty 64 (.ofNames ["a"])))))

/-- Calls that are refused there, and why. -/
def refused : List (BuilderCall × PlanError) :=
  [(create (.print "scan"), .duplicateWaypoint "scan"),
    (create (.selection "<top>"), .invalidEdge .top .top .sentinelWaypoint),
    (create (.cluster "sort" "t" "b"), .unknownAttribute "b"),
    (connect "scan" "out" .terminating, .invalidEdge ⟨2⟩ ⟨3⟩ .otherKind),
    (register (.writer "out" "q" ["a"]), .wrongKind "out" [.scanner] .print),
    (register (.print "out" "r" ["a"] none), .unknownQuery "r"),
    (returnAsState "sum" "q", .unknownWaypoint "sum")]

/-- Two waypoints and one edge are there before and after every call that is refused. -/
theorem all_or_nothing_laid :
    (laid.graph.size = 2 ∧ laid.graph.edges.length = 1) ∧
      ∀ p ∈ refused, (p.1.inPlace.outcome laid).1 = .error p.2 ∧
        (p.1.inPlace.outcome laid).2.graph = laid.graph ∧
        (p.1.inPlace.outcome laid).2.queries = laid.queries ∧
        ∃ n ≤ 1, (p.1.inPlace.outcome laid).2.names =
          { laid.names with calls := laid.names.calls + n, hits := laid.names.hits + n } := by
  have hrefused : ∀ p ∈ refused, (p.1.inPlace.outcome laid).1 = .error p.2 := by decide +kernel
  have hsize : laid.names.size < UInt32.size := by decide +kernel
  refine ⟨by decide +kernel, fun p hp => ?_⟩
  obtain ⟨hgraph, hqueries, -, hnames⟩ := (all_or_nothing built_laid p.1).2 p.2
    (p.1.inPlace.outcome laid).2 (Prod.ext (hrefused p hp) rfl)
  exact ⟨hrefused p hp, hgraph, hqueries, hnames hsize⟩

end BuilderCall

end SharedPlan
