import SharedPlan.Proofs.Planner.Erased
import SharedPlan.Proofs.Planner.Fatal

/-!
# SharedPlan.Proofs.Planner.Interleaved

Registrations of different queries commute.

Graphs are `PlanGraph.SameFor` a query when they have the same waypoints, keep the same for
the query on each of them, have the same root for it, and have the same edges but for those to
the top.  Building on such graphs comes to the same (`respected_sameFor`), while a registration
of another query does not lead away from such a graph (`Workspace.keeps_sameFor_register`).  So
of all the registrations between those of a query nothing shows in how these are answered, nor in
what is kept for it (`Planner.replies_of_query`).  A graph is made of what is kept for each
query, so two orders that keep each query's own lead to graphs that compile alike
(`Planner.registrations_commute`).
-/

namespace SharedPlan

open Attempt (Keeps)

/-! ## What is kept for one query -/

namespace PlanGraph

variable {g h k : PlanGraph} {q r : QueryId} {id : WaypointId}

/-- The graph with what its waypoints keep for one query, and with its root. -/
def part (q : QueryId) (g : PlanGraph) : PlanGraph :=
  { g.only q with roots := g.roots.filter fun r _ => r = q }

/-- Graphs with the same waypoints, and the same edges but for those to the top, that keep the
same for a query. -/
def SameFor (q : QueryId) (g h : PlanGraph) : Prop := (g.part q).Capped (h.part q)

@[simp] theorem ids_part (q : QueryId) (g : PlanGraph) : (g.part q).ids = g.ids :=
  ids_mapWaypoints (f := (·.only q)) (fun _ => rfl) g

@[simp] theorem contains_part (q : QueryId) (g : PlanGraph) (id : WaypointId) :
    (g.part q).contains id = g.contains id := by
  rw [Bool.eq_iff_iff, contains_iff, contains_iff, ids_part]

@[simp] theorem outputs_part (q : QueryId) (g : PlanGraph) : (g.part q).outputs = g.outputs :=
  outputs_congr (ids_part q g) rfl

/-- A waypoint of the part is the part of the waypoint. -/
theorem find?_part (q : QueryId) (g : PlanGraph) (id : WaypointId) :
    (g.part q).find? id = (g.find? id).map (·.only q) :=
  find?_mapWaypoints (f := (·.only q)) (fun _ => rfl) g id

theorem root?_part (q : QueryId) (g : PlanGraph) : (g.part q).root? q = g.root? q := by
  rw [root?, part, OrdMap.get?_filter, root?]
  cases g.roots.get? q <;> simp

theorem SameFor.refl (hg : ∀ id ∈ g.ids, id.isSentinel = false) : g.SameFor q g :=
  ⟨rfl, rfl, rfl, by rwa [ids_part]⟩

theorem SameFor.ids (H : g.SameFor q h) : g.ids = h.ids := by
  rw [← ids_part q g, Capped.ids H, ids_part]

/-- **A graph is made of what is kept for each query**, but for edges to the top. -/
theorem Capped.of_sameFor (H : ∀ q, g.SameFor q h) : g.Capped h where
  waypoints := by
    have hlength : g.waypoints.length = h.waypoints.length := by
      simpa [PlanGraph.ids] using congrArg List.length (SameFor.ids (H ⟨0⟩))
    refine List.ext_getElem hlength fun i hi hi' => Waypoint.eq_of_only fun q => ?_
    have hmap : g.waypoints.map (·.only q) = h.waypoints.map (·.only q) := (H q).waypoints
    have hat := List.getElem_of_eq hmap (by rwa [List.length_map])
    rwa [List.getElem_map, List.getElem_map] at hat
  links := (H ⟨0⟩).links
  roots := by
    ext1 q
    have hroot : (g.part q).root? q = (h.part q).root? q := by rw [root?, root?, (H q).roots]
    rwa [root?_part, root?_part] at hroot
  proper := by simpa using (H ⟨0⟩).proper

/-! ## Building -/

theorem part_addWaypoint (g : PlanGraph) (w : Waypoint) :
    (g.addWaypoint w).map (part q) = (g.part q).addWaypoint (w.only q) := by
  have hname : (w.only q).name = w.name := rfl
  simp only [addWaypoint, Waypoint.id_only, contains_part, Waypoint.kind_only, hname]
  cases w.id.isSentinel
  · cases g.contains w.id
    · cases w.kind.isSource <;> cases w.kind.isSink <;>
        simp [Except.map, part, only, mapWaypoints, link]
    · rfl
  · rfl

theorem part_addEdge (g : PlanGraph) (sender receiver : WaypointId) (kind : EdgeKind) :
    (g.addEdge sender receiver kind).map (part q) = (g.part q).addEdge sender receiver kind := by
  simp only [addEdge, contains_part, outputs_part]
  split
  · rfl
  split
  · rfl
  split
  · rfl
  split
  · split <;> rfl
  · rfl

/-- The part of a graph follows its operations, here the replacement of a waypoint. -/
theorem part_replace (g : PlanGraph) (w : Waypoint) :
    (g.replace w).part q = (g.part q).replace (w.only q) :=
  congrArg (fun k : PlanGraph => { k with roots := (g.part q).roots })
    (mapWaypoints_replace (f := (·.only q)) (fun _ => rfl) g w)

theorem part_deleteQuery (g : PlanGraph) (r : QueryId) :
    (g.deleteQuery r).part q = (g.part q).deleteQuery r := by
  have hwaypoints : (g.waypoints.map (·.deleteQuery r)).map (·.only q) =
      (g.waypoints.map (·.only q)).map (·.deleteQuery r) := by
    rw [List.map_map, List.map_map]
    exact List.map_congr_left fun w _ => w.only_deleteQuery q r
  have hroots : ((g.roots.erase r).filter fun s _ => s = q) =
      (g.roots.filter fun s _ => s = q).erase r := by
    ext1 s
    simp only [OrdMap.get?_erase, OrdMap.get?_filter]
    split <;> rfl
  simp only [part, only, deleteQuery, mapWaypoints, hwaypoints, hroots]

theorem part_clearQueries (g : PlanGraph) : g.clearQueries.part q = (g.part q).clearQueries := by
  have hwaypoints : (g.waypoints.map (·.clear)).map (·.only q) =
      (g.waypoints.map (·.only q)).map (·.clear) := by
    rw [List.map_map, List.map_map]
    exact List.map_congr_left fun w _ => w.only_clear q
  simp only [part, only, clearQueries, mapWaypoints, hwaypoints]
  rfl

theorem SameFor.setRoot (H : g.SameFor q h) (r : QueryId) (id : WaypointId) :
    Agree (SameFor q) (g.setRoot r id) (h.setRoot r id) := by
  have hcontains : g.contains id = h.contains id := by
    rw [← contains_part q g, Capped.contains H, contains_part]
  have hroots : ((g.roots.insert r id).filter fun s _ => s = q) =
      (h.roots.insert r id).filter fun s _ => s = q := by
    ext1 s
    have hroot := congrArg (·.get? s) H.roots
    simp only [part, OrdMap.get?_filter] at hroot
    simp only [OrdMap.get?_filter, OrdMap.get?_insert]
    split
    · rfl
    · exact hroot
  unfold PlanGraph.setRoot
  rw [hcontains]
  split
  · exact .error _
  dsimp only
  -- another query may have made one of them, but not the other, a root before
  split <;> split
  · exact .ok (Capped.withRoots H hroots)
  · exact .ok ((Capped.link_right H id .terminating).withRoots hroots)
  · exact .ok ((Capped.link_left H id .terminating).withRoots hroots)
  · exact .ok (((Capped.link_left H id .terminating).link_right id .terminating).withRoots hroots)

/-- A duty that is enrolled in both leaves them the same for the query. -/
theorem SameFor.enrol (H : g.SameFor q h) (id : WaypointId) (queries : List QueryId) (d : Duty) :
    Agree (fun v w => v.kind = w.kind ∧
        SameFor q (g.replace (queries.foldl (·.enrol · d) v))
          (h.replace (queries.foldl (·.enrol · d) w)))
      (g.waypoint id) (h.waypoint id) := by
  have henrolled {v w : Waypoint} (hvw : v.only q = w.only q) :
      (queries.foldl (·.enrol · d) v).only q = (queries.foldl (·.enrol · d) w).only q := by
    induction queries generalizing v w with
    | nil => exact hvw
    | cons r rest ih => exact ih (Waypoint.only_enrol_congr hvw r d)
  have hview : (g.find? id).map (·.only q) = (h.find? id).map (·.only q) := by
    rw [← find?_part, Capped.find? H, find?_part]
  rw [PlanGraph.waypoint, PlanGraph.waypoint]
  cases hg : g.find? id <;> cases hh : h.find? id <;> rw [hg, hh] at hview
  · exact .error _
  · cases hview
  · cases hview
  · rename_i v w
    have hvw : v.only q = w.only q := Option.some.inj hview
    refine .ok ⟨by rw [← Waypoint.kind_only q v, hvw, Waypoint.kind_only], ?_⟩
    rw [SameFor, part_replace, part_replace, henrolled hvw]
    exact Capped.replace H _

/-- What is built on graphs that keep the same for a query keeps the same for it. -/
theorem respected_sameFor (q : QueryId) : Respected (SameFor q) where
  addWaypoint {g h w} H _ := by
    refine Agree.of_map (f := part q) ?_
    rw [part_addWaypoint, part_addWaypoint]
    exact Capped.addWaypoint H _
  addEdge {g h} sender receiver kind H := by
    refine Agree.of_map (f := part q) ?_
    rw [part_addEdge, part_addEdge]
    exact Capped.addEdge H sender receiver kind
  setRoot r id H := H.setRoot r id
  enrol id queries d H := H.enrol id queries d
  deleteQuery r H := by
    rw [SameFor, part_deleteQuery, part_deleteQuery]
    exact respected_capped.deleteQuery r H
  clearQueries H := by
    rw [SameFor, part_clearQueries, part_clearQueries]
    exact respected_capped.clearQueries H

/-! ## Registrations of other queries -/

/-- Registering other queries on a waypoint changes nothing that is kept for a query. -/
theorem SameFor.enrol_of_ne (H : g.SameFor q h) (hh : h.ids.Nodup) {w : Waypoint}
    (hw : h.find? id = some w) {l : List QueryId} (hl : ∀ r ∈ l, r ≠ q) (d : Duty) :
    g.SameFor q (h.replace (l.foldl (·.enrol · d) w)) := by
  have honly (l : List QueryId) (hl : ∀ r ∈ l, r ≠ q) (w : Waypoint) :
      (l.foldl (·.enrol · d) w).only q = w.only q := by
    induction l generalizing w with
    | nil => rfl
    | cons r rest ih =>
        obtain ⟨hr, hrest⟩ := List.forall_mem_cons.1 hl
        exact (ih hrest _).trans (Waypoint.only_enrol_of_ne hr w d)
  have hid : (l.foldl (·.enrol · d) w).id = id := (id_enrolAll l d w).trans (id_of_find? hw)
  have hview := mapWaypoints_replace_eq (f := (·.only q)) hh (hid.symm ▸ hw) (honly l hl w)
  have hpart : (h.replace (l.foldl (·.enrol · d) w)).part q = h.part q :=
    congrArg (fun k : PlanGraph => { k with roots := (h.part q).roots }) hview
  rwa [SameFor, hpart]

/-- Making a waypoint the root of other queries changes nothing that is kept for a query. -/
theorem SameFor.setRoots_of_ne (H : g.SameFor q h) {l : List QueryId} (hl : ∀ r ∈ l, r ≠ q)
    (hk : l.foldlM (·.setRoot · id) h = .ok k) : g.SameFor q k := by
  induction l generalizing h with
  | nil => exact Except.ok.inj hk ▸ H
  | cons r rest ih =>
      obtain ⟨hr, hrest⟩ := List.forall_mem_cons.1 hl
      rw [List.foldlM_cons] at hk
      obtain ⟨m, hm, hk⟩ := bind_eq_ok_iff.1 hk
      refine ih ?_ hrest hk
      have hroots : ((h.roots.insert r id).filter fun s _ => s = q) =
          h.roots.filter fun s _ => s = q := by
        ext1 s
        simp only [OrdMap.get?_filter, OrdMap.get?_insert]
        split
        · rename_i hs
          subst hs
          cases h.roots.get? s <;> simp [hr]
        · rfl
      have hsame : (g.part q).roots = (h.roots.insert r id).filter fun s _ => s = q :=
        H.roots.trans hroots.symm
      rcases eq_of_setRoot hm with rfl | rfl
      · exact Capped.withRoots H hsame
      · exact (Capped.link_right H id .terminating).withRoots hsame

end PlanGraph

/-! ## Plans under construction -/

namespace Workspace

variable {s t t' : Workspace} {q r : QueryId}

/-- Plans with the same registries, whose graphs keep the same for a query. -/
abbrev SameFor (q : QueryId) : Workspace → Workspace → Prop := Over (PlanGraph.SameFor q)

/-- An assignment of other queries changes nothing that is kept for a query. -/
theorem SameFor.assign_of_ne (H : SameFor q s t) (hs : s.graph.ids.Nodup) {waypoint : String}
    {l : List QueryId} (hl : ∀ r ∈ l, r ≠ q) {d : Duty} (ht : t.assign waypoint l d = .ok t') :
    SameFor q s t' := by
  obtain ⟨id, w, graph, hw, -, hgraph, rfl⟩ := eq_of_assign ht
  refine ⟨H.names, H.queries, H.attributes, ?_⟩
  have henrolled := H.graph.enrol_of_ne (H.graph.ids ▸ hs) hw hl d
  split at hgraph
  · exact henrolled.setRoots_of_ne hl hgraph
  · exact Except.ok.inj hgraph ▸ henrolled

/-- A name that stands for no query but one does not stand for another. -/
theorem Over.ne_of_resolve {G : PlanGraph → PlanGraph → Prop} (H : Over G s t) (hr : r ≠ q)
    {name : String} (hname : ∀ u, s.queries.lookup name = some u → u = r) {u : QueryId}
    (hu : t.queries.resolve name = .ok u) : u ≠ q := by
  have hlookup := QueryRegistry.lookup_of_resolve hu
  rw [← H.queries] at hlookup
  exact hname u hlookup ▸ hr

theorem keeps_sameFor_returnAsState (hs : s.graph.ids.Nodup) (hr : r ≠ q) (waypoint : String)
    {name : String} (hname : ∀ u, s.queries.lookup name = some u → u = r) :
    Keeps (SameFor q s) (returnAsState waypoint name) :=
  keeps_returnAsState fun H hl ht =>
    H.assign_of_ne hs (fun u hu => H.ne_of_resolve hr hname (hl u hu)) ht

/-- Registering another query changes nothing that is kept for a query. -/
theorem keeps_sameFor_register (hs : s.graph.ids.Nodup) (hr : r ≠ q) {reg : Registration}
    (hreg : ∀ name ∈ reg.queries, ∀ u, s.queries.lookup name = some u → u = r) :
    Keeps (SameFor q s) (register reg) := by
  refine keeps_register fun H hl ht => H.assign_of_ne hs (fun u hu => ?_) ht
  obtain ⟨name, hname, hresolve⟩ := hl u hu
  exact H.ne_of_resolve hr (hreg name hname) hresolve

theorem keeps_queries_returnAsState (queries : QueryRegistry) (waypoint name : String) :
    Keeps (fun t => t.queries = queries) (returnAsState waypoint name) :=
  keeps_returnAsState fun hs _ ht => by
    obtain ⟨_, _, _, _, _, _, rfl⟩ := eq_of_assign ht
    exact hs

theorem keeps_queries_register (queries : QueryRegistry) (reg : Registration) :
    Keeps (fun t => t.queries = queries) (register reg) :=
  keeps_register fun hs _ ht => by
    obtain ⟨_, _, _, _, _, _, rfl⟩ := eq_of_assign ht
    exact hs

end Workspace

/-! ## Planners -/

namespace Planner

variable {p p' : Planner} {q r : QueryId} {queries : QueryRegistry} {c : Call}

/-- A registration by names that stand for no other query. -/
inductive Call.Registers (queries : QueryRegistry) (q : QueryId) : Call → Prop
  | register {reg : Registration} :
      (∀ name ∈ reg.queries, ∀ u, queries.lookup name = some u → u = q) →
        Registers queries q (.register reg)
  | returnAsState (waypoint : String) {name : String} :
      (∀ u, queries.lookup name = some u → u = q) →
        Registers queries q (.returnAsState waypoint name)

/-- A registration is not an attempt to plan. -/
theorem Call.Registers.isAttempt (hc : c.Registers queries q) : c.isAttempt = false := by
  cases hc <;> rfl

/-- A registration changes no query of the registry. -/
theorem Call.Registers.queries_perform (hc : c.Registers queries q) (p : Planner) :
    (p.perform c).2.workspace.queries = p.workspace.queries := by
  cases hc with
  | register => exact Workspace.keeps_queries_register _ _ p.workspace rfl
  | returnAsState => exact Workspace.keeps_queries_returnAsState _ _ _ p.workspace rfl

/-- Planners with the same settings whose plans keep the same for a query. -/
abbrev SameFor (q : QueryId) : Planner → Planner → Prop := Over (PlanGraph.SameFor q)

/-- A registration of another query changes nothing that is kept for a query. -/
theorem SameFor.perform_of_ne (h : SameFor q p p') (hp : p.workspace.graph.Reachable)
    (hr : r ≠ q) (hc : c.Registers p.workspace.queries r) :
    SameFor q p (p'.perform c).2 := by
  have hnodup := hp.wellFormed.nodup
  cases hc with
  | register hreg =>
      exact ⟨h.options, Workspace.keeps_sameFor_register hnodup hr hreg _ h.workspace⟩
  | returnAsState waypoint hname =>
      refine ⟨h.options, ?_⟩
      exact Workspace.keeps_sameFor_returnAsState hnodup hr waypoint hname _ h.workspace

/-- The replies to calls, each with the query that its call is for. -/
def replies : List (QueryId × Call) → Planner → List (QueryId × Reply)
  | [], _ => []
  | (q, c) :: rest, p => (q, (p.perform c).1) :: replies rest (p.perform c).2

/-- **Registrations of a query do not notice those of others.**  They are answered as if they
were made alone, and what is kept for the query is what it would be then. -/
theorem replies_of_query (h : SameFor q p p') (hp : p.workspace.graph.Reachable)
    {l : List (QueryId × Call)} (hl : ∀ e ∈ l, e.2.Registers p.workspace.queries e.1) :
    (replies l p').filter (·.1 = q) = replies (l.filter (·.1 = q)) p ∧
      SameFor q (p.runAll ((l.filter (·.1 = q)).map (·.2))) (p'.runAll (l.map (·.2))) := by
  -- the run of all calls keeps to the run of the query's own, which waits while others are called
  induction l generalizing p p' with
  | nil => exact ⟨rfl, h⟩
  | cons e rest ih =>
      obtain ⟨r, c⟩ := e
      obtain ⟨hc, hrest⟩ := List.forall_mem_cons.1 hl
      by_cases hr : r = q
      · obtain ⟨hreply, hafter⟩ := h.perform (PlanGraph.respected_sameFor q) hc.isAttempt
        obtain ⟨hreplies, hrun⟩ := ih hafter (reachable_perform hp c)
          (by rwa [hc.queries_perform])
        rw [List.filter_cons_of_pos (by simpa using hr)]
        refine ⟨?_, hrun⟩
        rw [replies, List.filter_cons_of_pos (by simpa using hr), hreplies, replies, hreply]
      · obtain ⟨hreplies, hrun⟩ := ih (h.perform_of_ne hp hr hc) hp hrest
        rw [List.filter_cons_of_neg (by simpa using hr)]
        refine ⟨?_, hrun⟩
        rw [replies, List.filter_cons_of_neg (by simpa using hr), hreplies]

/-- Plans that keep for a query what a third one keeps for it keep the same for it. -/
theorem SameFor.of_common {m : Planner} (h : SameFor q m p)
    (h' : SameFor q m p') : SameFor q p p' :=
  ⟨h.options.symm.trans h'.options, h.workspace.names.symm.trans h'.workspace.names,
    h.workspace.queries.symm.trans h'.workspace.queries,
    h.workspace.attributes.symm.trans h'.workspace.attributes,
    (PlanGraph.Capped.symm h.workspace.graph).trans h'.workspace.graph⟩

/-- Plans that keep the same for each query are equal but for edges to the top. -/
theorem SameFor.capped (h : ∀ q, SameFor q p p') :
    Over PlanGraph.Capped p p' := by
  obtain ⟨hoptions, hnames, hqueries, hattributes, -⟩ := h ⟨0⟩
  exact ⟨hoptions, hnames, hqueries, hattributes, .of_sameFor fun q => (h q).workspace.graph⟩

/-- The calls of a sequence for each query are those given, in their order. -/
def Interleaves (calls : QueryId → List Call) (l : List (QueryId × Call)) : Prop :=
  ∀ q, l.filter (·.1 = q) = (calls q).map (q, ·)

/-- **Registrations of different queries commute.**  Let there be a list of registrations for
each of several queries, by names of that query, on any waypoints.  In any two orders
of all of them that keep the order of each list, every call is answered the same, and
the compile that follows fails with the same error or publishes the same routing, records and
queries. -/
theorem registrations_commute (hp : p.workspace.graph.Reachable) {calls : QueryId → List Call}
    (hcalls : ∀ q, ∀ c ∈ calls q, c.Registers p.workspace.queries q)
    {l l' : List (QueryId × Call)} (hl : Interleaves calls l) (hl' : Interleaves calls l') :
    (∀ q, (replies l p).filter (·.1 = q) = (replies l' p).filter (·.1 = q)) ∧
      ((p.runAll (l.map (·.2))).perform .compile).1.Alike
        ((p.runAll (l'.map (·.2))).perform .compile).1 := by
  have hregisters {l : List (QueryId × Call)} (hl : Interleaves calls l) :
      ∀ e ∈ l, e.2.Registers p.workspace.queries e.1 := by
    rintro ⟨q, c⟩ he
    have hmem : (q, c) ∈ (calls q).map (q, ·) := by
      rw [← hl q]
      exact List.mem_filter.2 ⟨he, decide_eq_true rfl⟩
    obtain ⟨c', hc, heq⟩ := List.mem_map.1 hmem
    obtain rfl := (Prod.mk.inj heq).2
    exact hcalls q c' hc
  have hself (q : QueryId) : SameFor q p p :=
    ⟨rfl, rfl, rfl, rfl, .refl hp.wellFormed.proper⟩
  have hsame (q : QueryId) : l.filter (·.1 = q) = l'.filter (·.1 = q) := (hl q).trans (hl' q).symm
  refine ⟨fun q => ?_, ?_⟩
  · obtain ⟨hreplies, -⟩ := replies_of_query (hself q) hp (hregisters hl)
    obtain ⟨hreplies', -⟩ := replies_of_query (hself q) hp (hregisters hl')
    rw [hreplies, hreplies', hsame]
  · have hcapped : Over PlanGraph.Capped (p.runAll (l.map (·.2))) (p.runAll (l'.map (·.2))) := by
      refine SameFor.capped fun q => ?_
      obtain ⟨-, hrun⟩ := replies_of_query (hself q) hp (hregisters hl)
      obtain ⟨-, hrun'⟩ := replies_of_query (hself q) hp (hregisters hl')
      rw [← hsame] at hrun'
      exact hrun.of_common hrun'
    exact (hcapped.perform_capped .compile).1

/-- The calls that print a scan for a query, with one on a waypoint of the wrong kind. -/
def printing (name : String) : List Call :=
  [.register (.scanner "scan" [name]), .register (.print "scan" name ["a"] none),
    .register (.print "out" name ["a"] none)]

/-- The calls for one query and then those for another. -/
def oneByOne : List (QueryId × Call) :=
  (printing "q").map (⟨0⟩, ·) ++ (printing "r").map (⟨1⟩, ·)

/-- The calls for two queries by turns. -/
def byTurns : List (QueryId × Call) :=
  (List.zipWith (fun c d => [(⟨1⟩, c), (⟨0⟩, d)]) (printing "r") (printing "q")).flatten

/-- A scan and a print that two queries share, registered for one after the other and by turns. -/
theorem registrations_commute_scan :
    ∃ p s t, p = (Planner.new .standard (.ofNames ["a"])).runAll
        (.addQuery "q" :: .addQuery "r" :: scanAndPrint.take 3) ∧
      (replies oneByOne p).filter (·.1 = ⟨1⟩) = (replies byTurns p).filter (·.1 = ⟨1⟩) ∧
      ((p.runAll (oneByOne.map (·.2))).perform .compile).1.published? = some s ∧
      ((p.runAll (byTurns.map (·.2))).perform .compile).1.published? = some t ∧
      s.routing = t.routing ∧ s.configs = t.configs ∧ s.queries = t.queries := by
  obtain ⟨p, hp⟩ : ∃ p, p = (Planner.new .standard (.ofNames ["a"])).runAll
    (.addQuery "q" :: .addQuery "r" :: scanAndPrint.take 3) := ⟨_, rfl⟩
  have hreachable : p.workspace.graph.Reachable := by
    have hfresh : (Planner.new .standard (.ofNames ["a"])).Fresh := .new _ _
    exact hp ▸ (hfresh.alike.runAll (.refl _)).workspace.graph.left
  have hnames : p.workspace.queries.lookup "q" = some ⟨0⟩ ∧
      p.workspace.queries.lookup "r" = some ⟨1⟩ := by
    rw [hp]
    decide +kernel
  have hpublished : ((p.runAll (oneByOne.map (·.2))).perform .compile).1.published?.isSome = true ∧
      ((p.runAll (byTurns.map (·.2))).perform .compile).1.published?.isSome = true := by
    rw [hp]
    decide +kernel
  obtain ⟨calls, hcalls⟩ : ∃ calls : QueryId → List Call, calls = fun q =>
    if q = ⟨0⟩ then printing "q" else if q = ⟨1⟩ then printing "r" else [] := ⟨_, rfl⟩
  have hregisters : ∀ q, ∀ c ∈ calls q, c.Registers p.workspace.queries q := by
    have hprinting {name : String} {q : QueryId} (h : p.workspace.queries.lookup name = some q) :
        ∀ c ∈ printing name, c.Registers p.workspace.queries q := by
      have hname : ∀ n ∈ [name], ∀ u, p.workspace.queries.lookup n = some u → u = q := by
        simp [h]
      simp only [printing, List.forall_mem_cons]
      refine ⟨.register hname, .register hname, .register hname, ?_⟩
      exact fun _ h => absurd h List.not_mem_nil
    intro q
    rw [hcalls]
    dsimp only
    split
    · rename_i hq
      exact hq ▸ hprinting hnames.1
    split
    · rename_i hq
      exact hq ▸ hprinting hnames.2
    · simp
  have hinterleaves : Interleaves calls oneByOne ∧ Interleaves calls byTurns := by
    rw [hcalls]
    constructor <;> intro q <;> dsimp only
    all_goals
      split
      · rename_i hq
        subst hq
        rfl
      rename_i hq
      split
      · rename_i hr
        subst hr
        rfl
      · rename_i hr
        simp [oneByOne, byTurns, printing, Ne.symm hq, Ne.symm hr]
  obtain ⟨s, hs⟩ := Option.isSome_iff_exists.1 hpublished.1
  obtain ⟨t, ht⟩ := Option.isSome_iff_exists.1 hpublished.2
  obtain ⟨hreplies, hcompiled⟩ :=
    registrations_commute hreachable hregisters hinterleaves.1 hinterleaves.2
  exact ⟨p, s, t, hp, hreplies ⟨1⟩, hs, ht, hcompiled.of_published? hs ht⟩

end Planner

end SharedPlan
