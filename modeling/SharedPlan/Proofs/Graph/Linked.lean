import SharedPlan.Proofs.Graph.Reachable

/-!
# SharedPlan.Proofs.Graph.Linked

The edges of a reachable graph.

Between two ends there is at most one edge, whether they are waypoints or sentinels, and
an edge that touches a sentinel is one of those that the graph places itself
(`PlanGraph.Linked`).  So the edges between the waypoints, with the kinds of these, say
which edges lead into a waypoint (`mem_inputs_iff`) and out of one to another
(`mem_outputs_filter`).
-/

namespace SharedPlan

/-- Two edges join the same ends. -/
def Edge.Parallel (e f : Edge) : Prop := e.sender = f.sender ∧ e.receiver = f.receiver

namespace PlanGraph

/-- What holds of the edges of every graph that can be built. -/
structure Linked (g : PlanGraph) : Prop where
  /-- No two edges join the same ends. -/
  apart : g.links.Pairwise fun e f => ¬e.Parallel f
  /-- The edges from the bottom sentinel are those of the sources. -/
  sender : ∀ e ∈ g.links, e.sender ∈ g.ids ∨ e.sender = .bottom ∧ e.kind = .flowThrough ∧
    ∃ w ∈ g.waypoints, w.id = e.receiver ∧ w.kind.isSource = true
  receiver : ∀ e ∈ g.links, e.receiver ∈ g.ids ∨ e.receiver = .top ∧ e.kind = .terminating

namespace Linked

variable {g h : PlanGraph}

theorem empty : Linked .empty := by
  constructor <;> simp [PlanGraph.empty]

/-- The ids and kinds of the waypoints are all that the edges depend on. -/
theorem congr (hg : g.Linked) (hlinks : h.links = g.links)
    (hkinds : h.waypoints.map (fun w => (w.id, w.kind)) =
      g.waypoints.map (fun w => (w.id, w.kind))) : h.Linked := by
  have hids : h.ids = g.ids := by
    have hfst := congrArg (List.map Prod.fst) hkinds
    rw [List.map_map, List.map_map] at hfst
    exact hfst
  refine ⟨hlinks ▸ hg.apart, fun e he => ?_, fun e he => ?_⟩
  · rw [hlinks] at he
    refine (hg.sender e he).imp (hids ▸ ·) (And.imp_right (And.imp_right ?_))
    rintro ⟨w, hw, hid, hs⟩
    have hmem : (w.id, w.kind) ∈ h.waypoints.map fun w => (w.id, w.kind) :=
      hkinds ▸ List.mem_map_of_mem hw
    obtain ⟨v, hv, he⟩ := List.mem_map.1 hmem
    obtain ⟨hid', hkind⟩ := Prod.mk.inj he
    exact ⟨v, hv, hid'.trans hid, hkind ▸ hs⟩
  · rw [hlinks] at he
    exact hids ▸ hg.receiver e he

/-- A change of every waypoint that keeps ids and kinds keeps the edges in order. -/
theorem mapWaypoints (hg : g.Linked) {f : Waypoint → Waypoint} (hid : ∀ w, (f w).id = w.id)
    (hkind : ∀ w, (f w).kind = w.kind) : (g.mapWaypoints f).Linked :=
  hg.congr rfl (by simp [PlanGraph.mapWaypoints, hid, hkind])

/-- An edge may be placed between ends that no edge joins. -/
theorem link (hg : g.Linked) {sender receiver : WaypointId} {kind : EdgeKind}
    (hs : sender ∈ g.ids) (hr : receiver ∈ g.ids ∨ receiver = .top ∧ kind = .terminating)
    (hnew : ∀ e ∈ g.links, ¬e.Parallel ⟨sender, receiver, kind⟩) :
    (g.link sender receiver kind).Linked := by
  refine ⟨?_, fun e he => ?_, fun e he => ?_⟩
  · refine List.pairwise_append.2 ⟨hg.apart, List.pairwise_singleton _ _, fun e he f hf => ?_⟩
    exact List.mem_singleton.1 hf ▸ hnew e he
  · rcases List.mem_append.1 he with he | he
    · exact hg.sender e he
    · exact .inl (List.mem_singleton.1 he ▸ hs)
  · rcases List.mem_append.1 he with he | he
    · exact hg.receiver e he
    · exact List.mem_singleton.1 he ▸ hr

/-- What comes with a new waypoint joins other ends than what is there. -/
theorem mem_sentinelLinks {w : Waypoint} {e : Edge} : e ∈ sentinelLinks w ↔
    (w.kind.isSource = true ∧ e = ⟨.bottom, w.id, .flowThrough⟩) ∨
      (w.kind.isSink = true ∧ e = ⟨w.id, .top, .terminating⟩) := by
  rw [sentinelLinks, List.mem_append]
  refine or_congr ?_ ?_ <;> split <;> simp_all

/-- No edge is at an id that is new. -/
theorem ends_ne (hg : g.Linked) {id : WaypointId} (hp : id.isSentinel = false) (hid : id ∉ g.ids)
    {e : Edge} (he : e ∈ g.links) : e.sender ≠ id ∧ e.receiver ≠ id := by
  obtain ⟨hbottom, htop⟩ : id ≠ .bottom ∧ id ≠ .top := by
    simpa [WaypointId.isSentinel] using hp
  constructor
  · rintro rfl
    exact (hg.sender e he).elim hid fun h => hbottom h.1
  · rintro rfl
    exact (hg.receiver e he).elim hid fun h => htop h.1

theorem addWaypoint (hg : g.Linked) {w : Waypoint} (ha : g.addWaypoint w = .ok h) :
    h.Linked := by
  obtain ⟨hp, hid, rfl⟩ := eq_of_addWaypoint ha
  have hbottom : w.id ≠ .bottom := fun h => by
    rw [h] at hp
    cases hp
  have hids := ids_append g w (g.links ++ sentinelLinks w)
  refine ⟨?_, fun e he => ?_, fun e he => ?_⟩
  · refine List.pairwise_append.2 ⟨hg.apart, ?_, fun e he f hf hef => ?_⟩
    · unfold sentinelLinks
      split <;> split <;> simp [Edge.Parallel, Ne.symm hbottom]
    · rcases mem_sentinelLinks.1 hf with ⟨-, rfl⟩ | ⟨-, rfl⟩
      · exact (hg.ends_ne hp hid he).2 hef.2
      · exact (hg.ends_ne hp hid he).1 hef.1
  · rw [hids]
    rcases List.mem_append.1 he with he | he
    · refine (hg.sender e he).imp (List.mem_append_left _) (And.imp_right (And.imp_right ?_))
      rintro ⟨v, hv, h⟩
      exact ⟨v, List.mem_append_left _ hv, h⟩
    · rcases mem_sentinelLinks.1 he with ⟨hs, rfl⟩ | ⟨-, rfl⟩
      · exact .inr ⟨rfl, rfl, w, by simp, rfl, hs⟩
      · exact .inl (by simp)
  · rw [hids]
    rcases List.mem_append.1 he with he | he
    · exact (hg.receiver e he).imp_left (List.mem_append_left _)
    · rcases mem_sentinelLinks.1 he with ⟨hs, rfl⟩ | ⟨-, rfl⟩
      · exact .inl (by simp)
      · exact .inr ⟨rfl, rfl⟩

theorem addEdge (hg : g.Linked) {sender receiver : WaypointId} {kind : EdgeKind}
    (ha : g.addEdge sender receiver kind = .ok h) : h.Linked := by
  unfold PlanGraph.addEdge at ha
  split at ha
  · cases ha
  split at ha
  · cases ha
  split at ha
  · cases ha
  rename_i hs hr
  simp only [Bool.not_eq_true, Bool.not_eq_false', contains_iff] at hs hr
  split at ha
  · split at ha
    · exact Except.ok.inj ha ▸ hg
    · cases ha
  · rename_i hnone
    obtain rfl := Except.ok.inj ha
    refine hg.link hs (.inl hr) fun e he hef => ?_
    have hout := mem_outputs.2 ⟨hs, he, hef.1⟩
    exact absurd hef.2 (by simpa using List.find?_eq_none.1 hnone e hout)

theorem setRoot (hg : g.Linked) {q : QueryId} {id : WaypointId}
    (ha : g.setRoot q id = .ok h) : h.Linked := by
  unfold PlanGraph.setRoot at ha
  split at ha
  · cases ha
  rename_i hid
  simp only [Bool.not_eq_true, Bool.not_eq_false', contains_iff] at hid
  obtain rfl := Except.ok.inj ha
  split
  · exact ⟨hg.apart, hg.sender, hg.receiver⟩
  · rename_i hnone
    have hlinked : (g.link id .top .terminating).Linked := by
      refine hg.link hid (.inr ⟨rfl, rfl⟩) fun e he hef => hnone ?_
      exact List.any_eq_true.2 ⟨e, mem_outputs.2 ⟨hid, he, hef.1⟩, decide_eq_true hef.2⟩
    exact ⟨hlinked.apart, hlinked.sender, hlinked.receiver⟩

end Linked

/-- **The edges of every reachable graph are in order.** -/
theorem Reachable.linked {g : PlanGraph} (h : g.Reachable) : g.Linked := by
  induction h with
  | empty => exact .empty
  | addWaypoint _ _ ha ih => exact ih.addWaypoint ha
  | addEdge _ ha ih => exact ih.addEdge ha
  | setRoot _ ha ih => exact ih.setRoot ha
  | deleteQuery q _ ih =>
      exact (ih.mapWaypoints (f := (·.deleteQuery q)) (fun _ => rfl)
        fun w => (Waypoint.Step.deleteQuery q).kind_eq).congr rfl rfl
  | clearQueries _ ih =>
      exact (ih.mapWaypoints (f := (·.clear)) (fun _ => rfl)
        fun w => Waypoint.Step.clear.kind_eq).congr rfl rfl
  | beginCycle _ ih =>
      exact ih.mapWaypoints (fun _ => rfl) fun w => Waypoint.Step.beginCycle.kind_eq
  | @change g v w hg hv hs ih =>
      refine ih.congr rfl ?_
      simp only [PlanGraph.replace, List.map_map]
      refine List.map_congr_left fun u hu => ?_
      by_cases hid : u.id = w.id
      · have huv := find?_of_mem hg.wellFormed.nodup hu
        rw [hid, hs.id_eq, hv] at huv
        obtain rfl := Option.some.inj huv
        simp [hs.id_eq, hs.kind_eq]
      · simp [hid]

/-! ## Looking edges up -/

section Lookup

variable {g : PlanGraph} (hg : g.WellFormed) (hl : g.Linked)

include hg hl

/-- Into a waypoint lead the edges from other waypoints and, into a source, the one from the
bottom sentinel. -/
theorem mem_inputs_iff {n : WaypointId} {e : Edge} : e ∈ g.inputs n ↔
    e.receiver = n ∧ (e ∈ g.edges ∨
      e = ⟨.bottom, n, .flowThrough⟩ ∧ ∃ w, g.find? n = some w ∧ w.kind.isSource = true) := by
  rw [mem_inputs]
  constructor
  · rintro ⟨hn, hlink, rfl⟩
    refine ⟨rfl, (hl.sender e hlink).imp (fun hs => ?_) ?_⟩
    · refine mem_edges.2 ⟨hs, hlink, ?_⟩
      simp [Edge.touchesSentinel, hg.proper _ hs, hg.proper _ hn]
    · obtain ⟨s, r, k⟩ := e
      rintro ⟨rfl, rfl, w, hw, rfl, hsource⟩
      exact ⟨rfl, w, find?_of_mem hg.nodup hw, hsource⟩
  · rintro ⟨rfl, he | ⟨he, w, hw, hsource⟩⟩
    · obtain ⟨-, hlink, hproper⟩ := mem_edges.1 he
      exact ⟨(hg.ends e hlink hproper).2, hlink, rfl⟩
    · have hlink := hg.sourced w (mem_of_find? hw) hsource
      rw [id_of_find? hw, ← he] at hlink
      exact ⟨mem_ids_iff.2 ⟨w, hw⟩, hlink, rfl⟩

omit hl in
/-- From one waypoint to another lead the edges between the two. -/
theorem mem_outputs_filter {m n : WaypointId} (hn : n.isSentinel = false) {e : Edge} :
    e ∈ (g.outputs m).filter (fun e => e.receiver = n) ↔
      e ∈ g.edges ∧ e.sender = m ∧ e.receiver = n := by
  rw [List.mem_filter, mem_outputs, mem_edges, decide_eq_true_eq]
  constructor
  · rintro ⟨⟨hm, hlink, rfl⟩, rfl⟩
    refine ⟨⟨hm, hlink, ?_⟩, rfl, rfl⟩
    simp [Edge.touchesSentinel, hg.proper _ hm, hn]
  · rintro ⟨⟨hm, hlink, -⟩, rfl, rfl⟩
    exact ⟨⟨hm, hlink, rfl⟩, rfl⟩

omit hg in
theorem pairwise_outputs (m : WaypointId) : (g.outputs m).Pairwise fun e f => ¬e.Parallel f := by
  unfold outputs
  split
  · exact hl.apart.filter _
  · exact .nil

omit hg in
theorem nodup_successors (m : WaypointId) : (g.successors m).Nodup := by
  refine List.Pairwise.imp ?_ ((pairwise_outputs hl m).filter _)
  rintro e _ h rfl
  exact h ⟨rfl, rfl⟩

/-- No edge is listed twice. -/
theorem nodup_edges : g.edges.Nodup := by
  refine List.nodup_flatMap.2
    ⟨fun m _ => nodup_successors hl m, hg.nodup.imp fun {m n} hmn e he he' => ?_⟩
  exact hmn ((mem_successors.1 he).2.2.1.symm.trans (mem_successors.1 he').2.2.1)

end Lookup

end PlanGraph

end SharedPlan
