import SharedPlan.Proofs.Graph.Lookup
import SharedPlan.Proofs.Waypoint.Step

/-!
# SharedPlan.Proofs.Graph.Reachable

The plan graphs that can be built, and what holds of all of them.

A graph is `Reachable` when it comes from the empty graph by adding waypoints and
edges, making roots, deleting queries, and by steps of its waypoints.  Every
reachable graph is `WellFormed`: ids are distinct, edges have ends, and every source
has its edge from the bottom sentinel.
-/

namespace SharedPlan

namespace PlanGraph

/-- The graphs that the operations lead to. -/
inductive Reachable : PlanGraph → Prop
  | empty : Reachable .empty
  | addWaypoint {g h : PlanGraph} {w : Waypoint} :
      Reachable g → w.Made → g.addWaypoint w = .ok h → Reachable h
  | addEdge {g h : PlanGraph} {sender receiver : WaypointId} {kind : EdgeKind} :
      Reachable g → g.addEdge sender receiver kind = .ok h → Reachable h
  | setRoot {g h : PlanGraph} {q : QueryId} {id : WaypointId} :
      Reachable g → g.setRoot q id = .ok h → Reachable h
  | deleteQuery {g : PlanGraph} (q : QueryId) : Reachable g → Reachable (g.deleteQuery q)
  | clearQueries {g : PlanGraph} : Reachable g → Reachable g.clearQueries
  | beginCycle {g : PlanGraph} : Reachable g → Reachable g.beginCycle
  | change {g : PlanGraph} {v w : Waypoint} :
      Reachable g → g.find? v.id = some v → v.Step w → Reachable (g.replace w)

/-! ## What the operations do -/

/-- The edges from and to sentinels that a waypoint comes with. -/
def sentinelLinks (w : Waypoint) : List Edge :=
  (if w.kind.isSource then [⟨.bottom, w.id, .flowThrough⟩] else []) ++
    if w.kind.isSink then [⟨w.id, .top, .terminating⟩] else []

theorem eq_of_addWaypoint {g h : PlanGraph} {w : Waypoint} (ha : g.addWaypoint w = .ok h) :
    w.id.isSentinel = false ∧ w.id ∉ g.ids ∧
      h = ⟨g.waypoints ++ [w], g.links ++ sentinelLinks w, g.roots⟩ := by
  unfold addWaypoint at ha
  split at ha
  · cases ha
  split at ha
  · cases ha
  rename_i hp hid
  obtain rfl := Except.ok.inj ha
  refine ⟨Bool.not_eq_true _ ▸ hp, fun hmem => hid (contains_iff.2 hmem), ?_⟩
  cases hs : w.kind.isSource <;> cases hk : w.kind.isSink <;>
    simp [sentinelLinks, link, hs, hk]

theorem ids_append (g : PlanGraph) (w : Waypoint) (links : List Edge) :
    ids ⟨g.waypoints ++ [w], links, g.roots⟩ = g.ids ++ [w.id] := by
  simp [ids]

/-- A new id keeps the ids distinct. -/
theorem nodup_ids_append {g : PlanGraph} (hg : g.ids.Nodup) {id : WaypointId} (hid : id ∉ g.ids) :
    (g.ids ++ [id]).Nodup := by
  rw [List.nodup_append]
  refine ⟨hg, List.nodup_singleton _, ?_⟩
  rintro a ha b hb rfl
  exact hid (List.mem_singleton.1 hb ▸ ha)

theorem eq_of_addEdge {g h : PlanGraph} {sender receiver : WaypointId} {kind : EdgeKind}
    (ha : g.addEdge sender receiver kind = .ok h) :
    sender ∈ g.ids ∧ receiver ∈ g.ids ∧ (h = g ∨ h = g.link sender receiver kind) := by
  unfold addEdge at ha
  split at ha
  · cases ha
  split at ha
  · cases ha
  split at ha
  · cases ha
  rename_i hs hr
  simp only [Bool.not_eq_true, Bool.not_eq_false', contains_iff] at hs hr
  refine ⟨hs, hr, ?_⟩
  split at ha
  · split at ha
    · exact .inl (Except.ok.inj ha).symm
    · cases ha
  · exact .inr (Except.ok.inj ha).symm

theorem eq_of_setRoot {g h : PlanGraph} {q : QueryId} {id : WaypointId}
    (ha : g.setRoot q id = .ok h) :
    h = { g with roots := g.roots.insert q id } ∨
      h = { g.link id .top .terminating with roots := g.roots.insert q id } := by
  unfold setRoot at ha
  split at ha
  · cases ha
  obtain rfl := Except.ok.inj ha
  dsimp only
  split
  · exact .inl rfl
  · exact .inr rfl

/-! ## Well-formed graphs -/

/-- What holds of every graph that can be built. -/
structure WellFormed (g : PlanGraph) : Prop where
  /-- No two waypoints have the same id. -/
  nodup : g.ids.Nodup
  /-- No waypoint has the id of a sentinel. -/
  proper : ∀ id ∈ g.ids, id.isSentinel = false
  /-- An edge between waypoints has both ends in the graph. -/
  ends : ∀ e ∈ g.links, e.touchesSentinel = false → e.sender ∈ g.ids ∧ e.receiver ∈ g.ids
  /-- A source has an edge from the bottom sentinel. -/
  sourced : ∀ w ∈ g.waypoints, w.kind.isSource = true → ⟨.bottom, w.id, .flowThrough⟩ ∈ g.links
  /-- Every waypoint is sound. -/
  sound : ∀ w ∈ g.waypoints, w.Sound

namespace WellFormed

theorem empty : WellFormed .empty := by
  constructor <;> simp [PlanGraph.empty, ids]

/-- A change of every waypoint that keeps ids, kinds and soundness keeps a graph well-formed. -/
theorem mapWaypoints_of_sound {g : PlanGraph} (hg : g.WellFormed) {f : Waypoint → Waypoint}
    (hid : ∀ w, (f w).id = w.id) (hkind : ∀ w, (f w).kind = w.kind)
    (hsound : ∀ w, w.Sound → (f w).Sound) : (g.mapWaypoints f).WellFormed := by
  have hids : (g.mapWaypoints f).ids = g.ids := ids_mapWaypoints hid g
  refine ⟨hids ▸ hg.nodup, hids ▸ hg.proper, hids ▸ hg.ends, ?_, ?_⟩
  · intro v hv hs
    obtain ⟨w, hw, rfl⟩ := List.mem_map.1 hv
    rw [hkind] at hs
    rw [hid]
    exact hg.sourced w hw hs
  · intro v hv
    obtain ⟨w, hw, rfl⟩ := List.mem_map.1 hv
    exact hsound w (hg.sound w hw)

/-- A step on every waypoint keeps a graph well-formed. -/
theorem mapWaypoints {g : PlanGraph} (hg : g.WellFormed) {f : Waypoint → Waypoint}
    (hf : ∀ w : Waypoint, w.Step (f w)) : (g.mapWaypoints f).WellFormed :=
  hg.mapWaypoints_of_sound (fun w => (hf w).id_eq) (fun w => (hf w).kind_eq) fun w => (hf w).sound

/-- A step of one waypoint keeps a graph well-formed. -/
theorem replace {g : PlanGraph} (hg : g.WellFormed) {v w : Waypoint}
    (hv : g.find? v.id = some v) (hs : v.Step w) : (g.replace w).WellFormed := by
  have key {u : Waypoint} (hu : u ∈ (g.replace w).waypoints) : u ∈ g.waypoints ∨ u = w := by
    obtain ⟨u', hu', rfl⟩ := List.mem_map.1 hu
    split
    · exact .inr rfl
    · exact .inl hu'
  refine ⟨?_, ?_, ?_, ?_, ?_⟩
  · rw [ids_replace]
    exact hg.nodup
  · rw [ids_replace]
    exact hg.proper
  · rw [ids_replace]
    exact hg.ends
  · intro u hu hsource
    rcases key hu with hu | rfl
    · exact hg.sourced u hu hsource
    · rw [hs.kind_eq] at hsource
      rw [hs.id_eq]
      exact hg.sourced v (mem_of_find? hv) hsource
  · intro u hu
    rcases key hu with hu | rfl
    · exact hg.sound u hu
    · exact hs.sound (hg.sound v (mem_of_find? hv))

/-- An edge whose ends are in the graph may be placed, as may any edge from or to a
sentinel. -/
theorem link {g : PlanGraph} (hg : g.WellFormed) {sender receiver : WaypointId} {kind : EdgeKind}
    (he : Edge.touchesSentinel ⟨sender, receiver, kind⟩ = false →
      sender ∈ g.ids ∧ receiver ∈ g.ids) : (g.link sender receiver kind).WellFormed := by
  refine ⟨hg.nodup, hg.proper, ?_, ?_, hg.sound⟩
  · intro e hmem ht
    rcases List.mem_append.1 hmem with hmem | hmem
    · exact hg.ends e hmem ht
    · obtain rfl := List.mem_singleton.1 hmem
      exact he ht
  · intro w hw hs
    exact List.mem_append_left _ (hg.sourced w hw hs)

/-- A new waypoint may be added together with edges from or to a sentinel, if it
gets the edge that it needs as a source. -/
theorem append {g : PlanGraph} (hg : g.WellFormed) {w : Waypoint} (hw : w.Made)
    (hid : w.id ∉ g.ids) (hp : w.id.isSentinel = false) {links : List Edge}
    (hold : ∀ e ∈ g.links, e ∈ links)
    (hnew : ∀ e ∈ links, e.touchesSentinel = false → e ∈ g.links)
    (hs : w.kind.isSource = true → ⟨.bottom, w.id, .flowThrough⟩ ∈ links) :
    WellFormed ⟨g.waypoints ++ [w], links, g.roots⟩ := by
  have hids := ids_append g w links
  refine ⟨?_, ?_, ?_, ?_, ?_⟩
  · rw [hids]
    exact nodup_ids_append hg.nodup hid
  · intro id h
    rw [hids] at h
    rcases List.mem_append.1 h with h | h
    · exact hg.proper id h
    · exact List.mem_singleton.1 h ▸ hp
  · intro e he ht
    rw [hids]
    have := hg.ends e (hnew e he ht) ht
    exact ⟨List.mem_append_left _ this.1, List.mem_append_left _ this.2⟩
  · intro v hv hvs
    rcases List.mem_append.1 hv with hv | hv
    · exact hold _ (hg.sourced v hv hvs)
    · obtain rfl := List.mem_singleton.1 hv
      exact hs hvs
  · intro v hv
    rcases List.mem_append.1 hv with hv | hv
    · exact hg.sound v hv
    · obtain rfl := List.mem_singleton.1 hv
      exact hw.sound

theorem addWaypoint {g h : PlanGraph} (hg : g.WellFormed) {w : Waypoint} (hw : w.Made)
    (ha : g.addWaypoint w = .ok h) : h.WellFormed := by
  obtain ⟨hp, hid, rfl⟩ := eq_of_addWaypoint ha
  refine hg.append hw hid hp (fun e he => List.mem_append_left _ he) (fun e he ht => ?_)
    fun hs => ?_
  · refine (List.mem_append.1 he).resolve_right fun he => ?_
    unfold sentinelLinks at he
    rcases List.mem_append.1 he with he | he <;>
      split at he <;> simp_all [Edge.touchesSentinel, WaypointId.isSentinel]
  · simp [sentinelLinks, hs]

theorem addEdge {g h : PlanGraph} (hg : g.WellFormed) {sender receiver : WaypointId}
    {kind : EdgeKind} (ha : g.addEdge sender receiver kind = .ok h) : h.WellFormed := by
  obtain ⟨hs, hr, rfl | rfl⟩ := eq_of_addEdge ha
  · exact hg
  · exact hg.link fun _ => ⟨hs, hr⟩

theorem setRoot {g h : PlanGraph} (hg : g.WellFormed) {q : QueryId} {id : WaypointId}
    (ha : g.setRoot q id = .ok h) : h.WellFormed := by
  have hlinked : (g.link id .top .terminating).WellFormed := by
    refine hg.link fun ht => ?_
    simp [Edge.touchesSentinel, WaypointId.isSentinel] at ht
  rcases eq_of_setRoot ha with rfl | rfl
  · exact ⟨hg.nodup, hg.proper, hg.ends, hg.sourced, hg.sound⟩
  · exact ⟨hlinked.nodup, hlinked.proper, hlinked.ends, hlinked.sourced, hlinked.sound⟩

/-- A graph that looks like a well-formed one is well-formed, where the view shows
ids and kinds and whether a waypoint is sound. -/
theorem of_view {g h : PlanGraph} (hg : g.WellFormed) {f : Waypoint → Waypoint}
    (hid : ∀ w, (f w).id = w.id) (hkind : ∀ w, (f w).kind = w.kind)
    (hsound : ∀ w, (f w).Sound ↔ w.Sound) (hv : g.mapWaypoints f = h.mapWaypoints f) :
    h.WellFormed := by
  have hids := ids_eq_of_view hid hv
  have hlinks := links_eq_of_view hv
  have key {v : Waypoint} (h' : v ∈ h.waypoints) : ∃ w ∈ g.waypoints, f w = f v := by
    have hmem : f v ∈ (h.mapWaypoints f).waypoints := List.mem_map.2 ⟨v, h', rfl⟩
    rw [← hv] at hmem
    exact List.mem_map.1 hmem
  refine ⟨hids ▸ hg.nodup, hids ▸ hg.proper, hlinks ▸ hids ▸ hg.ends, ?_, ?_⟩
  · intro v hmem hs
    obtain ⟨w, hw, he⟩ := key hmem
    rw [← hkind v, ← he, hkind w] at hs
    rw [← hid v, ← he, hid w, ← hlinks]
    exact hg.sourced w hw hs
  · intro v hmem
    obtain ⟨w, hw, he⟩ := key hmem
    rw [← hsound v, ← he, hsound w]
    exact hg.sound w hw

end WellFormed

/-- **Every reachable graph is well-formed.** -/
theorem Reachable.wellFormed {g : PlanGraph} (h : g.Reachable) : g.WellFormed := by
  induction h with
  | empty => exact .empty
  | addWaypoint _ hw ha ih => exact ih.addWaypoint hw ha
  | addEdge _ ha ih => exact ih.addEdge ha
  | setRoot _ ha ih => exact ih.setRoot ha
  | deleteQuery q _ ih =>
      obtain ⟨h1, h2, h3, h4, h5⟩ := ih.mapWaypoints fun w => .deleteQuery q
      exact ⟨h1, h2, h3, h4, h5⟩
  | clearQueries _ ih =>
      obtain ⟨h1, h2, h3, h4, h5⟩ := ih.mapWaypoints fun w => .clear
      exact ⟨h1, h2, h3, h4, h5⟩
  | beginCycle _ ih => exact ih.mapWaypoints fun w => .beginCycle
  | change _ hv hs ih => exact ih.replace hv hs

/-- Every waypoint of a reachable graph is made. -/
theorem Reachable.made {g : PlanGraph} (h : g.Reachable) : ∀ w ∈ g.waypoints, w.Made := by
  have mapped {g : PlanGraph} {f : Waypoint → Waypoint} (hf : ∀ w : Waypoint, w.Step (f w))
      (ih : ∀ w ∈ g.waypoints, w.Made) : ∀ v ∈ (g.mapWaypoints f).waypoints, v.Made := by
    intro v hv
    obtain ⟨w, hw, rfl⟩ := List.mem_map.1 hv
    exact .step (ih w hw) (hf w)
  induction h with
  | empty => exact fun w hw => absurd hw List.not_mem_nil
  | addWaypoint _ hmade ha ih =>
      obtain ⟨-, -, rfl⟩ := eq_of_addWaypoint ha
      intro v hv
      rcases List.mem_append.1 hv with hv | hv
      · exact ih v hv
      · exact List.mem_singleton.1 hv ▸ hmade
  | addEdge _ ha ih => obtain ⟨-, -, rfl | rfl⟩ := eq_of_addEdge ha <;> exact ih
  | setRoot _ ha ih => obtain rfl | rfl := eq_of_setRoot ha <;> exact ih
  | deleteQuery q _ ih => exact mapped (fun w => .deleteQuery q) ih
  | clearQueries _ ih => exact mapped (fun w => .clear) ih
  | beginCycle _ ih => exact mapped (fun w => .beginCycle) ih
  | change _ hv hs ih =>
      intro u hu
      obtain ⟨u', hu', rfl⟩ := List.mem_map.1 hu
      split
      · exact .step (ih _ (mem_of_find? hv)) hs
      · exact ih u' hu'

/-! ## A scan, a selection and a sink in a line -/

/-- Register a query for a duty on a waypoint of the graph. -/
def enrolAt (g : PlanGraph) (id : WaypointId) (q : QueryId) (d : Duty) : PlanGraph :=
  match g.find? id with
  | some w => g.replace (w.enrol q d)
  | none => g

/-- Make a waypoint of the graph the root of a query. -/
def rootAt (g : PlanGraph) (id : WaypointId) (q : QueryId) : PlanGraph :=
  match g.setRoot q id with
  | .ok h => h
  | .error _ => g

theorem Reachable.enrolAt {g : PlanGraph} (h : g.Reachable) (id : WaypointId) (q : QueryId)
    (d : Duty) : (g.enrolAt id q d).Reachable := by
  unfold PlanGraph.enrolAt
  split
  · rename_i w hw
    exact h.change (id_of_find? hw ▸ hw) (.enrol q d)
  · exact h

theorem Reachable.rootAt {g : PlanGraph} (h : g.Reachable) (id : WaypointId) (q : QueryId) :
    (g.rootAt id q).Reachable := by
  unfold PlanGraph.rootAt
  split
  · rename_i ha
    exact h.setRoot ha
  · exact h

/-- A scan of one column, a selection above it and a print above that, without queries. -/
def line : PlanGraph where
  waypoints :=
    [.fresh ⟨2⟩ "scan" (.scanner "t" (.singleton ⟨0⟩) ∅), .fresh ⟨3⟩ "pick" (.selection ∅),
      .fresh ⟨4⟩ "out" (.print ∅)]
  links :=
    [⟨.bottom, ⟨2⟩, .flowThrough⟩, ⟨⟨4⟩, .top, .terminating⟩, ⟨⟨2⟩, ⟨3⟩, .flowThrough⟩,
      ⟨⟨3⟩, ⟨4⟩, .flowThrough⟩]
  roots := ∅

theorem line_reachable : line.Reachable := by
  have scan : Waypoint.Made (.fresh ⟨2⟩ "scan" (.scanner "t" (.singleton ⟨0⟩) ∅)) :=
    .fresh _ _ rfl
  have pick : Waypoint.Made (.fresh ⟨3⟩ "pick" (.selection ∅)) := .fresh _ _ rfl
  have out : Waypoint.Made (.fresh ⟨4⟩ "out" (.print ∅)) := .fresh _ _ rfl
  have h₁ : Reachable ⟨line.waypoints.take 1, line.links.take 1, ∅⟩ := .addWaypoint .empty scan rfl
  have h₂ : Reachable ⟨line.waypoints.take 2, line.links.take 1, ∅⟩ := .addWaypoint h₁ pick rfl
  have h₃ : Reachable ⟨line.waypoints, line.links.take 2, ∅⟩ := .addWaypoint h₂ out rfl
  have e₁ : addEdge ⟨line.waypoints, line.links.take 2, ∅⟩ ⟨2⟩ ⟨3⟩ .flowThrough =
      .ok ⟨line.waypoints, line.links.take 3, ∅⟩ := rfl
  have e₂ : addEdge ⟨line.waypoints, line.links.take 3, ∅⟩ ⟨3⟩ ⟨4⟩ .flowThrough = .ok line := rfl
  exact .addEdge (.addEdge h₃ e₁) e₂

/-- Have a query read the column, take on a duty at the selection and print the column. -/
def along (g : PlanGraph) (q : QueryId) (d : Duty) : PlanGraph :=
  (((g.enrolAt ⟨2⟩ q .scan).enrolAt ⟨3⟩ q d).enrolAt ⟨4⟩ q (.print (.singleton ⟨0⟩) none)).rootAt
    ⟨4⟩ q

theorem Reachable.along {g : PlanGraph} (h : g.Reachable) (q : QueryId) (d : Duty) :
    (g.along q d).Reachable :=
  (((h.enrolAt ..).enrolAt ..).enrolAt ..).rootAt ..

end PlanGraph

end SharedPlan
