import SharedPlan.Attempt
import SharedPlan.Proofs.Graph.Linked

/-!
# SharedPlan.Proofs.Graph.Arena

Plan graphs laid out for looking up.

A `PlanGraph` has one list of edges and searches it.  An `Arena` keeps at every waypoint the
edges into it and out of it, and for every id the position of its waypoint, so an edge is
written at both of its ends and a waypoint both into the list and into the index.  Calls change
one after another in place.  What an arena holds is a graph (`Arena.Holds`), and every call
carries out on the arena what it carries out on the graph, so that an arena is `Consistent`
whenever the edges of the graph are in order (`PlanGraph.Wired`).
-/

namespace SharedPlan

namespace PlanGraph

/-! ## Graphs in order -/

/-- What holds of every graph that calls lead to, whatever the waypoints keep. -/
structure Wired (g : PlanGraph) : Prop where
  nodup : g.ids.Nodup
  proper : ∀ id ∈ g.ids, id.isSentinel = false
  linked : g.Linked
  /-- A source has an edge from the bottom sentinel. -/
  sourced : ∀ w ∈ g.waypoints, w.kind.isSource = true → ⟨.bottom, w.id, .flowThrough⟩ ∈ g.links
  /-- A sink has an edge to the top sentinel. -/
  drained : ∀ w ∈ g.waypoints, w.kind.isSink = true → ⟨w.id, .top, .terminating⟩ ∈ g.links
  /-- So has a root. -/
  rooted : ∀ q id, g.root? q = some id → id ∈ g.ids ∧ ⟨id, .top, .terminating⟩ ∈ g.links

namespace Wired

variable {g h : PlanGraph}

theorem empty : Wired .empty where
  nodup := List.nodup_nil
  proper _ h := absurd h List.not_mem_nil
  linked := .empty
  sourced _ h := absurd h List.not_mem_nil
  drained _ h := absurd h List.not_mem_nil
  rooted _ _ h := by cases h

/-- Placing an edge takes nothing away. -/
theorem link (hg : g.Wired) {sender receiver : WaypointId} {kind : EdgeKind}
    (hl : (g.link sender receiver kind).Linked) : (g.link sender receiver kind).Wired :=
  ⟨hg.nodup, hg.proper, hl, fun w hw hs => List.mem_append_left _ (hg.sourced w hw hs),
    fun w hw hs => List.mem_append_left _ (hg.drained w hw hs),
    fun q id hq => (hg.rooted q id hq).imp_right (List.mem_append_left _)⟩

theorem addWaypoint (hg : g.Wired) {w : Waypoint} (ha : g.addWaypoint w = .ok h) : h.Wired := by
  have hlinked := hg.linked.addWaypoint ha
  obtain ⟨hp, hid, rfl⟩ := eq_of_addWaypoint ha
  have hids := ids_append g w (g.links ++ sentinelLinks w)
  refine ⟨?_, ?_, hlinked, fun v hv hs => ?_, fun v hv hs => ?_, fun q id hq => ?_⟩
  · rw [hids]
    exact nodup_ids_append hg.nodup hid
  · rw [hids, List.forall_mem_append]
    exact ⟨hg.proper, fun id hmem => List.mem_singleton.1 hmem ▸ hp⟩
  · rcases List.mem_append.1 hv with hv | hv
    · exact List.mem_append_left _ (hg.sourced v hv hs)
    · obtain rfl := List.mem_singleton.1 hv
      exact List.mem_append_right _ (Linked.mem_sentinelLinks.2 (.inl ⟨hs, rfl⟩))
  · rcases List.mem_append.1 hv with hv | hv
    · exact List.mem_append_left _ (hg.drained v hv hs)
    · obtain rfl := List.mem_singleton.1 hv
      exact List.mem_append_right _ (Linked.mem_sentinelLinks.2 (.inr ⟨hs, rfl⟩))
  · rw [hids]
    exact (hg.rooted q id hq).imp (List.mem_append_left _) (List.mem_append_left _)

theorem addEdge (hg : g.Wired) {sender receiver : WaypointId} {kind : EdgeKind}
    (ha : g.addEdge sender receiver kind = .ok h) : h.Wired := by
  have hlinked := hg.linked.addEdge ha
  obtain ⟨-, -, rfl | rfl⟩ := eq_of_addEdge ha
  · exact hg
  · exact hg.link hlinked

/-- The edges to the top sentinel all terminate there. -/
theorem eq_of_receiver_top (hg : g.Wired) {e : Edge} (he : e ∈ g.links)
    (htop : e.receiver = .top) : e = ⟨e.sender, .top, .terminating⟩ := by
  obtain ⟨s, r, k⟩ := e
  obtain rfl : r = .top := htop
  rcases hg.linked.receiver _ he with hmem | ⟨-, hkind⟩
  · exact absurd (hg.proper .top hmem) (by decide)
  · exact congrArg (Edge.mk s .top) hkind

theorem setRoot (hg : g.Wired) {q : QueryId} {id : WaypointId} (ha : g.setRoot q id = .ok h) :
    h.Wired := by
  have hlinked := hg.linked.setRoot ha
  unfold PlanGraph.setRoot at ha
  split at ha
  · cases ha
  rename_i hid
  simp only [Bool.not_eq_true, Bool.not_eq_false', contains_iff] at hid
  -- with or without a new edge, the root has one to the top sentinel
  have hroot {f : PlanGraph} (hf : f.Wired) (hids : f.ids = g.ids) (hroots : f.roots = g.roots)
      (hmem : ⟨id, .top, .terminating⟩ ∈ f.links)
      (hl : Linked { f with roots := f.roots.insert q id }) :
      Wired { f with roots := f.roots.insert q id } := by
    refine ⟨hf.nodup, hf.proper, hl, hf.sourced, hf.drained, fun p root hp => ?_⟩
    rw [root?, OrdMap.get?_insert] at hp
    split at hp
    · obtain rfl := Option.some.inj hp
      exact ⟨(hids ▸ hid : id ∈ f.ids), hmem⟩
    · exact hf.rooted p root hp
  obtain rfl := Except.ok.inj ha
  split
  · rename_i hany
    obtain ⟨e, he, htop⟩ := List.any_eq_true.1 hany
    obtain ⟨-, hmem, rfl⟩ := mem_outputs.1 he
    rw [if_pos hany] at hlinked
    exact hroot hg rfl rfl (hg.eq_of_receiver_top hmem (of_decide_eq_true htop) ▸ hmem) hlinked
  · rename_i hnone
    rw [if_neg hnone] at hlinked
    refine hroot (hg.link ⟨hlinked.apart, hlinked.sender, hlinked.receiver⟩) rfl rfl ?_ hlinked
    exact List.mem_append_right _ (List.mem_singleton_self _)

/-- A change of every waypoint that keeps ids and kinds keeps a graph in order, with fewer
roots or as many. -/
theorem mapWaypoints (hg : g.Wired) {f : Waypoint → Waypoint} (hid : ∀ w, (f w).id = w.id)
    (hkind : ∀ w, (f w).kind = w.kind) {roots : OrdMap QueryId WaypointId}
    (hroots : ∀ q id, roots.get? q = some id → g.roots.get? q = some id) :
    Wired { g.mapWaypoints f with roots } := by
  have hids : ids { g.mapWaypoints f with roots } = g.ids := ids_mapWaypoints hid g
  have hl := hg.linked.mapWaypoints hid hkind
  refine ⟨hids ▸ hg.nodup, hids ▸ hg.proper, ⟨hl.apart, hl.sender, hl.receiver⟩, fun v hv hs => ?_,
    fun v hv hs => ?_, fun q id hq => hids ▸ hg.rooted q id (hroots q id hq)⟩
  · obtain ⟨w, hw, rfl⟩ := List.mem_map.1 hv
    exact hid w ▸ hg.sourced w hw (hkind w ▸ hs)
  · obtain ⟨w, hw, rfl⟩ := List.mem_map.1 hv
    exact hid w ▸ hg.drained w hw (hkind w ▸ hs)

end Wired

end PlanGraph

/-! ## Calls -/

/-- A call that changes a graph. -/
inductive GraphCall where
  | addWaypoint (w : Waypoint)
  | addEdge (sender receiver : WaypointId) (kind : EdgeKind)
  | setRoot (q : QueryId) (id : WaypointId)
  | deleteQuery (q : QueryId)
  | clearQueries

namespace PlanGraph

/-- The graph that a call answers, if it succeeds. -/
def answer (g : PlanGraph) : GraphCall → Except PlanError PlanGraph
  | .addWaypoint w => g.addWaypoint w
  | .addEdge sender receiver kind => g.addEdge sender receiver kind
  | .setRoot q id => g.setRoot q id
  | .deleteQuery q => .ok (g.deleteQuery q)
  | .clearQueries => .ok g.clearQueries

/-- The graph after a call; one that fails changes nothing. -/
def perform (g : PlanGraph) (c : GraphCall) : PlanGraph :=
  match g.answer c with
  | .ok h => h
  | .error _ => g

/-- The graph after a sequence of calls. -/
def after (calls : List GraphCall) : PlanGraph := calls.foldl perform .empty

/-- Every call that succeeds leaves the graph wired. -/
theorem Wired.answer {g h : PlanGraph} (hg : g.Wired) {c : GraphCall} (ha : g.answer c = .ok h) :
    h.Wired := by
  cases c with
  | addWaypoint w => exact hg.addWaypoint ha
  | addEdge sender receiver kind => exact hg.addEdge ha
  | setRoot q id => exact hg.setRoot ha
  | deleteQuery q =>
      obtain rfl := Except.ok.inj ha
      refine hg.mapWaypoints (f := (·.deleteQuery q)) (fun _ => rfl)
        (fun w => (Waypoint.Step.deleteQuery q).kind_eq) ?_
      intro p id hp
      rw [OrdMap.get?_erase] at hp
      split at hp
      · cases hp
      · exact hp
  | clearQueries =>
      obtain rfl := Except.ok.inj ha
      refine hg.mapWaypoints (f := (·.clear)) (fun _ => rfl)
        (fun w => Waypoint.Step.clear.kind_eq) ?_
      intro p id hp
      cases hp

end PlanGraph

/-! ## Arenas -/

/-- A waypoint with the edges at it. -/
structure NodeSlot where
  waypoint : Waypoint
  /-- The edges into it, the one from the bottom sentinel included. -/
  inputs : List Edge
  /-- The edges out of it, the one to the top sentinel included. -/
  outputs : List Edge

/-- Write an edge into the waypoint down. -/
def NodeSlot.receive (s : NodeSlot) (e : Edge) : NodeSlot := { s with inputs := s.inputs ++ [e] }

/-- Write an edge out of the waypoint down. -/
def NodeSlot.send (s : NodeSlot) (e : Edge) : NodeSlot := { s with outputs := s.outputs ++ [e] }

/-- Waypoints in the order they were added, each with the edges at it. -/
structure Arena where
  slots : List NodeSlot
  /-- The position of the waypoint with each id. -/
  index : OrdMap WaypointId Nat
  roots : OrdMap QueryId WaypointId

namespace Arena

/-- The arena without waypoints. -/
def empty : Arena := ⟨[], ∅, ∅⟩

/-- What is stored at an id. -/
def slot? (a : Arena) (id : WaypointId) : Option NodeSlot := (a.index.get? id).bind (a.slots[·]?)

/-- The edges into a waypoint. -/
def inputs (a : Arena) (id : WaypointId) : List Edge := ((a.slot? id).map (·.inputs)).getD []

/-- The edges out of a waypoint. -/
def outputs (a : Arena) (id : WaypointId) : List Edge := ((a.slot? id).map (·.outputs)).getD []

/-- Change what is stored at an id. -/
def change (a : Arena) (id : WaypointId) (f : NodeSlot → NodeSlot) : Arena :=
  match a.index.get? id with
  | some i => { a with slots := a.slots.modify i f }
  | none => a

/-- Change every waypoint. -/
def mapWaypoints (a : Arena) (f : Waypoint → Waypoint) : Arena :=
  { a with slots := a.slots.map fun s => { s with waypoint := f s.waypoint } }

/-- Write an edge down at both of its ends. -/
def link (sender receiver : WaypointId) (kind : EdgeKind) : Attempt Arena Unit := do
  modify (·.change sender (·.send ⟨sender, receiver, kind⟩))
  modify (·.change receiver (·.receive ⟨sender, receiver, kind⟩))

/-- Write an edge down if it is called for. -/
def linkIf (c : Bool) (sender receiver : WaypointId) (kind : EdgeKind) : Attempt Arena Unit :=
  if c then link sender receiver kind else pure ()

/-- Add a waypoint, with the sentinel edges of its kind. -/
def addWaypoint (w : Waypoint) : Attempt Arena Unit := do
  if w.id.isSentinel then throw (.invalidEdge w.id w.id .sentinelWaypoint)
  if (← get).index.contains w.id then throw (.duplicateWaypoint w.name)
  modify fun a => { a with index := a.index.insert w.id a.slots.length }
  modify fun a => { a with slots := a.slots ++ [⟨w, [], []⟩] }
  linkIf w.kind.isSource .bottom w.id .flowThrough
  linkIf w.kind.isSink w.id .top .terminating

/-- Connect two waypoints. -/
def addEdge (sender receiver : WaypointId) (kind : EdgeKind) : Attempt Arena Unit := do
  if sender.isSentinel || receiver.isSentinel then
    throw (.invalidEdge sender receiver .sentinelEdge)
  if !(← get).index.contains sender then throw (.unknownId sender)
  if !(← get).index.contains receiver then throw (.unknownId receiver)
  match ((← get).outputs sender).find? fun e => e.receiver = receiver with
  | some e => if e.kind ≠ kind then throw (.invalidEdge sender receiver .otherKind)
  | none => link sender receiver kind

/-- Make a waypoint the root of a query. -/
def setRoot (q : QueryId) (id : WaypointId) : Attempt Arena Unit := do
  if !(← get).index.contains id then throw (.unknownId id)
  linkIf (!((← get).outputs id).any fun e => e.receiver = .top) id .top .terminating
  modify fun a => { a with roots := a.roots.insert q id }

end Arena

/-- A call carried out in place, one change after another. -/
def GraphCall.inPlace : GraphCall → Attempt Arena Unit
  | addWaypoint w => Arena.addWaypoint w
  | addEdge sender receiver kind => Arena.addEdge sender receiver kind
  | setRoot q id => Arena.setRoot q id
  | deleteQuery q => do
    modify fun a => a.mapWaypoints (·.deleteQuery q)
    modify fun a => { a with roots := a.roots.erase q }
  | clearQueries => do
    modify fun a => a.mapWaypoints (·.clear)
    modify fun a => { a with roots := ∅ }

/-! ## What an arena holds -/

/-- What is stored for a waypoint of a graph. -/
def PlanGraph.slot (g : PlanGraph) (w : Waypoint) : NodeSlot :=
  ⟨w, g.links.filter fun e => e.receiver = w.id, g.links.filter fun e => e.sender = w.id⟩

/-- A new edge is stored at the ends that it has. -/
theorem PlanGraph.slot_link (g : PlanGraph) (e : Edge) (w : Waypoint) :
    slot { g with links := g.links ++ [e] } w =
      let s := if w.id = e.sender then (g.slot w).send e else g.slot w
      if w.id = e.receiver then s.receive e else s := by
  have hfilter (p : Edge → Bool) :
      (g.links ++ [e]).filter p = g.links.filter p ++ if p e then [e] else [] := by
    rw [List.filter_append, List.filter_cons, List.filter_nil]
  by_cases hs : e.sender = w.id <;> by_cases hr : e.receiver = w.id <;>
    simp [slot, NodeSlot.send, NodeSlot.receive, hfilter, hs, hr, Ne.symm]

namespace Arena

variable {a b : Arena} {g h : PlanGraph} {id : WaypointId}

/-- The index has the ids of the stored waypoints, each with its position. -/
def Indexed (a : Arena) : Prop :=
  ∀ id i, a.index.get? id = some i ↔ a.slots[i]?.map (·.waypoint.id) = some id

/-- The arena stores the waypoints, edges and roots of a graph. -/
structure Holds (a : Arena) (g : PlanGraph) : Prop where
  slots : a.slots = g.waypoints.map g.slot
  indexed : a.Indexed
  roots : a.roots = g.roots

/-- The empty arena holds the empty graph. -/
theorem holds_empty : Holds .empty .empty where
  slots := rfl
  indexed _ _ := by
    constructor <;> intro h <;> cases h
  roots := rfl

/-- The index of the arena is the position in the graph. -/
theorem Holds.index_iff (h : a.Holds g) {i : Nat} :
    a.index.get? id = some i ↔ g.ids[i]? = some id := by
  rw [h.indexed, h.slots, PlanGraph.ids, List.getElem?_map, List.getElem?_map, Option.map_map]
  rfl

theorem Holds.contains_eq (h : a.Holds g) (id : WaypointId) :
    a.index.contains id = g.contains id := by
  rw [Bool.eq_iff_iff, PlanGraph.contains_iff, OrdMap.contains, Option.isSome_iff_exists,
    List.mem_iff_getElem?]
  exact exists_congr fun i => h.index_iff

/-- The slot of a waypoint has the edges of the graph at its two ends. -/
theorem Holds.slot?_eq (h : a.Holds g) (id : WaypointId) :
    a.slot? id = (g.find? id).map g.slot := by
  cases hw : g.find? id with
  | none =>
      have hindex : a.index.get? id = none := by
        have hno := h.contains_eq id
        rw [PlanGraph.contains, hw] at hno
        exact Option.not_isSome_iff_eq_none.1 (Bool.eq_false_iff.1 hno)
      rw [slot?, hindex]
      rfl
  | some w =>
      obtain ⟨i, hi⟩ := List.mem_iff_getElem?.1 (PlanGraph.mem_of_find? hw)
      have hindex : a.index.get? id = some i := by
        rw [h.index_iff, PlanGraph.ids, List.getElem?_map, hi, ← PlanGraph.id_of_find? hw]
        rfl
      rw [slot?, hindex, Option.bind_some, h.slots, List.getElem?_map, hi]

theorem Holds.inputs_eq (h : a.Holds g) (id : WaypointId) : a.inputs id = g.inputs id := by
  rw [inputs, h.slot?_eq, PlanGraph.inputs, PlanGraph.contains]
  cases hw : g.find? id with
  | none => rfl
  | some w => simp [PlanGraph.slot, PlanGraph.id_of_find? hw]

theorem Holds.outputs_eq (h : a.Holds g) (id : WaypointId) : a.outputs id = g.outputs id := by
  rw [outputs, h.slot?_eq, PlanGraph.outputs, PlanGraph.contains]
  cases hw : g.find? id with
  | none => rfl
  | some w => simp [PlanGraph.slot, PlanGraph.id_of_find? hw]

theorem Holds.root?_eq (h : a.Holds g) (q : QueryId) : a.roots.get? q = g.root? q := by
  rw [h.roots]
  rfl

/-! ## Changes in place -/

/-- Changing every slot by itself keeps the index right, if the waypoints keep their ids. -/
theorem Indexed.map (h : a.Indexed) {f : NodeSlot → NodeSlot}
    (hf : ∀ s, (f s).waypoint.id = s.waypoint.id) (roots : OrdMap QueryId WaypointId) :
    Indexed ⟨a.slots.map f, a.index, roots⟩ := by
  intro id i
  rw [h, List.getElem?_map, Option.map_map]
  simp only [Function.comp_def, hf]

/-- The slot at the position of an id is the one whose waypoint has that id. -/
theorem Indexed.change_eq (h : a.Indexed) (id : WaypointId) (f : NodeSlot → NodeSlot) :
    a.change id f =
      { a with slots := a.slots.map fun s => if s.waypoint.id = id then f s else s } := by
  cases hi : a.index.get? id with
  | none =>
      have hnone : ∀ s ∈ a.slots, (if s.waypoint.id = id then f s else s) = s := fun s hs => by
        refine if_neg fun hid => ?_
        obtain ⟨i, hget⟩ := List.mem_iff_getElem?.1 hs
        rw [(h id i).2 (by rw [hget, Option.map_some, hid])] at hi
        cases hi
      rw [change, hi, List.map_congr_left hnone, List.map_id']
  | some i =>
      have hid := (h id i).1 hi
      rw [change, hi]
      refine congrArg (Arena.mk · a.index a.roots) (List.ext_getElem? fun j => ?_)
      rw [List.getElem?_modify, List.getElem?_map]
      cases hj : a.slots[j]? with
      | none => rfl
      | some s =>
          have hij : i = j ↔ s.waypoint.id = id := by
            constructor
            · rintro rfl
              rw [hj] at hid
              exact Option.some.inj hid
            · rintro rfl
              exact Option.some.inj (hi.symm.trans ((h _ j).2 (by rw [hj, Option.map_some])))
          by_cases hs : s.waypoint.id = id
          · simp [hij.2 hs, hs]
          · simp [hs, mt hij.1 hs]

theorem Indexed.change (h : a.Indexed) (id : WaypointId) {f : NodeSlot → NodeSlot}
    (hf : ∀ s, (f s).waypoint = s.waypoint) : (a.change id f).Indexed := by
  rw [h.change_eq]
  refine h.map (fun s => ?_) a.roots
  split
  · rw [hf]
  · rfl

/-- **Writing an edge down** at both of its ends places it. -/
theorem Holds.link (h : a.Holds g) (sender receiver : WaypointId) (kind : EdgeKind) :
    ∃ b, (Arena.link sender receiver kind).outcome a = (.ok (), b) ∧
      b.Holds (g.link sender receiver kind) := by
  have hsent : (a.change sender (·.send ⟨sender, receiver, kind⟩)).Indexed :=
    h.indexed.change sender fun _ => rfl
  have hboth : ((a.change sender (·.send ⟨sender, receiver, kind⟩)).change receiver
      (·.receive ⟨sender, receiver, kind⟩)).Indexed := hsent.change receiver fun _ => rfl
  refine ⟨_, by rw [Arena.link, Attempt.outcome_bind, Attempt.outcome_modify]; rfl, ?_, hboth, ?_⟩
  · rw [hsent.change_eq, h.indexed.change_eq, h.slots]
    simp only [List.map_map]
    refine List.map_congr_left fun w _ => ?_
    rw [PlanGraph.link, g.slot_link ⟨sender, receiver, kind⟩]
    by_cases hs : w.id = sender <;> simp [PlanGraph.slot, NodeSlot.send, hs]
  · rw [hsent.change_eq, h.indexed.change_eq]
    exact h.roots

/-- A link that is made on a condition is one of the graph on the same condition. -/
theorem Holds.linkIf (h : a.Holds g) (c : Bool) (sender receiver : WaypointId) (kind : EdgeKind) :
    ∃ b, (Arena.linkIf c sender receiver kind).outcome a = (.ok (), b) ∧
      b.Holds (if c then g.link sender receiver kind else g) := by
  cases c with
  | false => exact ⟨a, rfl, h⟩
  | true => exact h.link sender receiver kind

theorem Holds.mapWaypoints (h : a.Holds g) {f : Waypoint → Waypoint} (hf : ∀ w, (f w).id = w.id)
    {roots roots' : OrdMap QueryId WaypointId} (hroots : roots = roots') :
    Holds { a.mapWaypoints f with roots } { g.mapWaypoints f with roots := roots' } := by
  refine ⟨?_, h.indexed.map (fun s => hf s.waypoint) roots, hroots⟩
  simp only [Arena.mapWaypoints, PlanGraph.mapWaypoints, h.slots, List.map_map]
  exact List.map_congr_left fun w _ => by simp [PlanGraph.slot, hf]

/-! ## Calls come to the same -/

/-- A new waypoint is stored at the end, where no edge is at it yet. -/
theorem Holds.push (h : a.Holds g) (hg : g.Wired) {w : Waypoint} (hp : w.id.isSentinel = false)
    (hw : w.id ∉ g.ids) :
    Holds ⟨a.slots ++ [⟨w, [], []⟩], a.index.insert w.id a.slots.length, a.roots⟩
      { g with waypoints := g.waypoints ++ [w] } := by
  refine ⟨?_, fun id i => ?_, h.roots⟩
  · have hinputs : (g.links.filter fun e => e.receiver = w.id) = [] :=
      List.filter_eq_nil_iff.2 fun e he hr =>
        (hg.linked.ends_ne hp hw he).2 (of_decide_eq_true hr)
    have houtputs : (g.links.filter fun e => e.sender = w.id) = [] :=
      List.filter_eq_nil_iff.2 fun e he hs =>
        (hg.linked.ends_ne hp hw he).1 (of_decide_eq_true hs)
    rw [List.map_append, h.slots]
    simp [PlanGraph.slot, hinputs, houtputs]
  · have hnew : a.index.get? w.id = none := by
      refine Option.eq_none_iff_forall_not_mem.2 fun j hj => ?_
      exact hw (List.mem_of_getElem? (h.index_iff.1 hj))
    have hold := h.indexed id i
    rw [OrdMap.get?_insert, List.getElem?_append]
    by_cases hid : id = w.id
    · subst hid
      rw [hnew] at hold
      grind
    · grind

/-- A call on the arena comes to the same as one on a graph. -/
def Follows (a : Arena) (c : Attempt Arena Unit) : Except PlanError PlanGraph → Prop
  | .ok h => ∃ b, c.outcome a = (.ok (), b) ∧ b.Holds h
  | .error e => c.outcome a = (.error e, a)

theorem Holds.addWaypoint (h : a.Holds g) (hg : g.Wired) (w : Waypoint) :
    a.Follows (Arena.addWaypoint w) (g.addWaypoint w) := by
  rw [PlanGraph.addWaypoint]
  cases hp : w.id.isSentinel with
  | true => simp [Follows, Arena.addWaypoint, hp]
  | false =>
      cases hc : g.contains w.id with
      | true => simp [Follows, Arena.addWaypoint, Attempt.outcome_bind, hp, h.contains_eq, hc]
      | false =>
          have hw : w.id ∉ g.ids := fun hmem => by simp [PlanGraph.contains_iff.2 hmem] at hc
          obtain ⟨b, hb, hholds⟩ :=
            (h.push hg hp hw).linkIf w.kind.isSource .bottom w.id .flowThrough
          obtain ⟨b', hb', hholds'⟩ := hholds.linkIf w.kind.isSink w.id .top .terminating
          refine ⟨b', ?_, hholds'⟩
          simp [Arena.addWaypoint, Attempt.outcome_bind, hp, h.contains_eq, hc, hb, hb']

theorem Holds.addEdge (h : a.Holds g) (sender receiver : WaypointId) (kind : EdgeKind) :
    a.Follows (Arena.addEdge sender receiver kind) (g.addEdge sender receiver kind) := by
  rw [PlanGraph.addEdge, ← h.contains_eq, ← h.contains_eq, ← h.outputs_eq]
  cases hp : sender.isSentinel || receiver.isSentinel with
  | true => simp [Follows, Arena.addEdge, hp]
  | false =>
      cases hs : a.index.contains sender with
      | false => simp [Follows, Arena.addEdge, Attempt.outcome_bind, hp, hs]
      | true =>
          cases hr : a.index.contains receiver with
          | false => simp [Follows, Arena.addEdge, Attempt.outcome_bind, hp, hs, hr]
          | true =>
              cases he : (a.outputs sender).find? fun e => e.receiver = receiver with
              | none =>
                  obtain ⟨b, hb, hholds⟩ := h.link sender receiver kind
                  refine ⟨b, ?_, hholds⟩
                  simp [Arena.addEdge, Attempt.outcome_bind, hp, hs, hr, he, hb]
              | some e =>
                  by_cases hk : e.kind = kind
                  · have hsame : (Arena.addEdge sender receiver kind).outcome a = (.ok (), a) := by
                      simp [Arena.addEdge, Attempt.outcome_bind, hp, hs, hr, he, hk]
                    simpa [hk] using ⟨a, hsame, h⟩
                  · simp [Follows, Arena.addEdge, Attempt.outcome_bind, hp, hs, hr, he, hk]

theorem Holds.setRoot (h : a.Holds g) (q : QueryId) (id : WaypointId) :
    a.Follows (Arena.setRoot q id) (g.setRoot q id) := by
  rw [PlanGraph.setRoot, ← h.contains_eq, ← h.outputs_eq]
  cases hc : a.index.contains id with
  | false => simp [Follows, Arena.setRoot, Attempt.outcome_bind, hc]
  | true =>
      obtain ⟨b, hb, hholds⟩ :=
        h.linkIf (!(a.outputs id).any fun e => e.receiver = .top) id .top .terminating
      refine ⟨{ b with roots := b.roots.insert q id }, ?_, ?_⟩
      · simp [Arena.setRoot, Attempt.outcome_bind, hc, hb]
      · cases hany : (a.outputs id).any fun e => e.receiver = .top <;> rw [hany] at hholds <;>
          exact ⟨hholds.slots, hholds.indexed, congrArg (·.insert q id) hholds.roots⟩

/-- **A call in place** comes to the same. -/
theorem Holds.follows (h : a.Holds g) (hg : g.Wired) (c : GraphCall) :
    a.Follows c.inPlace (g.answer c) := by
  cases c with
  | addWaypoint w => exact h.addWaypoint hg w
  | addEdge sender receiver kind => exact h.addEdge sender receiver kind
  | setRoot q id => exact h.setRoot q id
  | deleteQuery q =>
      exact ⟨_, rfl, h.mapWaypoints (f := (·.deleteQuery q)) (fun _ => rfl)
        (congrArg (·.erase q) h.roots)⟩
  | clearQueries => exact ⟨_, rfl, h.mapWaypoints (f := (·.clear)) (fun _ => rfl) rfl⟩

/-- The arena after a sequence of calls. -/
def after (calls : List GraphCall) : Arena :=
  calls.foldl (fun a c => (c.inPlace.outcome a).2) empty

/-- **After every run** the arena stores what the graph holds. -/
theorem holds_after (calls : List GraphCall) :
    (after calls).Holds (PlanGraph.after calls) ∧ (PlanGraph.after calls).Wired := by
  have hrun (calls : List GraphCall) : ∀ (a : Arena) (g : PlanGraph), a.Holds g → g.Wired →
      (calls.foldl (fun a c => (c.inPlace.outcome a).2) a).Holds
        (calls.foldl PlanGraph.perform g) ∧ (calls.foldl PlanGraph.perform g).Wired := by
    induction calls with
    | nil => exact fun a g h hg => ⟨h, hg⟩
    | cons c rest ih =>
        intro a g h hg
        have hstep := h.follows hg c
        rw [List.foldl_cons, List.foldl_cons, PlanGraph.perform]
        cases hc : g.answer c with
        | ok k =>
            rw [hc] at hstep
            obtain ⟨b, hb, hholds⟩ := hstep
            rw [hb]
            exact ih b k hholds (hg.answer hc)
        | error e =>
            rw [hc] at hstep
            rw [show c.inPlace.outcome a = _ from hstep]
            exact ih a g h hg
  exact hrun calls empty .empty holds_empty .empty

/-! ## What is stored agrees -/

/-- The waypoints, their index, the edges at both of their ends and the roots agree. -/
structure Consistent (a : Arena) : Prop where
  indexed : a.Indexed
  nodup : (a.slots.map (·.waypoint.id)).Nodup
  proper : ∀ s ∈ a.slots, s.waypoint.id.isSentinel = false
  /-- An edge is stored at its sender once, exactly when it is stored at its receiver once, and at
  neither more often. -/
  mirrored : ∀ e : Edge, e.touchesSentinel = false →
    (a.outputs e.sender).count e = (a.inputs e.receiver).count e ∧
      (a.outputs e.sender).count e ≤ 1
  /-- What is stored at a waypoint are edges of that waypoint. -/
  placed : ∀ s ∈ a.slots, (∀ e ∈ s.inputs, e.receiver = s.waypoint.id) ∧
    ∀ e ∈ s.outputs, e.sender = s.waypoint.id
  /-- The ends of an edge between waypoints are stored. -/
  ends : ∀ s ∈ a.slots, ∀ e ∈ s.inputs ++ s.outputs, e.touchesSentinel = false →
    a.index.contains e.sender = true ∧ a.index.contains e.receiver = true
  /-- Between two waypoints there is at most one edge, and so one kind. -/
  single : ∀ m n, ((a.outputs m).filter fun e => e.receiver = n).length ≤ 1 ∧
    ((a.inputs n).filter fun e => e.sender = m).length ≤ 1
  /-- A source has one edge from the bottom sentinel, and another waypoint has none. -/
  bottom : ∀ s ∈ a.slots, (s.inputs.filter fun e => e.sender = .bottom).length =
    if s.waypoint.kind.isSource then 1 else 0
  /-- There is at most one edge to the top sentinel, -/
  top_le : ∀ s ∈ a.slots, (s.outputs.filter fun e => e.receiver = .top).length ≤ 1
  /-- and one if the waypoint is a sink or a root. -/
  top_eq : ∀ s ∈ a.slots,
    s.waypoint.kind.isSink = true ∨ (∃ q, a.roots.get? q = some s.waypoint.id) →
      (s.outputs.filter fun e => e.receiver = .top).length = 1
  rooted : ∀ q id, a.roots.get? q = some id → a.index.contains id = true

end Arena

namespace PlanGraph

variable {g : PlanGraph}

/-- Of edges that all join the same ends there is at most one. -/
theorem Linked.length_le_one (hg : g.Linked) {l : List Edge} (hl : l.Sublist g.links)
    (hsame : ∀ e ∈ l, ∀ f ∈ l, e.Parallel f) : l.length ≤ 1 := by
  match l, hg.apart.sublist hl, hsame with
  | [], _, _ => exact Nat.zero_le 1
  | [_], _, _ => exact Nat.le_refl 1
  | e :: f :: rest, hapart, hsame =>
      have hef : ¬e.Parallel f := List.rel_of_pairwise_cons hapart List.mem_cons_self
      exact absurd (hsame e List.mem_cons_self f (List.mem_cons_of_mem _ List.mem_cons_self)) hef

/-- No edge is listed twice. -/
theorem Linked.nodup_links (hg : g.Linked) : g.links.Nodup := by
  refine hg.apart.imp ?_
  rintro e _ h rfl
  exact h ⟨rfl, rfl⟩

namespace Wired

/-- The ends of an edge that touches no sentinel are waypoints. -/
theorem ends (hg : g.Wired) {e : Edge} (he : e ∈ g.links) (ht : e.touchesSentinel = false) :
    e.sender ∈ g.ids ∧ e.receiver ∈ g.ids := by
  obtain ⟨hs, hr⟩ := Bool.or_eq_false_iff.1 ht
  constructor
  · refine (hg.linked.sender e he).resolve_right fun h => ?_
    rw [h.1] at hs
    cases hs
  · refine (hg.linked.receiver e he).resolve_right fun h => ?_
    rw [h.1] at hr
    cases hr

/-- Both ends of an edge have it as often as it was placed. -/
theorem count_eq (hg : g.Wired) {e : Edge} (ht : e.touchesSentinel = false) :
    (g.outputs e.sender).count e = g.links.count e ∧
      (g.inputs e.receiver).count e = g.links.count e := by
  by_cases he : e ∈ g.links
  · obtain ⟨hs, hr⟩ := hg.ends he ht
    rw [outputs, inputs, if_pos (contains_iff.2 hs), if_pos (contains_iff.2 hr)]
    exact ⟨List.count_filter (decide_eq_true rfl), List.count_filter (decide_eq_true rfl)⟩
  · rw [List.count_eq_zero.2 he, List.count_eq_zero, List.count_eq_zero]
    exact ⟨fun h => he (mem_outputs.1 h).2.1, fun h => he (mem_inputs.1 h).2.1⟩

theorem length_outputs_le_one (hg : g.Wired) (m n : WaypointId) :
    ((g.outputs m).filter fun e => e.receiver = n).length ≤ 1 := by
  refine hg.linked.length_le_one (List.filter_sublist.trans ?_) fun e he f hf => ?_
  · unfold outputs
    split
    · exact List.filter_sublist
    · exact List.nil_sublist _
  · simp only [List.mem_filter, mem_outputs, decide_eq_true_eq] at he hf
    exact ⟨he.1.2.2.trans hf.1.2.2.symm, he.2.trans hf.2.symm⟩

theorem length_inputs_le_one (hg : g.Wired) (m n : WaypointId) :
    ((g.inputs n).filter fun e => e.sender = m).length ≤ 1 := by
  refine hg.linked.length_le_one (List.filter_sublist.trans ?_) fun e he f hf => ?_
  · unfold inputs
    split
    · exact List.filter_sublist
    · exact List.nil_sublist _
  · simp only [List.mem_filter, mem_inputs, decide_eq_true_eq] at he hf
    exact ⟨he.2.trans hf.2.symm, he.1.2.2.trans hf.1.2.2.symm⟩

/-- One edge leads from the bottom sentinel to a source, and none to another waypoint. -/
theorem length_bottom (hg : g.Wired) {w : Waypoint} (hw : w ∈ g.waypoints) :
    ((g.inputs w.id).filter fun e => e.sender = .bottom).length =
      if w.kind.isSource then 1 else 0 := by
  split
  · rename_i hs
    refine Nat.le_antisymm (hg.length_inputs_le_one _ _) (List.length_pos_of_mem
      (List.mem_filter.2 ⟨mem_inputs.2 ⟨?_, hg.sourced w hw hs, rfl⟩, decide_eq_true rfl⟩))
    exact List.mem_map_of_mem hw
  · rename_i hs
    refine List.length_eq_zero_iff.2 (List.filter_eq_nil_iff.2 fun e he hbottom => ?_)
    have hbottom : e.sender = .bottom := of_decide_eq_true hbottom
    obtain ⟨-, hlink, hr⟩ := mem_inputs.1 he
    rcases hg.linked.sender e hlink with hmem | ⟨-, -, v, hv, hid, hsource⟩
    · have := hg.proper _ hmem
      rw [hbottom] at this
      cases this
    · have hvw : v = w := List.inj_on_of_nodup_map hg.nodup hv hw (hid.trans hr)
      exact hs (hvw ▸ hsource)

/-- One edge leads to the top sentinel from a waypoint that has such an edge. -/
theorem length_top (hg : g.Wired) {id : WaypointId} (hid : id ∈ g.ids)
    (htop : ⟨id, .top, .terminating⟩ ∈ g.links) :
    ((g.outputs id).filter fun e => e.receiver = .top).length = 1 :=
  Nat.le_antisymm (hg.length_outputs_le_one _ _) (List.length_pos_of_mem
    (List.mem_filter.2 ⟨mem_outputs.2 ⟨hid, htop, rfl⟩, decide_eq_true rfl⟩))

end Wired

end PlanGraph

namespace Arena

variable {a : Arena} {g : PlanGraph}

/-- What is stored for a waypoint are the edges that lead into it and out of it. -/
theorem Holds.exists_waypoint (h : a.Holds g) {s : NodeSlot} (hs : s ∈ a.slots) :
    s.waypoint ∈ g.waypoints ∧ s.inputs = g.inputs s.waypoint.id ∧
      s.outputs = g.outputs s.waypoint.id := by
  rw [h.slots] at hs
  obtain ⟨w, hw, rfl⟩ := List.mem_map.1 hs
  have hc : g.contains w.id = true := PlanGraph.contains_iff.2 (List.mem_map_of_mem hw)
  exact ⟨hw, (if_pos hc).symm, (if_pos hc).symm⟩

/-- **An arena that stores a graph in order is consistent.** -/
theorem Holds.consistent (h : a.Holds g) (hg : g.Wired) : a.Consistent where
  indexed := h.indexed
  nodup := by
    rw [h.slots, List.map_map]
    exact hg.nodup
  proper s hs := hg.proper _ (List.mem_map_of_mem (h.exists_waypoint hs).1)
  mirrored e ht := by
    obtain ⟨hout, hin⟩ := hg.count_eq ht
    rw [h.outputs_eq, h.inputs_eq, hout, hin]
    exact ⟨rfl, List.nodup_iff_count_le_one.1 hg.linked.nodup_links e⟩
  placed s hs := by
    obtain ⟨-, hin, hout⟩ := h.exists_waypoint hs
    rw [hin, hout]
    exact ⟨fun e he => (PlanGraph.mem_inputs.1 he).2.2,
      fun e he => (PlanGraph.mem_outputs.1 he).2.2⟩
  ends s hs e he ht := by
    obtain ⟨-, hin, hout⟩ := h.exists_waypoint hs
    have hlink : e ∈ g.links := by
      rw [hin, hout] at he
      rcases List.mem_append.1 he with he | he
      · exact (PlanGraph.mem_inputs.1 he).2.1
      · exact (PlanGraph.mem_outputs.1 he).2.1
    rw [h.contains_eq, h.contains_eq, PlanGraph.contains_iff, PlanGraph.contains_iff]
    exact hg.ends hlink ht
  single m n := by
    rw [h.outputs_eq, h.inputs_eq]
    exact ⟨hg.length_outputs_le_one m n, hg.length_inputs_le_one m n⟩
  bottom s hs := by
    obtain ⟨hw, hin, -⟩ := h.exists_waypoint hs
    rw [hin]
    exact hg.length_bottom hw
  top_le s hs := by
    rw [(h.exists_waypoint hs).2.2]
    exact hg.length_outputs_le_one _ _
  top_eq s hs htop := by
    obtain ⟨hw, -, hout⟩ := h.exists_waypoint hs
    rw [hout]
    refine hg.length_top (List.mem_map_of_mem hw) ?_
    rcases htop with hsink | ⟨q, hq⟩
    · exact hg.drained _ hw hsink
    · exact (hg.rooted q _ (h.root?_eq q ▸ hq)).2
  rooted q id hq := by
    rw [h.contains_eq, PlanGraph.contains_iff]
    exact (hg.rooted q id (h.root?_eq q ▸ hq)).1

/-- A call that fails on the arena changes nothing, and it fails on the graph. -/
theorem Follows.of_error {c : Attempt Arena Unit} {r : Except PlanError PlanGraph}
    (hc : a.Follows c r) {e : PlanError} {b : Arena} (h : c.outcome a = (.error e, b)) :
    b = a ∧ r = .error e := by
  cases r with
  | ok _ =>
      obtain ⟨b', hb', -⟩ := hc
      rw [hb'] at h
      cases h
  | error e' =>
      rw [show c.outcome a = (.error e', a) from hc] at h
      cases h
      exact ⟨rfl, rfl⟩

/-- **The layout stays consistent.**  After every sequence of calls in place, which leave no change
behind when they fail, the index has the ids of the waypoints at their positions, an edge is
stored at both of its ends, once, and the edges from and to sentinels are those of the sources,
sinks and roots.  The arena stores what the graph holds after the same calls. -/
theorem layout_consistent (calls : List GraphCall) :
    let a := after calls
    let g := PlanGraph.after calls
    a.Consistent ∧
      (∀ (c : GraphCall) e b, c.inPlace.outcome a = (.error e, b) →
        b = a ∧ g.answer c = .error e) ∧
      a.slots.map (·.waypoint) = g.waypoints ∧ a.roots = g.roots ∧
      ∀ id, a.inputs id = g.inputs id ∧ a.outputs id = g.outputs id := by
  intro a g
  obtain ⟨h, hg⟩ : a.Holds g ∧ g.Wired := holds_after calls
  refine ⟨h.consistent hg, fun c e b => (h.follows hg c).of_error, ?_, h.roots,
    fun id => ⟨h.inputs_eq id, h.outputs_eq id⟩⟩
  rw [h.slots, List.map_map]
  exact List.map_id' _

/-- Three waypoints, one of them with an edge to itself, an edge that is placed twice, a root that
is made twice, and calls that are refused. -/
def looped : List GraphCall :=
  [.addWaypoint (.fresh ⟨2⟩ "scan" (.scanner "t" (.singleton ⟨0⟩) ∅)),
    .addWaypoint (.fresh ⟨2⟩ "again" (.selection ∅)), .addWaypoint (.fresh .top "top" (.print ∅)),
    .addWaypoint (.fresh ⟨3⟩ "pick" (.selection ∅)), .addWaypoint (.fresh ⟨4⟩ "out" (.print ∅)),
    .addEdge ⟨2⟩ ⟨3⟩ .flowThrough, .addEdge ⟨3⟩ ⟨3⟩ .flowThrough, .addEdge ⟨2⟩ ⟨3⟩ .flowThrough,
    .addEdge ⟨3⟩ ⟨9⟩ .flowThrough, .setRoot ⟨0⟩ ⟨4⟩, .setRoot ⟨1⟩ ⟨3⟩, .setRoot ⟨1⟩ ⟨3⟩,
    .deleteQuery ⟨0⟩]

/-- The other kind is refused between waypoints with an edge, and the root that was made twice has
one edge to the top sentinel. -/
theorem layout_consistent_looped :
    let a := after looped
    (∃ b, (GraphCall.inPlace (.addEdge ⟨2⟩ ⟨3⟩ .terminating)).outcome a =
        (.error (.invalidEdge ⟨2⟩ ⟨3⟩ .otherKind), b) ∧ b = a) ∧
      (a.inputs ⟨3⟩).count ⟨⟨3⟩, ⟨3⟩, .flowThrough⟩ = 1 ∧
      (∃ s ∈ a.slots, s.waypoint.id = ⟨3⟩ ∧ (∃ q, a.roots.get? q = some s.waypoint.id) ∧
        (s.outputs.filter fun e => e.receiver = .top).length = 1) := by
  intro a
  obtain ⟨hconsistent, herror, -⟩ := layout_consistent looped
  have hrefused : ((GraphCall.inPlace (.addEdge ⟨2⟩ ⟨3⟩ .terminating)).outcome a).1 =
      .error (.invalidEdge ⟨2⟩ ⟨3⟩ .otherKind) := by decide +kernel
  have hsent : (a.outputs ⟨3⟩).count ⟨⟨3⟩, ⟨3⟩, .flowThrough⟩ = 1 := by decide +kernel
  obtain ⟨s, hs, hid⟩ : ∃ s, a.slots[1]? = some s ∧ s.waypoint.id = ⟨3⟩ :=
    Option.map_eq_some_iff.1
      (by decide +kernel : a.slots[1]?.map (·.waypoint.id) = some (⟨3⟩ : WaypointId))
  have hroot : ∃ q, a.roots.get? q = some s.waypoint.id :=
    ⟨⟨1⟩, hid ▸ (by decide +kernel : a.roots.get? ⟨1⟩ = some ⟨3⟩)⟩
  refine ⟨⟨_, Prod.ext hrefused rfl, (herror _ _ _ (Prod.ext hrefused rfl)).1⟩, ?_,
    s, List.mem_of_getElem? hs, hid, hroot,
    hconsistent.top_eq s (List.mem_of_getElem? hs) (.inr hroot)⟩
  exact (hconsistent.mirrored ⟨⟨3⟩, ⟨3⟩, .flowThrough⟩ (by decide)).1.symm.trans hsent

end Arena

end SharedPlan
