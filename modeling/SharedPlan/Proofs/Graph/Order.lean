import Mathlib.Data.Fintype.EquivFin
import Mathlib.Data.List.Perm.Subperm
import Mathlib.Logic.Relation
import SharedPlan.Graph.Order
import SharedPlan.Proofs.Graph.Reachable

/-!
# SharedPlan.Proofs.Graph.Order

The topological order is one.  `Drained` is the invariant of the queue: the open inputs
that are counted are those whose senders have not been taken, and the waypoints taken or
waiting are those without open inputs.

An order that is found lists every waypoint once (`perm_of_topologicalOrder`) and lists
the sender of every edge before its receiver (`forward_of_topologicalOrder`), so the
graph is acyclic (`acyclic_of_topologicalOrder`).
-/

namespace SharedPlan

namespace OrdMap

variable {κ ν : Type} [Ord κ] [Std.LawfulEqOrd κ]

theorem nodup_keys (m : OrdMap κ ν) : m.keys.Nodup := by
  rw [keys, List.Nodup, List.pairwise_map]
  refine m.ascending.imp fun {a b} h e => ?_
  rw [e, Std.ReflOrd.compare_self] at h
  cases h

variable [Std.TransOrd κ] [DecidableEq κ]

theorem get?_alter (m : OrdMap κ ν) (k j : κ) (f : Option ν → ν) :
    (m.alter k f).get? j = if j = k then some (f (m.get? k)) else m.get? j := by
  rw [alter, get?_insert]

theorem get?_foldl_insert (f : κ → ν) (l : List κ) (m : OrdMap κ ν) (j : κ) :
    ((l.map fun k => (k, f k)).foldl (fun m e => m.insert e.1 e.2) m).get? j =
      if j ∈ l then some (f j) else m.get? j := by
  induction l generalizing m with
  | nil => simp
  | cons k rest ih =>
      rw [List.map_cons, List.foldl_cons, ih, get?_insert]
      by_cases h : j = k
      · simp [h]
      · simp [h]

/-- The map of a function on a list of keys. -/
theorem get?_ofList_map (f : κ → ν) (l : List κ) (j : κ) :
    (ofList (l.map fun k => (k, f k))).get? j = if j ∈ l then some (f j) else none :=
  get?_foldl_insert f l ∅ j

/-- In a map of entries with distinct keys, every entry is found. -/
theorem get?_ofList {l : List (κ × ν)} (hl : (l.map (·.1)).Nodup) {k : κ} {v : ν}
    (h : (k, v) ∈ l) : (ofList l).get? k = some v := by
  have hother (l : List (κ × ν)) (hk : k ∉ l.map (·.1)) (m : OrdMap κ ν) :
      (l.foldl (fun m e => m.insert e.1 e.2) m).get? k = m.get? k := by
    induction l generalizing m with
    | nil => rfl
    | cons e rest ih =>
        obtain ⟨hne, hrest⟩ := not_or.1 (mt List.mem_cons.2 hk)
        rw [List.foldl_cons, ih hrest, get?_insert_of_ne _ _ hne]
  have hfold (m : OrdMap κ ν) : (l.foldl (fun m e => m.insert e.1 e.2) m).get? k = some v := by
    induction l generalizing m with
    | nil => exact absurd h List.not_mem_nil
    | cons e rest ih =>
        obtain ⟨hnot, hrest⟩ := List.nodup_cons.1 hl
        rw [List.foldl_cons]
        rcases List.mem_cons.1 h with rfl | h
        · rw [hother rest hnot, get?_insert_self]
        · exact ih hrest h _
  exact hfold ∅

end OrdMap

theorem OrdSet.nodup_toList {α : Type} [Ord α] [Std.ReflOrd α] (s : OrdSet α) :
    s.toList.Nodup := by
  refine s.ascending.imp fun {a b} h e => ?_
  rw [e, Std.ReflOrd.compare_self] at h
  cases h

namespace PlanGraph

/-! ## Counting inputs -/

/-- The number of edges of a list into a waypoint. -/
def load (l : List Edge) (id : WaypointId) : Nat := l.countP fun e => e.receiver = id

/-- The number of edges into a waypoint whose senders are not among those taken. -/
def openFrom (g : PlanGraph) (taken : List WaypointId) (id : WaypointId) : Nat :=
  g.edges.countP fun e => e.receiver = id ∧ e.sender ∉ taken

theorem get?_openInputs {g : PlanGraph} (hg : g.WellFormed) (id : WaypointId) :
    g.openInputs.get? id = if id ∈ g.ids then some (g.openFrom [] id) else none := by
  have fold (l : List Edge) (hl : ∀ e ∈ l, e.receiver ∈ g.ids) (f : WaypointId → Nat)
      (d : OrdMap WaypointId Nat)
      (hd : ∀ id, d.get? id = if id ∈ g.ids then some (f id) else none) :
      (l.foldl (fun d e => d.alter e.receiver fun n => n.getD 0 + 1) d).get? id =
        if id ∈ g.ids then some (f id + load l id) else none := by
    induction l generalizing d f with
    | nil => simp [hd, load]
    | cons e rest ih =>
        have hr := hl e List.mem_cons_self
        rw [List.foldl_cons, ih (fun e he => hl e (List.mem_cons_of_mem _ he))
          (fun id => if id = e.receiver then f id + 1 else f id)]
        · by_cases h : e.receiver = id
          · subst h
            simp only [if_true, load, List.countP_cons, decide_true, hr]
            congr 1
            omega
          · simp [load, h, Ne.symm h]
        · intro id
          rw [OrdMap.get?_alter, hd, hd]
          by_cases h : id = e.receiver
          · simp [h, hr]
          · simp [h]
  have hends : ∀ e ∈ g.edges, e.receiver ∈ g.ids := fun e he =>
    (hg.ends e (mem_edges.1 he).2.1 (mem_edges.1 he).2.2).2
  rw [openInputs, fold g.edges hends (fun _ => 0) _ (OrdMap.get?_ofList_map _ _)]
  simp [load, openFrom]

/-- Closing edges counts every receiver down. -/
theorem get?_closeEdges (l : List Edge) (d : OrdMap WaypointId Nat) (id : WaypointId) :
    (closeEdges l d).1.get? id = (d.get? id).map (· - load l id) := by
  induction l generalizing d with
  | nil => simp [closeEdges, load]
  | cons e rest ih =>
      rw [closeEdges]
      cases hn : d.get? e.receiver with
      | none =>
          simp only [ih]
          by_cases h : e.receiver = id
          · simp [← h, hn]
          · simp [load, h]
      | some n =>
          simp only [ih, OrdMap.get?_insert]
          by_cases h : e.receiver = id
          · subst h
            simp [load, hn]
            omega
          · simp [load, h, Ne.symm h]

/-- The receivers whose last open inputs were closed become ready. -/
theorem mem_closeEdges (l : List Edge) (d : OrdMap WaypointId Nat) (id : WaypointId) :
    id ∈ (closeEdges l d).2 ↔ ∃ n, d.get? id = some n ∧ 0 < load l id ∧ n ≤ load l id := by
  induction l generalizing d with
  | nil => simp [closeEdges, load]
  | cons e rest ih =>
      rw [closeEdges]
      cases hn : d.get? e.receiver with
      | none =>
          simp only [ih]
          by_cases h : e.receiver = id
          · simp [← h, hn]
          · simp [load, h]
      | some n =>
          dsimp only
          by_cases h : e.receiver = id
          · subst h
            simp only [hn, Option.some.injEq, exists_eq_left', load, List.countP_cons]
            split <;> simp only [OrdSet.mem_insert, ih, OrdMap.get?_insert_self, load] <;> grind
          · split <;> simp [ih, OrdMap.get?_insert, load, h, Ne.symm h]

/-- The edges out of a waypoint are those that its being taken closes. -/
theorem load_successors {g : PlanGraph} (hg : g.ids.Nodup) {id : WaypointId} (hid : id ∈ g.ids)
    (v : WaypointId) :
    load (g.successors id) v = g.edges.countP fun e => e.receiver = v ∧ e.sender = id := by
  have sender {i : WaypointId} {e : Edge} (he : e ∈ g.successors i) : e.sender = i :=
    (mem_successors.1 he).2.2.1
  have other {i : WaypointId} (hi : i ≠ id) :
      (g.successors i).countP (fun e => e.receiver = v ∧ e.sender = id) = 0 := by
    rw [List.countP_eq_zero]
    intro e he
    simp [sender he, hi]
  have self : (g.successors id).countP (fun e => e.receiver = v ∧ e.sender = id) =
      load (g.successors id) v := by
    refine List.countP_congr fun e he => ?_
    simp [sender he]
  have each (l : List WaypointId) (hl : l.Nodup) :
      (l.flatMap g.successors).countP (fun e => e.receiver = v ∧ e.sender = id) =
        if id ∈ l then load (g.successors id) v else 0 := by
    induction l with
    | nil => rfl
    | cons i rest ih =>
        rw [List.flatMap_cons, List.countP_append, ih hl.of_cons]
        by_cases hi : i = id
        · subst hi
          rw [self, if_neg (List.nodup_cons.1 hl).1, if_pos List.mem_cons_self, Nat.add_zero]
        · rw [other hi, Nat.zero_add]
          simp [Ne.symm hi]
  rw [edges, each g.ids hg, if_pos hid]

/-- Taking a waypoint closes the inputs that it sends. -/
theorem openFrom_append {g : PlanGraph} {taken : List WaypointId} {id : WaypointId}
    (hid : id ∉ taken) (v : WaypointId) :
    g.openFrom taken v =
      g.openFrom (taken ++ [id]) v +
        g.edges.countP fun e => e.receiver = v ∧ e.sender = id := by
  unfold openFrom
  induction g.edges with
  | nil => rfl
  | cons e rest ih =>
      simp only [List.countP_cons, ih]
      by_cases hv : e.receiver = v
      · by_cases hs : e.sender = id
        · simp [hv, hs, hid]
          omega
        · simp [hv, hs]
          omega
      · simp [hv]

/-! ## The queue -/

/-- The state of the queue: what has been taken, what waits, and the inputs counted
as open. -/
structure Drained (g : PlanGraph) (taken queue : List WaypointId) (d : OrdMap WaypointId Nat) :
    Prop where
  /-- The inputs of a waypoint are open until their senders are taken. -/
  count : ∀ id, d.get? id = if id ∈ g.ids then some (g.openFrom taken id) else none
  nodup : (taken ++ queue).Nodup
  /-- What has no open input has been taken or waits. -/
  mem : ∀ id, id ∈ taken ++ queue ↔ id ∈ g.ids ∧ g.openFrom taken id = 0
  /-- The senders into a waypoint are taken before it. -/
  forward : ∀ l₁ id l₂, taken = l₁ ++ id :: l₂ → ∀ e ∈ g.edges, e.receiver = id → e.sender ∈ l₁

theorem mem_initialQueue {d : OrdMap WaypointId Nat} {id : WaypointId} :
    id ∈ initialQueue d ↔ d.get? id = some 0 := by
  rw [initialQueue, OrdMap.mem_keys_iff, OrdMap.get?_filter]
  cases d.get? id with
  | none => simp
  | some n => by_cases h : n = 0 <;> simp [h]

theorem Drained.initial {g : PlanGraph} (hg : g.WellFormed) :
    Drained g [] (initialQueue g.openInputs) g.openInputs where
  count := get?_openInputs hg
  nodup := OrdMap.nodup_keys _
  mem id := by
    rw [List.nil_append, mem_initialQueue, get?_openInputs hg]
    by_cases h : id ∈ g.ids <;> simp [h]
  forward := by simp

/-- Taking a waypoint from the queue keeps the invariant. -/
theorem Drained.step {g : PlanGraph} (hg : g.WellFormed) {taken queue : List WaypointId}
    {d : OrdMap WaypointId Nat} {id : WaypointId} (h : Drained g taken (id :: queue) d) :
    Drained g (taken ++ [id]) (queue ++ (closeEdges (g.successors id) d).2.toList)
      (closeEdges (g.successors id) d).1 := by
  obtain ⟨hid, hopen⟩ := (h.mem id).1 (by simp)
  have htaken : id ∉ taken := fun hmem =>
    (List.nodup_append.1 h.nodup).2.2 id hmem id List.mem_cons_self rfl
  -- What is open before is what is open afterwards and what this step closes.
  have hload (v : WaypointId) :
      g.openFrom taken v = g.openFrom (taken ++ [id]) v + load (g.successors id) v := by
    rw [load_successors hg.nodup hid, openFrom_append htaken]
  have hready (v : WaypointId) : v ∈ (closeEdges (g.successors id) d).2 ↔
      v ∈ g.ids ∧ 0 < load (g.successors id) v ∧ g.openFrom (taken ++ [id]) v = 0 := by
    rw [mem_closeEdges, h.count]
    by_cases hv : v ∈ g.ids
    · simp only [hv, if_true, Option.some.injEq, exists_eq_left', true_and, hload v]
      omega
    · simp [hv]
  have hsplit : taken ++ [id] ++ (queue ++ (closeEdges (g.successors id) d).2.toList) =
      taken ++ id :: queue ++ (closeEdges (g.successors id) d).2.toList := by
    simp
  refine ⟨?_, ?_, ?_, ?_⟩
  · intro v
    rw [get?_closeEdges, h.count]
    by_cases hv : v ∈ g.ids
    · simp only [hv, if_true, Option.map_some, hload v]
      congr 1
      omega
    · simp [hv]
  · rw [hsplit, List.nodup_append]
    refine ⟨h.nodup, OrdSet.nodup_toList _, ?_⟩
    rintro v hv _ hr rfl
    have hzero := ((h.mem v).1 hv).2
    have hpos := ((hready v).1 hr).2.1
    rw [hload v] at hzero
    omega
  · intro v
    rw [hsplit, List.mem_append, h.mem, ← OrdSet.mem_def, hready]
    have := hload v
    by_cases hv : v ∈ g.ids
    · simp only [hv, true_and]
      omega
    · simp [hv]
  · intro l₁ v l₂ heq e he hev
    rcases List.eq_nil_or_concat l₂ with rfl | ⟨l₂, z, rfl⟩
    · obtain ⟨rfl, hv⟩ := List.append_inj' heq rfl
      obtain rfl := (List.cons.inj hv).1
      have := List.countP_eq_zero.1 hopen e he
      simpa [hev] using this
    · have hl : taken ++ [id] = (l₁ ++ v :: l₂) ++ [z] := by simpa using heq
      exact h.forward l₁ v l₂ (List.append_inj' hl rfl).1 e he hev

theorem Drained.drain {g : PlanGraph} (hg : g.WellFormed) {n : Nat} {taken queue : List WaypointId}
    {d : OrdMap WaypointId Nat} (h : Drained g taken queue d) :
    ∃ rest, Drained g (taken ++ (g.drain n queue d).1) rest (g.drain n queue d).2 := by
  induction n generalizing taken queue d with
  | zero => exact ⟨queue, by simpa [PlanGraph.drain] using h⟩
  | succ n ih =>
      cases queue with
      | nil => exact ⟨[], by simpa [PlanGraph.drain] using h⟩
      | cons id queue =>
          obtain ⟨rest, hrest⟩ := ih (h.step hg)
          exact ⟨rest, by simpa [PlanGraph.drain] using hrest⟩

/-- What is taken fills the bound, unless nothing is left to take. -/
theorem Drained.drain_full {g : PlanGraph} (hg : g.WellFormed) {n : Nat}
    {taken queue : List WaypointId} {d : OrdMap WaypointId Nat} (h : Drained g taken queue d) :
    (g.drain n queue d).1.length = n ∨
      Drained g (taken ++ (g.drain n queue d).1) [] (g.drain n queue d).2 := by
  induction n generalizing taken queue d with
  | zero => exact .inl rfl
  | succ n ih =>
      cases queue with
      | nil => exact .inr (by simpa [PlanGraph.drain] using h)
      | cons id queue => simpa [PlanGraph.drain] using ih (h.step hg)

/-- What sends to a waypoint that was taken was taken before it. -/
theorem Drained.idxOf_lt {g : PlanGraph} {taken queue : List WaypointId}
    {d : OrdMap WaypointId Nat} (h : Drained g taken queue d) {e : Edge} (he : e ∈ g.edges)
    (hr : e.receiver ∈ taken) :
    e.sender ∈ taken ∧ taken.idxOf e.sender < taken.idxOf e.receiver := by
  obtain ⟨l₁, l₂, ho⟩ := List.append_of_mem hr
  have hs := h.forward l₁ e.receiver l₂ ho e he rfl
  have hnodup := (List.nodup_append.1 h.nodup).1
  rw [ho, List.nodup_append] at hnodup
  have hnot : e.receiver ∉ l₁ := fun hm => hnodup.2.2 _ hm _ List.mem_cons_self rfl
  refine ⟨ho ▸ List.mem_append_left _ hs, ?_⟩
  rw [ho, List.idxOf_append, List.idxOf_append, if_pos hs, if_neg hnot]
  have := List.idxOf_lt_length_of_mem hs
  omega

/-! ## The order -/

theorem drained_of_topologicalOrder {g : PlanGraph} (hg : g.WellFormed) {order : List WaypointId}
    (h : g.topologicalOrder = .ok order) :
    g.ids.length ≤ order.length ∧ ∃ rest d, Drained g order rest d := by
  obtain ⟨rest, hrest⟩ := (Drained.initial hg).drain hg (n := g.size)
  rw [List.nil_append] at hrest
  unfold topologicalOrder at h
  dsimp only at h
  split at h
  · cases h
  · rename_i hlen
    obtain rfl := Except.ok.inj h
    refine ⟨?_, rest, _, hrest⟩
    simpa [ids, size] using hlen

/-- **The order lists every waypoint once.** -/
theorem perm_of_topologicalOrder {g : PlanGraph} (hg : g.WellFormed) {order : List WaypointId}
    (h : g.topologicalOrder = .ok order) : order.Perm g.ids := by
  obtain ⟨hlen, rest, d, hd⟩ := drained_of_topologicalOrder hg h
  have hsub : order ⊆ g.ids := fun id hid =>
    ((hd.mem id).1 (List.mem_append_left _ hid)).1
  exact (List.subperm_of_subset (List.nodup_append.1 hd.nodup).1 hsub).perm_of_length_le hlen

/-- **The order lists the sender of an edge before its receiver.** -/
theorem forward_of_topologicalOrder {g : PlanGraph} (hg : g.WellFormed) {order : List WaypointId}
    (h : g.topologicalOrder = .ok order) {e : Edge} (he : e ∈ g.edges) {l₁ l₂ : List WaypointId}
    (ho : order = l₁ ++ e.receiver :: l₂) : e.sender ∈ l₁ := by
  obtain ⟨-, rest, d, hd⟩ := drained_of_topologicalOrder hg h
  exact hd.forward l₁ e.receiver l₂ ho e he rfl

/-- Along every edge the place in the order grows, so no edges form a cycle. -/
theorem idxOf_lt_of_topologicalOrder {g : PlanGraph} (hg : g.WellFormed)
    {order : List WaypointId} (h : g.topologicalOrder = .ok order) {e : Edge} (he : e ∈ g.edges) :
    order.idxOf e.sender < order.idxOf e.receiver := by
  obtain ⟨-, rest, d, hd⟩ := drained_of_topologicalOrder hg h
  have hr : e.receiver ∈ order := by
    rw [(perm_of_topologicalOrder hg h).mem_iff]
    exact (hg.ends e (mem_edges.1 he).2.1 (mem_edges.1 he).2.2).2
  exact (hd.idxOf_lt he hr).2

theorem idxOf_lt_of_link {g : PlanGraph} (hg : g.WellFormed) {order : List WaypointId}
    (h : g.topologicalOrder = .ok order) {m n : WaypointId} {kind : EdgeKind} (hm : m ∈ g.ids)
    (hn : n ∈ g.ids) (hlink : ⟨m, n, kind⟩ ∈ g.links) : order.idxOf m < order.idxOf n := by
  refine idxOf_lt_of_topologicalOrder hg h (e := ⟨m, n, kind⟩) (mem_edges.2 ⟨hm, hlink, ?_⟩)
  simp [Edge.touchesSentinel, hg.proper m hm, hg.proper n hn]

/-- An order lists every waypoint once, and every edge between waypoints leads forward in
it. -/
structure Forward (g : PlanGraph) (order : List WaypointId) : Prop where
  perm : order.Perm g.ids
  lt : ∀ e ∈ g.edges, order.idxOf e.sender < order.idxOf e.receiver

/-- The order that is found is one such order. -/
theorem forward_topologicalOrder {g : PlanGraph} (hg : g.WellFormed) {order : List WaypointId}
    (h : g.topologicalOrder = .ok order) : g.Forward order where
  perm := perm_of_topologicalOrder hg h
  lt _ he := idxOf_lt_of_topologicalOrder hg h he

theorem Forward.idxOf_lt {g : PlanGraph} (hg : g.WellFormed) {order : List WaypointId}
    (h : g.Forward order) {m n : WaypointId} {kind : EdgeKind} (hm : m ∈ g.ids) (hn : n ∈ g.ids)
    (hlink : ⟨m, n, kind⟩ ∈ g.links) : order.idxOf m < order.idxOf n := by
  refine h.lt ⟨m, n, kind⟩ (mem_edges.2 ⟨hm, hlink, ?_⟩)
  simp [Edge.touchesSentinel, hg.proper m hm, hg.proper n hn]

section Congr

variable {g h : PlanGraph} (hids : g.ids = h.ids) (hsuccessors : g.successors = h.successors)

include hsuccessors

theorem drain_congr (n : Nat) (queue : List WaypointId) (d : OrdMap WaypointId Nat) :
    g.drain n queue d = h.drain n queue d := by
  induction n generalizing queue d with
  | zero => rfl
  | succ n ih =>
      cases queue with
      | nil => rfl
      | cons id queue => simp only [drain, hsuccessors, ih]

include hids

/-- What is taken, and what is left open, depends on the ids and the edges alone. -/
theorem drain_openInputs_congr :
    g.drain g.size (initialQueue g.openInputs) g.openInputs =
      h.drain h.size (initialQueue h.openInputs) h.openInputs := by
  have hopen : g.openInputs = h.openInputs := by
    rw [openInputs, openInputs, edges, edges, hids, hsuccessors]
  have hsize : g.size = h.size := by
    simpa [ids, size] using congrArg List.length hids
  rw [drain_congr hsuccessors, hopen, hsize]

/-- The order depends on the ids and the edges alone. -/
theorem topologicalOrder_congr {order : List WaypointId} (ho : g.topologicalOrder = .ok order) :
    h.topologicalOrder = .ok order := by
  have hsize : g.size = h.size := by
    simpa [ids, size] using congrArg List.length hids
  unfold topologicalOrder at ho ⊢
  rw [drain_openInputs_congr hids hsuccessors, hsize] at ho
  dsimp only at ho ⊢
  split at ho
  · cases ho
  · rename_i hlt
    rwa [if_neg hlt]

/-- Where it is not found, the report depends on the names as well. -/
theorem topologicalOrder_eq (hnames : ∀ id, (g.find? id).map (·.name) = (h.find? id).map (·.name)) :
    g.topologicalOrder = h.topologicalOrder := by
  have hsize : g.size = h.size := by
    simpa [ids, size] using congrArg List.length hids
  unfold topologicalOrder
  rw [drain_openInputs_congr hids hsuccessors, hsize]
  simp only [hnames]

end Congr

/-! ## Acyclic graphs -/

section Acyclic

variable {g h : PlanGraph}

/-- An edge leads from one waypoint to another. -/
def Precedes (g : PlanGraph) (m n : WaypointId) : Prop := ∃ kind, ⟨m, n, kind⟩ ∈ g.edges

/-- No path over the edges between waypoints leads back to where it starts. -/
def Acyclic (g : PlanGraph) : Prop := ∀ n, ¬Relation.TransGen g.Precedes n n

instance : Finite WaypointId :=
  .of_injective (fun n => n.val.toBitVec.toFin) fun m n h => by
    cases m
    cases n
    exact congrArg WaypointId.mk (UInt32.toBitVec_inj.1 (BitVec.toFin_inj.1 h))

/-- Along the edges of an acyclic graph one comes to an end. -/
theorem Acyclic.wellFounded (hg : g.Acyclic) : WellFounded g.Precedes := by
  have : Std.Irrefl (Relation.TransGen g.Precedes) := ⟨hg⟩
  have hwf : WellFounded (Relation.TransGen g.Precedes) :=
    Finite.wellFounded_of_trans_of_irrefl _
  exact Subrelation.wf Relation.TransGen.single hwf

theorem Acyclic.congr (hg : g.Acyclic) (hids : g.ids = h.ids) (hlinks : g.links = h.links) :
    h.Acyclic := by
  have hedges : h.Precedes = g.Precedes := by
    funext m n
    rw [Precedes, Precedes, edges_congr hids hlinks]
  rw [Acyclic, hedges]
  exact hg

/-- A graph that has an order is acyclic. -/
theorem acyclic_of_topologicalOrder (hg : g.WellFormed) {order : List WaypointId}
    (ho : g.topologicalOrder = .ok order) : g.Acyclic := by
  have hlt {m n : WaypointId} (h : Relation.TransGen g.Precedes m n) :
      order.idxOf m < order.idxOf n := by
    induction h with
    | single h => exact h.elim fun _ he => idxOf_lt_of_topologicalOrder hg ho he
    | tail _ h ih => exact ih.trans (h.elim fun _ he => idxOf_lt_of_topologicalOrder hg ho he)
  exact fun n hn => Nat.lt_irrefl _ (hlt hn)

/-- With nothing left to take, a waypoint that was not taken has an input whose sender was
not taken either. -/
theorem Drained.exists_precedes {g : PlanGraph} (hg : g.WellFormed) {taken : List WaypointId}
    {d : OrdMap WaypointId Nat} (h : Drained g taken [] d) {n : WaypointId} (hn : n ∈ g.ids)
    (hnot : n ∉ taken) : ∃ m ∈ g.ids, m ∉ taken ∧ g.Precedes m n := by
  have hopen : g.openFrom taken n ≠ 0 := fun h0 =>
    hnot (by simpa using (h.mem n).2 ⟨hn, h0⟩)
  obtain ⟨e, he, hcount⟩ := List.countP_pos_iff.1 (Nat.pos_of_ne_zero hopen)
  obtain ⟨rfl, hsender⟩ := of_decide_eq_true hcount
  obtain ⟨-, hlink, hproper⟩ := mem_edges.1 he
  exact ⟨e.sender, (hg.ends e hlink hproper).1, hsender, e.kind, he⟩

/-- With nothing left to take in an acyclic graph, every waypoint was taken. -/
theorem Drained.mem_of_acyclic (hg : g.WellFormed) (ha : g.Acyclic) {taken : List WaypointId}
    {d : OrdMap WaypointId Nat} (h : Drained g taken [] d) {n : WaypointId} (hn : n ∈ g.ids) :
    n ∈ taken := by
  induction n using ha.wellFounded.induction with
  | _ n ih =>
      by_contra hnot
      obtain ⟨m, hm, hm', hprec⟩ := h.exists_precedes hg hn hnot
      exact hm' (ih m hprec hm)

/-- **An acyclic graph has an order.** -/
theorem exists_topologicalOrder (hg : g.WellFormed) (ha : g.Acyclic) :
    ∃ order, g.topologicalOrder = .ok order := by
  have hsize : g.ids.length = g.size := by simp [ids, size]
  have hall : ¬(g.drain g.size (initialQueue g.openInputs) g.openInputs).1.length < g.size := by
    intro hlt
    rcases (Drained.initial hg).drain_full hg (n := g.size) with hfull | hd
    · omega
    · rw [List.nil_append] at hd
      have hsub := List.subperm_of_subset hg.nodup fun n hn => hd.mem_of_acyclic hg ha hn
      have := hsub.length_le
      omega
  unfold topologicalOrder
  dsimp only
  rw [if_neg hall]
  exact ⟨_, rfl⟩

end Acyclic

end PlanGraph

end SharedPlan
