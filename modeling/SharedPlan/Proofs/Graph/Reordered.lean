import SharedPlan.Proofs.Graph.Linked
import SharedPlan.Proofs.Graph.Order

/-!
# SharedPlan.Proofs.Graph.Reordered

Graphs that were put together in different orders.

`PlanGraph.Reordered` says that two graphs hold the same waypoints, edges and roots, and
nothing of the order in which these were added.  Their topological order is the same,
and so is the report where there is none (`Reordered.topologicalOrder_eq`).  Every look-up
finds the same in both (`Reordered.congruent`), which is what the passes go by.
-/

namespace SharedPlan

namespace PlanGraph

/-- Two graphs hold the same waypoints, the same edges between them and the same roots. -/
structure Reordered (g h : PlanGraph) : Prop where
  waypoints : ∀ w, w ∈ g.waypoints ↔ w ∈ h.waypoints
  edges : ∀ e, e ∈ g.edges ↔ e ∈ h.edges
  roots : g.roots = h.roots

/-- Every look-up finds the same in two graphs. -/
structure Congruent (g h : PlanGraph) : Prop where
  find? : ∀ n, g.find? n = h.find? n
  edges : ∀ e, e ∈ g.edges ↔ e ∈ h.edges
  inputs : ∀ n e, e ∈ g.inputs n ↔ e ∈ h.inputs n
  /-- There is at most one edge from one waypoint to another, so these lists are short. -/
  outputs : ∀ m n, n.isSentinel = false →
    (g.outputs m).filter (fun e => e.receiver = n) = (h.outputs m).filter fun e => e.receiver = n

variable {g h : PlanGraph}

theorem Congruent.symm (hc : g.Congruent h) : h.Congruent g where
  find? n := (hc.find? n).symm
  edges e := (hc.edges e).symm
  inputs n e := (hc.inputs n e).symm
  outputs m n hn := (hc.outputs m n hn).symm

/-! ## Changes on both sides -/

/-- Changes that leave ids and edges alone keep graphs congruent, if they change what is found
alike. -/
theorem Congruent.change {k l : PlanGraph} (hc : g.Congruent h) (hids : k.ids = g.ids)
    (hlinks : k.links = g.links) (hids' : l.ids = h.ids) (hlinks' : l.links = h.links)
    (hfind : ∀ n, k.find? n = l.find? n) : k.Congruent l where
  find? := hfind
  edges := by
    rw [edges_congr hids hlinks, edges_congr hids' hlinks']
    exact hc.edges
  inputs := by
    rw [inputs_congr hids hlinks, inputs_congr hids' hlinks']
    exact hc.inputs
  outputs := by
    rw [outputs_congr hids hlinks, outputs_congr hids' hlinks']
    exact hc.outputs

theorem Congruent.mapWaypoints (hc : g.Congruent h) {f : Waypoint → Waypoint}
    (hid : ∀ w, (f w).id = w.id) : (g.mapWaypoints f).Congruent (h.mapWaypoints f) :=
  hc.change (ids_mapWaypoints hid g) rfl (ids_mapWaypoints hid h) rfl fun n => by
    rw [find?_mapWaypoints hid, find?_mapWaypoints hid, hc.find?]

theorem Congruent.mem_ids_iff (hc : g.Congruent h) {n : WaypointId} : n ∈ g.ids ↔ n ∈ h.ids := by
  rw [PlanGraph.mem_ids_iff, PlanGraph.mem_ids_iff, hc.find?]

/-! ## Waypoints and edges -/

/-- Lists without parallel edges that have the same members, all of them parallel, are equal. -/
theorem eq_of_parallel {l l' : List Edge} (hl : l.Pairwise fun e f => ¬e.Parallel f)
    (hl' : l'.Pairwise fun e f => ¬e.Parallel f) (hmem : ∀ e, e ∈ l ↔ e ∈ l')
    (hparallel : ∀ e ∈ l, ∀ f ∈ l, e.Parallel f) : l = l' := by
  have short {l : List Edge} (hl : l.Pairwise fun e f => ¬e.Parallel f)
      (hparallel : ∀ e ∈ l, ∀ f ∈ l, e.Parallel f) : l = [] ∨ ∃ e, l = [e] := by
    match l with
    | [] => exact .inl rfl
    | [e] => exact .inr ⟨e, rfl⟩
    | e :: f :: rest =>
        exact absurd (hparallel e (by simp) f (by simp))
          ((List.pairwise_cons.1 hl).1 f List.mem_cons_self)
  have hparallel' : ∀ e ∈ l', ∀ f ∈ l', e.Parallel f := fun e he f hf =>
    hparallel e ((hmem e).2 he) f ((hmem f).2 hf)
  rcases short hl hparallel with rfl | ⟨e, rfl⟩
  · exact (List.eq_nil_iff_forall_not_mem.2 fun e he => List.not_mem_nil ((hmem e).2 he)).symm
  · rcases short hl' hparallel' with rfl | ⟨f, rfl⟩
    · exact absurd ((hmem e).1 (List.mem_singleton_self e)) List.not_mem_nil
    · rw [List.mem_singleton.1 ((hmem e).1 (List.mem_singleton_self e))]

section Reordered

variable (hg : g.WellFormed) (hh : h.WellFormed) (hgh : g.Reordered h)

include hg hh hgh

theorem Reordered.perm_waypoints : g.waypoints.Perm h.waypoints :=
  (List.perm_ext_iff_of_nodup hg.nodup.of_map hh.nodup.of_map).2 hgh.waypoints

theorem Reordered.find?_eq (n : WaypointId) : g.find? n = h.find? n := by
  cases hw : g.find? n with
  | some w =>
      rw [← id_of_find? hw]
      exact (find?_of_mem hh.nodup ((hgh.waypoints w).1 (mem_of_find? hw))).symm
  | none =>
      cases hv : h.find? n with
      | none => rfl
      | some v =>
          have := find?_of_mem hg.nodup ((hgh.waypoints v).2 (mem_of_find? hv))
          rw [id_of_find? hv, hw] at this
          cases this

theorem Reordered.mem_ids_iff {n : WaypointId} : n ∈ g.ids ↔ n ∈ h.ids := by
  rw [PlanGraph.mem_ids_iff, PlanGraph.mem_ids_iff, hgh.find?_eq hg hh]

variable (hlg : g.Linked) (hlh : h.Linked)

include hlg hlh

/-- **Every look-up finds the same** in graphs that differ in their order only. -/
theorem Reordered.congruent : g.Congruent h where
  find? := hgh.find?_eq hg hh
  edges := hgh.edges
  inputs n e := by
    rw [mem_inputs_iff hg hlg, mem_inputs_iff hh hlh, hgh.edges, hgh.find?_eq hg hh]
  outputs m n hn := by
    refine eq_of_parallel ((pairwise_outputs hlg m).filter _) ((pairwise_outputs hlh m).filter _)
      (fun e => ?_) fun e he f hf => ?_
    · rw [mem_outputs_filter hg hn, mem_outputs_filter hh hn, hgh.edges]
    · obtain ⟨-, hs, hr⟩ := (mem_outputs_filter hg hn).1 he
      obtain ⟨-, hs', hr'⟩ := (mem_outputs_filter hg hn).1 hf
      exact ⟨hs.trans hs'.symm, hr.trans hr'.symm⟩

/-! ## The topological order -/

theorem Reordered.perm_edges : g.edges.Perm h.edges :=
  (List.perm_ext_iff_of_nodup (nodup_edges hg hlg) (nodup_edges hh hlh)).2 hgh.edges

omit hg hh in
theorem Reordered.perm_successors (n : WaypointId) : (g.successors n).Perm (h.successors n) := by
  have hmem (k : PlanGraph) (e : Edge) : e ∈ k.successors n ↔ e ∈ k.edges ∧ e.sender = n := by
    rw [mem_successors, mem_edges]
    constructor
    · rintro ⟨hn, hlink, rfl, hproper⟩
      exact ⟨⟨hn, hlink, hproper⟩, rfl⟩
    · rintro ⟨⟨hn, hlink, hproper⟩, rfl⟩
      exact ⟨hn, hlink, rfl, hproper⟩
  refine (List.perm_ext_iff_of_nodup (nodup_successors hlg n) (nodup_successors hlh n)).2
    fun e => ?_
  rw [hmem, hmem, hgh.edges]

/-- The same inputs are open. -/
theorem Reordered.openInputs_eq : g.openInputs = h.openInputs := by
  ext1 n
  have hload : g.openFrom [] n = h.openFrom [] n :=
    (hgh.perm_edges hg hh hlg hlh).countP_eq _
  simp only [get?_openInputs hg, get?_openInputs hh, hgh.mem_ids_iff hg hh, hload]

omit hg hh hgh hlg hlh in
/-- In which order edges are closed does not matter. -/
theorem closeEdges_perm {l l' : List Edge} (hl : l.Perm l') (d : OrdMap WaypointId Nat) :
    closeEdges l d = closeEdges l' d := by
  have hload (n : WaypointId) : load l n = load l' n := hl.countP_eq _
  refine Prod.ext (OrdMap.ext fun n => ?_) (OrdSet.ext fun n => ?_)
  · rw [get?_closeEdges, get?_closeEdges, hload]
  · rw [mem_closeEdges, mem_closeEdges, hload]

omit hg hh in
theorem Reordered.drain_eq (n : Nat) (queue : List WaypointId) (d : OrdMap WaypointId Nat) :
    g.drain n queue d = h.drain n queue d := by
  induction n generalizing queue d with
  | zero => rfl
  | succ n ih =>
      cases queue with
      | nil => rfl
      | cons m queue =>
          simp only [drain, closeEdges_perm (hgh.perm_successors hlg hlh m), ih]

/-- **The order, or the report that there is none,** does not depend on the order of
construction. -/
theorem Reordered.topologicalOrder_eq : g.topologicalOrder = h.topologicalOrder := by
  have hsize : g.size = h.size := (hgh.perm_waypoints hg hh).length_eq
  simp only [topologicalOrder, hgh.openInputs_eq hg hh hlg hlh, hgh.drain_eq hlg hlh, hsize,
    hgh.find?_eq hg hh]

end Reordered

end PlanGraph

end SharedPlan
