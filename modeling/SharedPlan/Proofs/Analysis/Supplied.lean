import SharedPlan.Analysis.Supply
import SharedPlan.Proofs.Graph.Reachable

/-!
# SharedPlan.Proofs.Analysis.Supplied

The bottom-up pass as a function and a condition.

`PlanGraph.supplied` does everything that the pass does and checks nothing;
`PlanGraph.FedAlong` says that a query finds at every waypoint what it needs there.
The pass succeeds exactly when every active query is fed, and then its result is
the function's (`supplyPass_eq_ok_iff`).  What the pass does for one query does not
depend on which other queries are active (`only_supplied`), and what registration
wrote is left alone (`unsupplied_supplied`).
-/

namespace SharedPlan

namespace PlanGraph

/-! ## The pass without its checks -/

/-- Hand what was emitted to the receiver of an edge. -/
def deliverAt (m : QuerySlots) (g : PlanGraph) (e : Edge) : PlanGraph :=
  match g.find? e.receiver with
  | some w => g.replace (w.receive e.kind m)
  | none => g

/-- Hand what was emitted to the receivers of some edges; nothing goes to the sentinels. -/
def deliverAll (m : QuerySlots) (l : List Edge) (g : PlanGraph) : PlanGraph :=
  l.foldl (fun g e => if e.receiver.isSentinel then g else g.deliverAt m e) g

/-- Visit one waypoint. -/
def supplyAt (active : QuerySet) (g : PlanGraph) (id : WaypointId) : PlanGraph :=
  match g.find? id with
  | some w => (g.replace (w.stored active)).deliverAll (w.emitted active) (g.outputs id)
  | none => g

/-- The graph after a visit of every waypoint of an order. -/
def supplied (active : QuerySet) (order : List WaypointId) (g : PlanGraph) : PlanGraph :=
  order.foldl (supplyAt active) g

/-- Every waypoint of an order is fed for a query when its turn comes. -/
def FedAlong (active : QuerySet) (q : QueryId) : List WaypointId → PlanGraph → Prop
  | [], _ => True
  | id :: rest, g =>
    (∀ w, g.find? id = some w → w.Fed q) ∧ FedAlong active q rest (g.supplyAt active id)

/-! ## What the pass leaves alone -/

@[simp] theorem ids_deliverAt (m : QuerySlots) (g : PlanGraph) (e : Edge) :
    (g.deliverAt m e).ids = g.ids := by
  unfold deliverAt
  split <;> simp

/-- A delivery changes only what an upward pass leaves. -/
theorem unsupplied_deliverAt {g : PlanGraph} (hg : g.ids.Nodup) (m : QuerySlots) (e : Edge) :
    (g.deliverAt m e).mapWaypoints Waypoint.unsupplied =
      g.mapWaypoints Waypoint.unsupplied := by
  unfold deliverAt
  split
  · rename_i w hw
    refine mapWaypoints_replace_eq hg ?_ (Waypoint.unsupplied_receive w e.kind m)
    rw [Waypoint.id_receive, id_of_find? hw, hw]
  · rfl

@[simp] theorem ids_deliverAll (m : QuerySlots) (l : List Edge) (g : PlanGraph) :
    (g.deliverAll m l).ids = g.ids := by
  induction l generalizing g with
  | nil => rfl
  | cons e rest ih =>
      rw [deliverAll, List.foldl_cons]
      exact (ih _).trans (by split <;> simp)

/-- So do deliveries over a list of edges. -/
theorem unsupplied_deliverAll {g : PlanGraph} (hg : g.ids.Nodup) (m : QuerySlots)
    (l : List Edge) :
    (g.deliverAll m l).mapWaypoints Waypoint.unsupplied =
      g.mapWaypoints Waypoint.unsupplied := by
  induction l generalizing g with
  | nil => rfl
  | cons e rest ih =>
      rw [deliverAll, List.foldl_cons]
      by_cases hs : e.receiver.isSentinel = true
      · rw [if_pos hs]
        exact ih hg
      · rw [if_neg hs]
        exact (ih (g := g.deliverAt m e) (by simpa using hg)).trans (unsupplied_deliverAt hg m e)

@[simp] theorem ids_supplyAt (active : QuerySet) (g : PlanGraph) (id : WaypointId) :
    (g.supplyAt active id).ids = g.ids := by
  unfold supplyAt
  split <;> simp

/-- So does the upward step of one waypoint, with its deliveries. -/
theorem unsupplied_supplyAt {g : PlanGraph} (hg : g.ids.Nodup) (active : QuerySet)
    (id : WaypointId) :
    (g.supplyAt active id).mapWaypoints Waypoint.unsupplied =
      g.mapWaypoints Waypoint.unsupplied := by
  unfold supplyAt
  split
  · rename_i w hw
    rw [unsupplied_deliverAll (by simpa using hg)]
    refine mapWaypoints_replace_eq hg ?_ (Waypoint.unsupplied_stored w active)
    rw [Waypoint.id_stored, id_of_find? hw, hw]
  · rfl

@[simp] theorem ids_supplied (active : QuerySet) (order : List WaypointId) (g : PlanGraph) :
    (g.supplied active order).ids = g.ids := by
  induction order generalizing g with
  | nil => rfl
  | cons id rest ih => exact (ih _).trans (ids_supplyAt ..)

/-- The pass changes nothing but what arrived and what was emitted. -/
theorem unsupplied_supplied {g : PlanGraph} (hg : g.ids.Nodup) (active : QuerySet)
    (order : List WaypointId) :
    (g.supplied active order).mapWaypoints Waypoint.unsupplied =
      g.mapWaypoints Waypoint.unsupplied := by
  induction order generalizing g with
  | nil => rfl
  | cons id rest ih =>
      exact (ih (g := g.supplyAt active id) (by simpa using hg)).trans
        (unsupplied_supplyAt hg active id)

/-- An upward pass does not change the links. -/
theorem links_supplied {g : PlanGraph} (hg : g.ids.Nodup) (active : QuerySet)
    (order : List WaypointId) : (g.supplied active order).links = g.links :=
  links_eq_of_view (unsupplied_supplied hg active order)

/-- A well-formed graph stays so. -/
theorem wellFormed_supplyAt {g : PlanGraph} (hg : g.WellFormed) (active : QuerySet)
    (id : WaypointId) : (g.supplyAt active id).WellFormed :=
  hg.of_view Waypoint.id_unsupplied Waypoint.kind_unsupplied
    (fun _ => Waypoint.sound_unsupplied) (unsupplied_supplyAt hg.nodup active id).symm

/-- It does so through a whole pass. -/
theorem wellFormed_supplied {g : PlanGraph} (hg : g.WellFormed) (active : QuerySet)
    (order : List WaypointId) : (g.supplied active order).WellFormed :=
  hg.of_view Waypoint.id_unsupplied Waypoint.kind_unsupplied
    (fun _ => Waypoint.sound_unsupplied) (unsupplied_supplied hg.nodup active order).symm

/-! ## The pass with its checks -/

/-- A delivery to a waypoint of the graph succeeds. -/
theorem deliver_outcome {g : PlanGraph} {e : Edge} (he : e.receiver ∈ g.ids) (m : QuerySlots) :
    (deliver m e).outcome g = (.ok (), g.deliverAt m e) := by
  obtain ⟨w, hw⟩ := mem_ids_iff.1 he
  rw [deliver, Attempt.outcome_update, waypoint_eq_ok_iff.2 hw]
  simp only [deliverAt, hw]
  rfl

/-- So do all deliveries over edges that end in the graph or at a sentinel. -/
theorem deliverAll_outcome {l : List Edge} {g : PlanGraph}
    (hl : ∀ e ∈ l, e.receiver.isSentinel = false → e.receiver ∈ g.ids) (m : QuerySlots) :
    Attempt.outcome (l.forM fun e => if e.receiver.isSentinel then pure () else deliver m e) g =
      (.ok (), g.deliverAll m l) := by
  induction l generalizing g with
  | nil => rfl
  | cons e rest ih =>
      show Attempt.outcome ((if e.receiver.isSentinel then pure () else deliver m e) >>=
        fun _ => rest.forM fun e => if e.receiver.isSentinel then pure () else deliver m e) g = _
      have hrest : ∀ e ∈ rest, e.receiver.isSentinel = false → e.receiver ∈ g.ids :=
        fun e he => hl e (List.mem_cons_of_mem _ he)
      rw [Attempt.outcome_bind, deliverAll, List.foldl_cons]
      by_cases hs : e.receiver.isSentinel = true
      · simp only [hs, if_true, Attempt.outcome_pure]
        exact ih hrest
      · simp only [hs, Bool.false_eq_true, if_false]
        rw [deliver_outcome (hl e List.mem_cons_self (by simpa using hs))]
        exact ih (by simpa using hrest)

/-- **A visit** succeeds exactly when every active query is fed. -/
theorem supplyFrom_eq_ok_iff {g h : PlanGraph} (hg : g.WellFormed) {id : WaypointId}
    (hid : id ∈ g.ids) {active : QuerySet} :
    (supplyFrom active id).outcome g = (.ok (), h) ↔
      (∀ q ∈ active.toList, ∀ w, g.find? id = some w → w.Fed q) ∧ g.supplyAt active id = h := by
  obtain ⟨w, hw⟩ := mem_ids_iff.1 hid
  have hout : (g.replace (w.stored active)).outputs id = g.outputs id := by
    rw [outputs_congr (ids_replace g _) rfl]
  have hends : ∀ e ∈ g.outputs id, e.receiver.isSentinel = false → e.receiver ∈ g.ids := by
    intro e he hr
    obtain ⟨-, hl, hs⟩ := mem_outputs.1 he
    refine (hg.ends e hl ?_).2
    simp [Edge.touchesSentinel, hr, hs, hg.proper id hid]
  have hdeliver := deliverAll_outcome (g := g.replace (w.stored active))
    (by simpa using hends) (w.emitted active)
  simp only [hw, Option.some.injEq, forall_eq', supplyAt]
  rw [supplyFrom, Attempt.outcome_bind, emitAt, Attempt.outcome_ofOutcome,
    waypoint_eq_ok_iff.2 hw]
  simp only
  cases he : w.emit active with
  | mk v r =>
      cases r with
      | error e =>
          constructor
          · intro h
            cases h
          · rintro ⟨hfed, -⟩
            have hemit := Waypoint.emit_eq_ok_iff.2 ⟨hfed, rfl, rfl⟩
            rw [he] at hemit
            cases (Prod.mk.inj hemit).2
      | ok m =>
          obtain ⟨hfed, rfl, rfl⟩ := Waypoint.emit_eq_ok_iff.1 he
          simp only [Attempt.outcome_bind, Attempt.outcome_get, hout]
          rw [hdeliver]
          simp only [Prod.mk.injEq, true_and]
          exact (and_iff_right hfed).symm

/-- **The bottom-up pass** succeeds exactly when every active query is fed at every
waypoint in its turn. -/
theorem supplyPass_eq_ok_iff {active : QuerySet} {order : List WaypointId} {g h : PlanGraph}
    (hg : g.WellFormed) (horder : ∀ id ∈ order, id ∈ g.ids) :
    (supplyPass order active).outcome g = (.ok (), h) ↔
      (∀ q ∈ active.toList, g.FedAlong active q order) ∧ g.supplied active order = h := by
  induction order generalizing g with
  | nil => simp [supplyPass, FedAlong, supplied]
  | cons id rest ih =>
      have hid := horder id List.mem_cons_self
      have hrest : ∀ i ∈ rest, i ∈ (g.supplyAt active id).ids := fun i hi => by
        rw [ids_supplyAt]
        exact horder i (List.mem_cons_of_mem _ hi)
      have ih := ih (wellFormed_supplyAt hg active id) hrest
      show Attempt.outcome (supplyFrom active id >>= fun _ => supplyPass rest active) g = _ ↔ _
      rw [Attempt.outcome_bind]
      simp only [FedAlong, forall_and]
      cases hs : (supplyFrom active id).outcome g with
      | mk r h' =>
          cases r with
          | error e =>
              constructor
              · intro h
                cases h
              · rintro ⟨⟨hfed, -⟩, -⟩
                rw [(supplyFrom_eq_ok_iff hg hid).2 ⟨hfed, rfl⟩] at hs
                cases hs
          | ok u =>
              obtain ⟨hfed, rfl⟩ := (supplyFrom_eq_ok_iff hg hid).1 hs
              rw [ih, and_iff_right hfed]
              rfl

/-! ## One query at a time -/

variable {q : QueryId} {g h : PlanGraph}

/-- What belongs to a query after a waypoint was replaced. -/
theorem only_replace (g : PlanGraph) (w : Waypoint) (q : QueryId) :
    (g.replace w).only q = (g.only q).replace (w.only q) :=
  mapWaypoints_replace (Waypoint.id_only q) g w

/-- Graphs that agree on a query find waypoints that agree on it. -/
theorem find?_of_only_eq (hgh : g.only q = h.only q) {id : WaypointId} {w : Waypoint}
    (hw : g.find? id = some w) : ∃ v, h.find? id = some v ∧ v.only q = w.only q :=
  exists_find?_of_view (Waypoint.id_only q) hgh hw

/-- Graphs equal for a query have the same ids. -/
theorem find?_none_of_only_eq (hgh : g.only q = h.only q) {id : WaypointId}
    (hw : g.find? id = none) : h.find? id = none := by
  cases hv : h.find? id with
  | none => rfl
  | some v =>
      obtain ⟨w, hw', -⟩ := find?_of_only_eq hgh.symm hv
      rw [hw] at hw'
      cases hw'

/-- A delivery to graphs equal for a query leaves them so if the same is delivered for it. -/
theorem only_deliverAt (hgh : g.only q = h.only q) {m n : QuerySlots} (hm : m.get? q = n.get? q)
    (e : Edge) : (g.deliverAt m e).only q = (h.deliverAt n e).only q := by
  unfold deliverAt
  cases hw : g.find? e.receiver with
  | none => simpa only [find?_none_of_only_eq hgh hw] using hgh
  | some w =>
      obtain ⟨v, hv, hvw⟩ := find?_of_only_eq hgh hw
      simp only [hv, only_replace, Waypoint.only_receive, hgh, hvw, hm]

/-- So do deliveries over a list of edges. -/
theorem only_deliverAll (hgh : g.only q = h.only q) {m n : QuerySlots}
    (hm : m.get? q = n.get? q) (l : List Edge) :
    (g.deliverAll m l).only q = (h.deliverAll n l).only q := by
  induction l generalizing g h with
  | nil => exact hgh
  | cons e rest ih =>
      simp only [deliverAll, List.foldl_cons]
      by_cases hs : e.receiver.isSentinel = true
      · simp only [hs, if_true]
        exact ih hgh
      · simp only [hs, if_false, Bool.false_eq_true]
        exact ih (only_deliverAt hgh hm e)

theorem ids_eq_of_only (hgh : g.only q = h.only q) : g.ids = h.ids :=
  ids_eq_of_view (Waypoint.id_only q) hgh

theorem links_eq_of_only (hgh : g.only q = h.only q) : g.links = h.links :=
  links_eq_of_view hgh

/-- A visit serves a query in the same way whichever other queries are active. -/
theorem only_supplyAt (hgh : g.only q = h.only q) {active other : QuerySet}
    (hq : q ∈ active.toList ↔ q ∈ other.toList) (id : WaypointId) :
    (g.supplyAt active id).only q = (h.supplyAt other id).only q := by
  unfold supplyAt
  cases hw : g.find? id with
  | none => simpa only [find?_none_of_only_eq hgh hw] using hgh
  | some w =>
      obtain ⟨v, hv, hvw⟩ := find?_of_only_eq hgh hw
      have hyield : v.yield q = w.yield q := by
        rw [← Waypoint.yield_only, hvw, Waypoint.yield_only]
      have hsupplies : v.supplies q = w.supplies q := by
        rw [← Waypoint.supplies_only, hvw, Waypoint.supplies_only]
      have hpasses : v.passesOn = w.passesOn := by
        rw [← Waypoint.passesOn_only v q, hvw, Waypoint.passesOn_only]
      simp only [hv]
      rw [outputs_congr (ids_eq_of_only hgh) (links_eq_of_only hgh)]
      apply only_deliverAll
      · simp only [only_replace, Waypoint.only_stored, hgh, hvw, hyield, hsupplies, hq]
      · simp only [Waypoint.get?_emitted, hyield, hsupplies, hpasses, hq]

/-- **A pass leaves graphs equal for a query**, whichever others are active. -/
theorem only_supplied (hgh : g.only q = h.only q) {active other : QuerySet}
    (hq : q ∈ active.toList ↔ q ∈ other.toList) (order : List WaypointId) :
    (g.supplied active order).only q = (h.supplied other order).only q := by
  induction order generalizing g h with
  | nil => exact hgh
  | cons id rest ih => exact ih (only_supplyAt hgh hq id)

/-- And the query is fed along the pass in both of them or in neither. -/
theorem fedAlong_congr (hgh : g.only q = h.only q) {active other : QuerySet}
    (hq : q ∈ active.toList ↔ q ∈ other.toList) (order : List WaypointId) :
    g.FedAlong active q order ↔ h.FedAlong other q order := by
  induction order generalizing g h with
  | nil => exact Iff.rfl
  | cons id rest ih =>
      refine and_congr ⟨fun H v hv => ?_, fun H w hw => ?_⟩ (ih (only_supplyAt hgh hq id))
      · obtain ⟨w, hw, hwv⟩ := find?_of_only_eq hgh.symm hv
        rw [← Waypoint.fed_only, ← hwv, Waypoint.fed_only]
        exact H w hw
      · obtain ⟨v, hv, hvw⟩ := find?_of_only_eq hgh hw
        rw [← Waypoint.fed_only, ← hvw, Waypoint.fed_only]
        exact H v hv

end PlanGraph

end SharedPlan
