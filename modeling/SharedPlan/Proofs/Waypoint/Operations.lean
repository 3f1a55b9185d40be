import SharedPlan.Attempt
import SharedPlan.Config
import SharedPlan.Proofs.Routing.Compiled
import SharedPlan.Proofs.Waypoint.Records
import SharedPlan.Proofs.Waypoint.Residue

/-!
# SharedPlan.Proofs.Waypoint.Operations

Operations on the maps of a waypoint and on its records.

`WaypointMaps.Holds` says that the maps of a waypoint tell the records of a given `Waypoint`.
Every operation keeps it and answers alike on either side, whether it registers, deletes, emits
or answers a demand; and what is published is the same (`WaypointMaps.Holds.config_eq`).
-/

namespace SharedPlan

/-! ## Waypoints -/

namespace WaypointMaps

/-- The maps of a waypoint tell the records of another. -/
structure Holds (m : WaypointMaps) (w : Waypoint) : Prop where
  id : w.id = m.id
  name : w.name = m.name
  flows : w.flows.Tells m.flows.flow
  role : m.role.Holds w.role

variable {m : WaypointMaps} {w : Waypoint} {q r : QueryId}

theorem Holds.flow_eq (h : m.Holds w) (q : QueryId) : w.flow q = m.flows.flow q := h.flows q

/-- A new waypoint keeps nothing. -/
theorem holds_fresh (id : WaypointId) (name : String) {role : RoleMaps} {r : Role}
    (h : role.Holds r) : (fresh id name role).Holds (.fresh id name r) :=
  ⟨rfl, rfl, fun _ => FlowMaps.flow_empty.symm, h⟩

/-- A cycle begins in place as on the records. -/
theorem Holds.beginCycle (h : m.Holds w) : m.beginCycle.Holds w.beginCycle :=
  ⟨h.id, h.name, h.flows.mapAll Flow.beginCycle_default (FlowMaps.flow_beginCycle _),
    h.role.beginCycle⟩

/-- **Deleting a query map by map forgets its records.** -/
theorem Holds.deleteQuery (h : m.Holds w) (hq : q ∈ QuerySet.ids) :
    (m.deleteQuery q).Holds (w.deleteQuery q) :=
  ⟨h.id, h.name, h.flows.forget fun _ => FlowMaps.flow_deleteQuery hq, h.role.deleteQuery hq⟩

/-- **Clearing map by map forgets all records.** -/
theorem Holds.clear (h : m.Holds w) : m.clear.Holds w.clear :=
  ⟨h.id, h.name, fun _ => FlowMaps.flow_empty.symm, h.role.clear⟩

/-- A change of the common record of one query, told in place. -/
theorem Holds.modifyFlow (h : m.Holds w) {flows : FlowMaps} {f : Flow → Flow}
    (hf : ∀ p, flows.flow p = if p = q then f (m.flows.flow q) else m.flows.flow p) :
    Holds { m with flows } (w.modifyFlow q f) :=
  ⟨h.id, h.name, h.flows.modify hf, h.role⟩

/-- A change of the role. -/
theorem Holds.withRole (h : m.Holds w) {role : RoleMaps} {r : Role} (hr : role.Holds r) :
    Holds { m with role } { w with role := r } :=
  ⟨h.id, h.name, h.flows, hr⟩

/-- A change of both. -/
theorem Holds.enrolWith (h : m.Holds w) {flows : FlowMaps} {f : Flow → Flow} {role : RoleMaps}
    {r : Role} (hr : role.Holds r)
    (hf : ∀ p, flows.flow p = if p = q then f (m.flows.flow q) else m.flows.flow p) :
    Holds { m with flows, role } (w.enrolWith q r f) :=
  ⟨h.id, h.name, h.flows.modify hf, hr⟩

/-! ### Registration -/

/-- A query is registered in place as on the records, for whatever duty. -/
theorem Holds.enrol (h : m.Holds w) (hq : q ∈ QuerySet.ids) (d : Duty) :
    (m.enrol q d).Holds (w.enrol q d) := by
  obtain ⟨id, name, flows, role⟩ := m
  obtain ⟨_, _, _, r⟩ := w
  have hr := h.role
  cases d with
  | scan =>
      cases hr with
      | scanner ht =>
          refine h.enrolWith (.scanner (ht.modify fun p => ?_)) fun _ => FlowMaps.flow_require hq _
          split <;> simp_all [ScannerMaps.share, QuerySet.lists_insert]
      | _ => exact h
  | write slots =>
      cases hr with
      | scanner ht =>
          refine h.enrolWith (.scanner (ht.modify fun p => ?_)) fun _ => FlowMaps.flow_cover hq
          split <;> simp_all [ScannerMaps.share, QuerySlots.get?_merge]
      | _ => exact h
  | scanRange range =>
      cases hr with
      | scanner ht =>
          refine h.withRole (.scanner (ht.modify fun p => ?_))
          split <;> simp_all [ScannerMaps.share, OrdMap.get?_insert]
      | _ => exact h
  | loadText =>
      cases hr with
      | textLoader => exact h.modifyFlow fun _ => FlowMaps.flow_require hq _
      | _ => exact h
  | ingest =>
      cases hr with
      | ingest => exact h.modifyFlow fun _ => FlowMaps.flow_require hq _
      | _ => exact h
  | filter slots =>
      cases hr with
      | selection ht =>
          refine h.enrolWith (.selection (ht.modify fun p => ?_)) fun _ =>
            FlowMaps.flow_require hq _
          split <;> simp_all [SelectionMaps.share, QuerySlots.get?_merge]
      | _ => exact h
  | synthesize slot dependsOn =>
      cases hr with
      | selection ht =>
          refine h.enrolWith (.selection (ht.modify fun p => ?_)) fun _ =>
            FlowMaps.flow_require_synthesize hq _ _
          split <;> simp_all [SelectionMaps.share, QuerySlots.get?_merge, OrdMap.get?_insert]
      | _ => exact h
  | bypass =>
      cases hr with
      | selection | join => exact h.modifyFlow fun _ => FlowMaps.flow_bypass hq
      | _ => exact h
  | join rhs keys kind =>
      cases hr with
      | join ht =>
          refine h.enrolWith (.join (ht.modify fun p => ?_)) fun _ => FlowMaps.flow_require hq _
          split <;> simp_all [JoinMaps.share, QuerySlots.get?_merge, OrdMap.get?_insert]
      | _ => exact h
  | aggregate outputs inputs states =>
      cases hr with
      | aggregate ht =>
          refine h.enrolWith (.aggregate (ht.modify fun p => ?_)) fun _ =>
            FlowMaps.flow_require_synthesize hq _ _
          split <;> simp_all [AggregateMaps.share, QuerySlots.get?_merge, OrdMap.get?_insert]
      | _ => exact h
  | returnAsState =>
      cases hr with
      | aggregate ht =>
          refine h.enrolWith (.aggregate (ht.modify fun p => ?_)) fun _ => FlowMaps.flow_cover hq
          split <;> simp_all [AggregateMaps.share, QuerySet.lists_insert]
      | _ => exact h
  | transform outputs inputs states =>
      cases hr with
      | transform ht =>
          refine h.enrolWith (.transform (ht.modify fun p => ?_)) fun _ =>
            FlowMaps.flow_require_synthesize hq _ _
          split <;> simp_all [TransformMaps.share, QuerySlots.get?_merge, OrdMap.get?_insert]
      | _ => exact h
  | iterate outputs states =>
      cases hr with
      | iterative ht =>
          refine h.enrolWith (.iterative (ht.modify fun p => ?_)) fun _ =>
            FlowMaps.flow_synthesize hq _
          split <;> simp_all [OrdMap.get?_insert]
      | _ => exact h
  | print slots header =>
      cases hr with
      | print ht =>
          refine h.enrolWith (.print (ht.modify fun p => ?_)) fun _ => FlowMaps.flow_require hq _
          cases header <;> split <;> simp_all [OrdMap.get?_insert]
      | _ => exact h
  | cache =>
      cases hr with
      | cache ht =>
          exact h.enrolWith (.cache (ht.set fun _ => QuerySet.lists_insert hq)) fun _ =>
            FlowMaps.flow_cover hq
      | _ => exact h
  | compact =>
      cases hr with
      | compact ht =>
          exact h.enrolWith (.compact (ht.set fun _ => QuerySet.lists_insert hq)) fun _ =>
            FlowMaps.flow_cover hq
      | _ => exact h
  | cluster =>
      cases hr with
      | cluster => exact h.modifyFlow fun _ => FlowMaps.flow_require hq _
      | _ => exact h

/-! ### The upward step -/

/-- Attributes are taken in where the role keeps those of such an edge. -/
theorem Holds.receiveFor (h : m.Holds w) (kind : EdgeKind) (q : QueryId) (slots : SlotSet) :
    (m.receiveFor kind q slots).Holds (w.receiveFor kind q slots) := by
  obtain ⟨id, name, flows, role⟩ := m
  obtain ⟨_, _, _, r⟩ := w
  have hr := h.role
  have hflow := h.modifyFlow (q := q) (f := (·.receive slots)) fun _ => FlowMaps.flow_receive slots
  cases hr with
  | scanner ht =>
      cases kind with
      | flowThrough =>
          refine h.withRole (.scanner (ht.modify fun p => ?_))
          split <;> simp_all [ScannerMaps.share, QuerySlots.get?_merge]
      | terminating => exact hflow
  | join ht =>
      cases kind with
      | flowThrough => exact hflow
      | terminating =>
          refine h.withRole (.join (ht.modify fun p => ?_))
          split <;> simp_all [JoinMaps.share, QuerySlots.slots_merge]
  | _ => exact hflow

/-- The same queries are registered. -/
theorem Holds.covers_eq (h : m.Holds w) (hq : q ∈ QuerySet.ids) :
    m.flows.covered.contains q = w.covers q := by
  rw [QuerySet.contains_eq hq, Waypoint.covers, h.flow_eq]
  rfl

/-- The same queries pass untouched. -/
theorem Holds.bypassed_eq (h : m.Holds w) (hq : q ∈ QuerySet.ids) :
    m.flows.bypassed.contains q = (w.flow q).bypassed := by
  rw [QuerySet.contains_eq hq, h.flow_eq]
  rfl

/-- What was emitted below is taken in alike, query after query. -/
theorem Holds.receive (h : m.Holds w) (kind : EdgeKind) {emitted : QuerySlots}
    (he : ∀ q ∈ emitted.keys, q ∈ QuerySet.ids) :
    (m.receive kind emitted).Holds (w.receive kind emitted) := by
  rw [WaypointMaps.receive, Waypoint.receive]
  rw [OrdMap.keys, List.forall_mem_map] at he
  generalize emitted.entries = l at he
  induction l generalizing m w with
  | nil => exact h
  | cons e rest ih =>
      obtain ⟨hq, he⟩ := List.forall_mem_cons.1 he
      rw [List.foldl_cons, List.foldl_cons, h.covers_eq hq]
      refine ih ?_ he
      split
      · exact h.receiveFor kind e.1 e.2
      · exact h

theorem Holds.checkUsed_eq (h : m.Holds w) (q : QueryId) (required available : SlotSet) :
    m.checkUsed q required available = w.checkUsed q required available := by
  rw [checkUsed, Waypoint.checkUsed, h.name]

/-- The same is emitted for a query, or the same is missing. -/
theorem Holds.emission_eq (h : m.Holds w) (hq : q ∈ QuerySet.ids) :
    m.emission q = w.emission q := by
  have hflow := h.flow_eq q
  have hbypassed := h.bypassed_eq hq
  have hused := h.checkUsed_eq q
  rw [emission, Waypoint.emission]
  obtain ⟨id, name, flows, role⟩ := m
  obtain ⟨_, _, _, r⟩ := w
  have hr := h.role
  cases hr with
  | join ht =>
      simp only [hbypassed, hused, hflow, ht q]
      rfl
  | _ =>
      simp only [hbypassed, hused, hflow]
      rfl

/-- What is emitted for listed queries. -/
theorem Holds.emitEach (h : m.Holds w) {l : List QueryId} (hl : ∀ q ∈ l, q ∈ QuerySet.ids) :
    (m.emitEach l).1.Holds (w.emitEach l).1 ∧ (m.emitEach l).2 = (w.emitEach l).2 := by
  induction l generalizing m w with
  | nil => exact ⟨h, rfl⟩
  | cons q rest ih =>
      obtain ⟨hq, hl⟩ := List.forall_mem_cons.1 hl
      rw [WaypointMaps.emitEach, Waypoint.emitEach, h.emission_eq hq]
      cases w.emission q with
      | error e => exact ⟨h, rfl⟩
      | ok slots =>
          have hset := h.modifyFlow (q := q) (f := ({ · with produced := slots })) fun _ =>
            FlowMaps.flow_setProduced slots
          obtain ⟨hrest, heq⟩ := ih hset hl
          exact ⟨hrest, congrArg (_ <$> ·) heq⟩

/-- The same queries are emitted for. -/
theorem Holds.lists_suppliers (h : m.Holds w) (q : QueryId) :
    m.suppliers.lists q = w.supplies q := by
  have hcovers : m.flows.covered.lists q = w.covers q := by
    rw [Waypoint.covers, h.flow_eq]
    rfl
  obtain ⟨id, name, flows, role⟩ := m
  obtain ⟨_, _, _, r⟩ := w
  have hr := h.role
  cases hr with
  | scanner ht => exact congrArg ScannerShare.reads (ht q).symm
  | _ => exact hcovers

/-- Checks that pass can be left out of a list. -/
theorem forM_eq_forM_filterMap {α β : Type} {l : List α} {k : α → Option β}
    {f : α → Except PlanError Unit} {g : β → Except PlanError Unit}
    (h : ∀ a ∈ l, f a = (k a).elim (.ok ()) g) : l.forM f = (l.filterMap k).forM g := by
  induction l with
  | nil => rfl
  | cons a rest ih =>
      obtain ⟨ha, hrest⟩ := List.forall_mem_cons.1 h
      have hcons : (a :: rest).forM f = f a >>= fun _ => (rest.filterMap k).forM g :=
        congrArg (f a >>= fun _ => ·) (ih hrest)
      rw [hcons, ha, List.filterMap_cons]
      cases k a <;> rfl

/-- A writer that is written down is checked, nothing else. -/
theorem Holds.checkWritten_eq (h : m.Holds w) {relation : String} {columns : SlotSet}
    {s : ScannerMaps} (hm : m.role = .scanner relation columns s) (q : QueryId) :
    w.checkWritten q = (s.writers.get? q).elim (.ok ()) fun slots =>
      m.checkUsed q slots (m.flows.down.slots q) := by
  have hused := h.checkUsed_eq q
  have hdown : (w.flow q).down = m.flows.down.slots q := by
    rw [h.flow_eq]
    rfl
  have hr := h.role
  rw [hm] at hr
  obtain ⟨_, _, _, r⟩ := w
  cases hr with
  | scanner ht =>
      simp only [Waypoint.checkWritten, ht q, ScannerMaps.share, hused, hdown]
      cases s.writers.get? q <;> rfl

/-- Something is kept for the writers that are written down. -/
theorem Holds.mem_queries_of_writer (h : m.Holds w) {relation : String} {columns : SlotSet}
    {s : ScannerMaps} (hm : m.role = .scanner relation columns s) (hq : q ∈ s.writers.keys) :
    q ∈ w.queries := by
  have hr := h.role
  rw [hm] at hr
  obtain ⟨_, _, _, r⟩ := w
  cases hr with
  | scanner ht =>
      refine Waypoint.mem_queries.2 (.inr (QueryTable.mem_queries_iff.2 fun hd => ?_))
      rw [ht q] at hd
      have hnone : s.writers.get? q = none := congrArg ScannerShare.writes hd
      rw [OrdMap.mem_keys_iff, hnone] at hq
      cases hq

/-- The writers that are written down are checked in the order of their ids, as the active
queries are. -/
theorem Holds.checkWriters_eq (h : m.Holds w) (hw : ∀ q ∈ w.queries, q ∈ QuerySet.ids)
    (active : QuerySet) : m.checkWriters active = active.toList.forM w.checkWritten := by
  cases hm : m.role with
  | scanner relation columns s =>
      have hcheck := h.checkWritten_eq hm
      have hleft (e : QueryId × SlotSet) (he : e ∈ s.writers.entries) :
          (if active.contains e.1 then m.checkUsed e.1 e.2 (m.flows.down.slots e.1) else .ok ()) =
            (if active.contains e.1 then some e.1 else none).elim (.ok ()) w.checkWritten := by
        split
        · rw [Option.elim_some, hcheck, OrdMap.get?_eq_some_iff.2 he]
          rfl
        · rfl
      have hright (q : QueryId) (_ : q ∈ active.toList) :
          w.checkWritten q =
            (if q ∈ s.writers.keys then some q else none).elim (.ok ()) w.checkWritten := by
        split
        · rfl
        · rw [hcheck]
          simp_all [OrdMap.mem_keys_iff]
      rw [checkWriters, hm]
      refine (forM_eq_forM_filterMap hleft).trans
        (Eq.trans ?_ (forM_eq_forM_filterMap hright).symm)
      congr 1
      refine OrdSet.eq_of_mem_iff ?_ ?_ fun q => ?_
      · exact s.writers.ascending.filterMap _ fun a a' ha b hb b' hb' => by grind
      · exact active.ascending_toList.filterMap _ fun a a' ha b hb b' hb' => by grind
      · have hmem : q ∈ s.writers.keys → q ∈ QuerySet.ids :=
          fun hq => hw q (h.mem_queries_of_writer hm hq)
        simp only [List.mem_filterMap, Option.ite_none_right_eq_some, Option.some.injEq]
        constructor
        · rintro ⟨e, he, hactive, rfl⟩
          have hkey : e.1 ∈ s.writers.keys := List.mem_map_of_mem he
          exact ⟨e.1, QuerySet.mem_toList.2 ⟨hactive, QuerySet.mem_ids.1 (hmem hkey)⟩, hkey, rfl⟩
        · rintro ⟨_, hactive, hkey, rfl⟩
          obtain ⟨e, he, rfl⟩ := List.mem_map.1 hkey
          exact ⟨e, he, (QuerySet.mem_toList.1 hactive).1, rfl⟩
  | _ =>
      have hr := h.role
      rw [hm] at hr
      rw [checkWriters, hm]
      obtain ⟨_, _, _, r⟩ := w
      cases hr
      exact (forM_eq_ok_iff.2 fun _ _ => rfl).symm

/-- The upward step does in place what it does on the records, and also where it fails. -/
theorem Holds.emit (h : m.Holds w) (hw : ∀ q ∈ w.queries, q ∈ QuerySet.ids) (active : QuerySet) :
    (m.emit active).1.Holds (w.emit active).1 ∧ (m.emit active).2 = (w.emit active).2 := by
  have hl : (m.suppliers ∩ active).toList = active.toList.filter w.supplies := by
    rw [QuerySet.toList, QuerySet.toList, List.filter_filter]
    refine List.filter_congr fun q hq => ?_
    rw [← h.lists_suppliers, Bool.eq_iff_iff, Bool.and_eq_true, ← QuerySet.contains_eq hq]
    exact QuerySet.mem_inter
  have hids (q : QueryId) (hq : q ∈ active.toList) : q ∈ QuerySet.ids := (List.mem_filter.1 hq).1
  obtain ⟨heach, heq⟩ := h.emitEach (l := active.toList.filter w.supplies) fun q hq =>
    hids q (List.mem_filter.1 hq).1
  have hknown (q : QueryId) (hq : q ∈ (w.emit active).1.queries) : q ∈ QuerySet.ids :=
    (Waypoint.mem_queries_of_emit hq).elim (hids q) (hw q)
  have hcheck := heach.checkWriters_eq hknown active
  have hpasses (emitted : QuerySlots) :
      (if (m.emitEach (active.toList.filter w.supplies)).1.role.kind.isSink then ∅ else emitted) =
        if (w.emitEach (active.toList.filter w.supplies)).1.passesOn then emitted else ∅ := by
    rw [heach.role.kind_eq, Waypoint.passesOn, Waypoint.kind]
    cases WaypointKind.isSink _ <;> rfl
  rw [WaypointMaps.emit, Waypoint.emit, hl]
  exact ⟨heach, by simp only [heq, hcheck, hpasses]⟩

/-! ### The downward step -/

/-- A demand passes alike. -/
theorem Holds.checkDemand_eq (h : m.Holds w) (q : QueryId) (needed : SlotSet) :
    m.checkDemand q needed = w.checkDemand q needed := by
  rw [checkDemand, Waypoint.checkDemand, h.name, h.flow_eq]
  rfl

/-- An exit is recorded in the one set or the other. -/
theorem Holds.recordExit (h : m.Holds w) (kind : EdgeKind) (e : QueryExit) :
    (m.recordExit kind e).Holds (w.recordExit kind e) :=
  h.modifyFlow fun _ => FlowMaps.flow_recordExit kind e

/-- The same attributes, and maps that tell the records. -/
def Answers (a : SlotSet × WaypointMaps) (b : SlotSet × Waypoint) : Prop :=
  a.1 = b.1 ∧ a.2.Holds b.2

/-- A demand is answered in place as on the records. -/
theorem Holds.ask (h : m.Holds w) (hq : q ∈ QuerySet.ids) (kind : EdgeKind) (needed : SlotSet)
    (x : WaypointId) :
    Agree Answers (m.ask kind q needed ⟨q, x⟩) (w.ask kind q needed ⟨q, x⟩) := by
  have hflow := h.flow_eq q
  have hbypassed := h.bypassed_eq hq
  have hcovers := h.covers_eq hq
  have hdemand := h.checkDemand_eq q needed
  have hexit := h.recordExit kind ⟨q, x⟩
  obtain ⟨id, name, flows, role⟩ := m
  obtain ⟨_, _, _, r⟩ := w
  have hr := h.role
  cases hr with
  | @scanner _ _ s t ht =>
      cases kind with
      | flowThrough =>
          have hreads : s.readers.contains q = (t.get q).reads := by
            rw [QuerySet.contains_eq hq, ht q]
            rfl
          simp only [WaypointMaps.ask, Waypoint.ask, Waypoint.askScan, hdemand, hreads]
          split
          · refine .bind_self _ fun _ => .ok ⟨rfl, Holds.recordExit (h.withRole (.scanner ?_)) _ _⟩
            refine ht.modify fun p => ?_
            rw [ScannerMaps.share_project, hflow, ht q]
            rfl
          · exact .ok ⟨rfl, h⟩
      | terminating =>
          have hwrites : (t.get q).writes = s.writers.get? q := congrArg ScannerShare.writes (ht q)
          simp only [WaypointMaps.ask, Waypoint.ask, hwrites]
          cases s.writers.get? q with
          | some slots => exact .ok ⟨rfl, hexit⟩
          | none => exact .ok ⟨rfl, h⟩
  | @join _ _ s t ht =>
      cases kind with
      | flowThrough =>
          simp only [WaypointMaps.ask, Waypoint.ask, Waypoint.askLeft, hdemand, hbypassed, hflow]
          refine .bind_self _ fun _ => ?_
          split
          · exact .ok ⟨rfl, hexit⟩
          · exact .ok ⟨rfl, hexit.withRole (.join (ht.modify fun _ => JoinMaps.share_lhsCopy))⟩
      | terminating =>
          simp only [WaypointMaps.ask, Waypoint.ask, Waypoint.askRight, hdemand, hbypassed, ht q]
          split
          · exact .ok ⟨rfl, h⟩
          · refine .bind_self _ fun _ => .ok ⟨rfl, hexit.withRole (.join (ht.modify fun _ => ?_))⟩
            exact JoinMaps.share_rhsCopy
  | textLoader | ingest =>
      simp only [WaypointMaps.ask, Waypoint.ask, hcovers, hdemand, Waypoint.covers]
      split
      · exact .bind_self _ fun _ => .ok ⟨rfl, hexit⟩
      · exact .ok ⟨rfl, hexit⟩
  | transform ht =>
      simp only [WaypointMaps.ask, Waypoint.ask, hdemand, hflow]
      refine .bind_self _ fun _ => .ok ⟨rfl, Holds.recordExit (h.withRole (.transform ?_)) _ _⟩
      refine ht.modify fun _ => ?_
      exact TransformMaps.share_passThrough
  | print | cluster =>
      simp only [WaypointMaps.ask, Waypoint.ask, hflow]
      exact .ok ⟨rfl, hexit⟩
  | _ =>
      simp only [WaypointMaps.ask, Waypoint.ask, hdemand, hbypassed, hflow]
      exact .bind_self _ fun _ => .ok ⟨rfl, hexit⟩

/-! ### What is published -/

/-- The exits of a waypoint are listed in their order. -/
theorem ascending_allExits (w : Waypoint) (kind : EdgeKind) :
    (w.allExits kind).Pairwise fun a b => compare a b = .lt := by
  have hcompare (a b : QueryExit) :
      compare a b = (compare a.query b.query).then (compare a.exit b.exit) := rfl
  rw [Waypoint.allExits, List.pairwise_flatMap]
  constructor
  · intro e _
    refine List.pairwise_map.2 ((OrdSet.ascending _).imp fun {a b} hab => ?_)
    rw [hcompare, Std.ReflOrd.compare_self (a := e.1)]
    exact hab
  · refine w.flows.stored.ascending.imp fun {a b} hab x hx y hy => ?_
    obtain ⟨_, _, rfl⟩ := List.mem_map.1 hx
    obtain ⟨_, _, rfl⟩ := List.mem_map.1 hy
    rw [hcompare, hab]
    rfl

/-- A set of the exits that a waypoint holds lists them as they are published. -/
theorem toList_eq_allExits {s : ExitSet} {kind : EdgeKind}
    (hs : ∀ e, w.holdsExit kind e = true ↔ e ∈ s) : s.toList = w.allExits kind :=
  OrdSet.eq_of_mem_iff s.ascending (ascending_allExits w kind) fun e =>
    (Waypoint.mem_allExits.trans (hs e)).symm

/-- The exits of either kind are listed alike. -/
theorem Holds.exits_eq (h : m.Holds w) : m.flows.exits.toList = w.allExits .flowThrough :=
  toList_eq_allExits fun e => by
    rw [Waypoint.holdsExit, h.flow_eq, decide_eq_true_iff]
    exact FlowMaps.mem_exitsOf

theorem Holds.terminatingExits_eq (h : m.Holds w) :
    m.flows.terminatingExits.toList = w.allExits .terminating :=
  toList_eq_allExits fun e => by
    rw [Waypoint.holdsExit, h.flow_eq, decide_eq_true_iff]
    exact FlowMaps.mem_exitsOf

/-- The same queries are published as registered. -/
theorem Holds.covered_eq (h : m.Holds w) : w.covered = m.flows.covered.toList :=
  h.flows.select_eq rfl fun _ => rfl

theorem Holds.bypassed_toList_eq (h : m.Holds w) : w.bypassed = m.flows.bypassed.toList :=
  h.flows.select_eq rfl fun _ => rfl

/-- A map over the registered queries is the same. -/
theorem Holds.perCovered_eq (h : m.Holds w) {slots : QuerySlots} {f : Flow → SlotSet}
    (hf : ∀ q, slots.slots q = f (m.flows.flow q)) : w.perCovered f = m.perCovered slots := by
  refine h.flows.collect_eq rfl fun q => ?_
  rw [perCovered, OrdMap.get?_ofList_map, hf]
  refine if_congr ?_ rfl rfl
  exact QuerySet.lists_iff.symm

/-- What is published is the same. -/
theorem Holds.config_eq (h : m.Holds w) : m.config = w.config := by
  have hcovered := h.covered_eq
  have hbypassed := h.bypassed_toList_eq
  have hsynthesized : w.perCovered (·.synthesized) = m.perCovered m.flows.synthesized :=
    h.perCovered_eq fun _ => rfl
  have hused : w.perCovered (·.used) = m.perCovered m.flows.used := h.perCovered_eq fun _ => rfl
  have hrole : m.roleConfig = w.roleConfig := by
    obtain ⟨id, name, flows, role⟩ := m
    obtain ⟨_, _, _, r⟩ := w
    have hr := h.role
    cases hr with
    | scanner ht =>
        simp only [roleConfig, Waypoint.roleConfig]
        congr 1
        · exact (ht.select_eq rfl fun _ => rfl).symm
        all_goals exact (ht.collect_eq rfl fun _ => rfl).symm
    | selection ht =>
        simp only [roleConfig, Waypoint.roleConfig, hbypassed]
        congr 1
        · exact (ht.collect_eq rfl fun _ => rfl).symm
        · exact (ht.collect_eq rfl fun _ => OrdMap.get?_mapValues ..).symm
    | join ht =>
        simp only [roleConfig, Waypoint.roleConfig, hbypassed]
        congr 1
        all_goals exact (ht.collect_eq rfl fun _ => rfl).symm
    | aggregate ht =>
        simp only [roleConfig, Waypoint.roleConfig, hsynthesized]
        congr 1
        · exact (ht.collect_eq rfl fun _ => rfl).symm
        · exact (ht.collect_eq rfl fun _ => rfl).symm
        · exact (ht.select_eq rfl fun _ => rfl).symm
    | transform ht =>
        simp only [roleConfig, Waypoint.roleConfig, hsynthesized]
        congr 1
        all_goals exact (ht.collect_eq rfl fun _ => rfl).symm
    | iterative ht =>
        simp only [roleConfig, Waypoint.roleConfig, hsynthesized]
        congr 1
        exact (ht.collect_eq rfl fun _ => rfl).symm
    | print ht =>
        simp only [roleConfig, Waypoint.roleConfig, hused]
        congr 1
        exact (ht.collect_eq rfl fun _ => rfl).symm
    | cache ht | compact ht =>
        simp only [roleConfig, Waypoint.roleConfig]
        congr 1
        exact (ht.select_eq rfl fun _ => rfl).symm
    | textLoader | ingest | cluster => simp only [roleConfig, Waypoint.roleConfig, hcovered]
  rw [config, Waypoint.config, h.id, h.name, h.exits_eq, h.terminatingExits_eq, hrole,
    h.role.kind_eq]
  rfl

end WaypointMaps

end SharedPlan
