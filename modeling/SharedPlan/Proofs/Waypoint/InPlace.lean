import SharedPlan.Proofs.Waypoint.Balance
import SharedPlan.Proofs.Waypoint.Operations

/-!
# SharedPlan.Proofs.Waypoint.InPlace

Waypoints changed in place, call after call.

Whatever is called on a waypoint, its maps answer as its records do, publish the same and hold
the same queries (`WaypointMaps.inPlace_runAll`).  That a map has an entry only where the records
have something is not plain: an entry may be empty.  It is there for queries that are
registered, and these are not forgotten before they are deleted (`WaypointMaps.Noted`).
-/

namespace SharedPlan

/-! ## Calls -/

/-- A call on a waypoint.  The queries that are handed in have ids of the universe. -/
inductive WaypointCall where
  | enrol (q : QueryId) (d : Duty) (hq : q ∈ QuerySet.ids)
  | deleteQuery (q : QueryId) (hq : q ∈ QuerySet.ids)
  | clear
  | beginCycle
  | receive (kind : EdgeKind) (emitted : QuerySlots) (hids : ∀ q ∈ emitted.keys, q ∈ QuerySet.ids)
  | emit (active : QuerySet)
  | ask (kind : EdgeKind) (q : QueryId) (needed : SlotSet) (x : WaypointId)
      (hq : q ∈ QuerySet.ids)

/-- What a call answers. -/
inductive WaypointAnswer where
  | done
  | emitted (result : Except PlanError QuerySlots)
  | demanded (result : Except PlanError SlotSet)

namespace Waypoint

/-- The waypoint after a call, and the answer.  A failed demand changes nothing. -/
def perform (w : Waypoint) : WaypointCall → Waypoint × WaypointAnswer
  | .enrol q d _ => (w.enrol q d, .done)
  | .deleteQuery q _ => (w.deleteQuery q, .done)
  | .clear => (w.clear, .done)
  | .beginCycle => (w.beginCycle, .done)
  | .receive kind emitted _ => (w.receive kind emitted, .done)
  | .emit active => ((w.emit active).1, .emitted (w.emit active).2)
  | .ask kind q needed x _ =>
    match w.ask kind q needed ⟨q, x⟩ with
    | .ok (below, v) => (v, .demanded (.ok below))
    | .error e => (w, .demanded (.error e))

/-- The waypoint after a sequence of calls, and what they answer. -/
def runAll (w : Waypoint) : List WaypointCall → Waypoint × List WaypointAnswer
  | [] => (w, [])
  | c :: rest =>
    let (v, answers) := (w.perform c).1.runAll rest
    (v, (w.perform c).2 :: answers)

end Waypoint

namespace WaypointMaps

/-- The waypoint after a call, and the answer.  A failed demand changes nothing. -/
def perform (m : WaypointMaps) : WaypointCall → WaypointMaps × WaypointAnswer
  | .enrol q d _ => (m.enrol q d, .done)
  | .deleteQuery q _ => (m.deleteQuery q, .done)
  | .clear => (m.clear, .done)
  | .beginCycle => (m.beginCycle, .done)
  | .receive kind emitted _ => (m.receive kind emitted, .done)
  | .emit active => ((m.emit active).1, .emitted (m.emit active).2)
  | .ask kind q needed x _ =>
    match m.ask kind q needed ⟨q, x⟩ with
    | .ok (below, n) => (n, .demanded (.ok below))
    | .error e => (m, .demanded (.error e))

/-- The waypoint after a sequence of calls, and what they answer. -/
def runAll (m : WaypointMaps) : List WaypointCall → WaypointMaps × List WaypointAnswer
  | [] => (m, [])
  | c :: rest =>
    let (n, answers) := (m.perform c).1.runAll rest
    (n, (m.perform c).2 :: answers)

end WaypointMaps

/-! ## Entries are those of registered queries -/

section Noted

variable {f : FlowMaps} {q r : QueryId} {s : SlotSet}

namespace FlowMaps

/-- The queries with an entry that may be empty. -/
def entered (f : FlowMaps) : List QueryId :=
  f.used.keys ++ f.pending.keys ++ f.down.keys ++ f.synthesized.keys ++ f.produced.keys

/-- The entries that may be empty are those of registered queries. -/
def Noted (f : FlowMaps) : Prop := ∀ q ∈ f.entered, q ∈ f.covered.toList

theorem noted_empty : Noted empty := by
  intro q h
  cases h

/-- Taking a query in makes no entry. -/
theorem Noted.cover (h : f.Noted) (hq : q ∈ QuerySet.ids) : (f.cover q).Noted := fun r hr =>
  (QuerySet.mem_toList_insert hq).2 (.inr (h r hr))

theorem Noted.bypass (h : f.Noted) (hq : q ∈ QuerySet.ids) : (f.bypass q).Noted := fun r hr =>
  (QuerySet.mem_toList_insert hq).2 (.inr (h r hr))

/-- An entry is made for a query that is taken in. -/
theorem Noted.require (h : f.Noted) (hq : q ∈ QuerySet.ids) : (f.require q s).Noted := by
  intro r hr
  have := h r
  simp only [entered, FlowMaps.require, List.mem_append, QuerySlots.mem_keys_merge] at hr this ⊢
  rw [QuerySet.mem_toList_insert hq]
  tauto

theorem Noted.synthesize (h : f.Noted) (hq : q ∈ QuerySet.ids) : (f.synthesize q s).Noted := by
  intro r hr
  have := h r
  simp only [entered, FlowMaps.synthesize, List.mem_append, QuerySlots.mem_keys_merge] at hr this ⊢
  rw [QuerySet.mem_toList_insert hq]
  tauto

/-- Queries that are not registered are left out. -/
theorem Noted.receive (h : f.Noted) (hq : q ∈ f.covered.toList) : (f.receive q s).Noted := by
  intro r hr
  have := h r
  simp only [entered, FlowMaps.receive, List.mem_append, QuerySlots.mem_keys_merge] at hr this ⊢
  rcases eq_or_ne r q with rfl | hrq
  · exact hq
  · tauto

/-- They are emitted for a registered query. -/
theorem Noted.setProduced (h : f.Noted) (hq : q ∈ f.covered.toList) :
    (f.setProduced q s).Noted := by
  intro r hr
  have := h r
  simp only [entered, FlowMaps.setProduced, List.mem_append, OrdMap.mem_keys_insert] at hr this ⊢
  rcases eq_or_ne r q with rfl | hrq
  · exact hq
  · tauto

theorem Noted.recordExit (h : f.Noted) (kind : EdgeKind) (e : QueryExit) :
    (f.recordExit kind e).Noted := by
  cases kind <;> exact h

/-- Folding entries in keeps their keys. -/
theorem mem_keys_foldl_merge (l : List (QueryId × SlotSet)) (used : QuerySlots) :
    q ∈ (l.foldl (fun used e => used.merge e.1 e.2) used).keys ↔
      q ∈ used.keys ∨ q ∈ l.map (·.1) := by
  induction l generalizing used with
  | nil => simp
  | cons e rest ih =>
      rw [List.foldl_cons, ih, QuerySlots.mem_keys_merge, List.map_cons, List.mem_cons]
      tauto

/-- Every used entry was used or pending before. -/
theorem Noted.beginCycle (h : f.Noted) : f.beginCycle.Noted := by
  intro q hq
  refine h q ?_
  have hnone : (∅ : QuerySlots).keys = [] := rfl
  have hpending : f.pending.entries.map (·.1) = f.pending.keys := rfl
  simp only [entered, FlowMaps.beginCycle, List.mem_append, mem_keys_foldl_merge, hnone, hpending,
    List.not_mem_nil, or_false] at hq ⊢
  tauto

/-- The entries go with the registration. -/
theorem Noted.deleteQuery (h : f.Noted) (hq : q ∈ QuerySet.ids) : (f.deleteQuery q).Noted := by
  intro r hr
  have := h r
  simp only [entered, FlowMaps.deleteQuery, List.mem_append, OrdMap.mem_keys_erase,
    QuerySet.mem_toList_erase hq] at hr this ⊢
  tauto

end FlowMaps

/-- The queries with an entry that may be empty, in the maps of a role. -/
def RoleMaps.entered : RoleMaps → List QueryId
  | .join _ _ m => m.arrived.keys
  | _ => []

namespace WaypointMaps

variable {m : WaypointMaps} {w : Waypoint}

/-- The entries that may be empty are those of registered queries. -/
structure Noted (m : WaypointMaps) : Prop where
  flows : m.flows.Noted
  role : ∀ q ∈ m.role.entered, q ∈ m.flows.covered.toList

/-- A new waypoint has no entries. -/
theorem noted_fresh (id : WaypointId) (name : String) (r : Role) :
    (fresh id name (.ofRole r)).Noted where
  flows := FlowMaps.noted_empty
  role q hq := by cases r <;> cases hq

/-- What registering changes of the common maps. -/
theorem flows_enrol_induction {P : FlowMaps → Prop} (keep : P m.flows)
    (cover : ∀ f, P f → P (f.cover q)) (bypass : ∀ f, P f → P (f.bypass q))
    (require : ∀ f s, P f → P (f.require q s)) (synthesize : ∀ f s, P f → P (f.synthesize q s))
    (d : Duty) : P (m.enrol q d).flows := by
  unfold WaypointMaps.enrol
  split <;>
    first
    | exact keep
    | exact cover _ keep
    | exact bypass _ keep
    | exact require _ _ keep
    | exact synthesize _ _ keep
    | exact synthesize _ _ (require _ _ keep)

/-- Registering takes the query in wherever it makes an entry for it. -/
theorem Noted.enrol (h : m.Noted) (hq : q ∈ QuerySet.ids) (d : Duty) : (m.enrol q d).Noted := by
  have hrole : (m.enrol q d).role.entered = m.role.entered := by
    unfold WaypointMaps.enrol
    split <;> simp_all [RoleMaps.entered]
  have hinsert {s : QuerySet} {r : QueryId} (hr : r ∈ s.toList) : r ∈ (s.insert q).toList :=
    (QuerySet.mem_toList_insert hq).2 (.inr hr)
  have hcovered : ∀ r ∈ m.flows.covered.toList, r ∈ (m.enrol q d).flows.covered.toList :=
    flows_enrol_induction (P := fun f => ∀ r ∈ m.flows.covered.toList, r ∈ f.covered.toList)
      (fun _ hr => hr) (fun _ hf r hr => hinsert (hf r hr)) (fun _ hf r hr => hinsert (hf r hr))
      (fun _ _ hf r hr => hinsert (hf r hr)) (fun _ _ hf r hr => hinsert (hf r hr)) d
  have hflows : (m.enrol q d).flows.Noted :=
    flows_enrol_induction (P := FlowMaps.Noted) h.flows (fun _ hf => hf.cover hq)
      (fun _ hf => hf.bypass hq) (fun _ _ hf => hf.require hq) (fun _ _ hf => hf.synthesize hq) d
  exact ⟨hflows, fun r hr => hcovered r (h.role r (hrole ▸ hr))⟩

theorem Noted.beginCycle (h : m.Noted) : m.beginCycle.Noted where
  flows := h.flows.beginCycle
  role q hq := by
    rw [WaypointMaps.beginCycle] at hq
    cases hr : m.role <;> rw [hr] at hq <;> cases hq

theorem Noted.deleteQuery (h : m.Noted) (hq : q ∈ QuerySet.ids) : (m.deleteQuery q).Noted where
  flows := h.flows.deleteQuery hq
  role r hr := by
    refine (QuerySet.mem_toList_erase hq).2 ?_
    cases hrole : m.role with
    | join columns keys s =>
        rw [WaypointMaps.deleteQuery, hrole] at hr
        obtain ⟨hne, hr⟩ := OrdMap.mem_keys_erase.1 hr
        exact ⟨hne, h.role r (by rw [hrole]; exact hr)⟩
    | _ =>
        rw [WaypointMaps.deleteQuery, hrole] at hr
        cases hr

theorem Noted.clear (m : WaypointMaps) : m.clear.Noted where
  flows := FlowMaps.noted_empty
  role q hq := by
    rw [WaypointMaps.clear] at hq
    cases hr : m.role <;> rw [hr] at hq <;> cases hq

/-- What arrives for a registered query may be kept by a join. -/
theorem Noted.receiveFor (h : m.Noted) (hq : q ∈ m.flows.covered.toList) (kind : EdgeKind)
    (slots : SlotSet) : (m.receiveFor kind q slots).Noted := by
  obtain ⟨id, name, flows, role⟩ := m
  have hflow : Noted ⟨id, name, flows.receive q slots, role⟩ := ⟨h.flows.receive hq, h.role⟩
  cases role with
  | scanner => cases kind <;> first | exact ⟨h.flows, h.role⟩ | exact hflow
  | join =>
      cases kind with
      | flowThrough => exact hflow
      | terminating =>
          refine ⟨h.flows, fun r hr => ?_⟩
          rcases QuerySlots.mem_keys_merge.1 hr with rfl | hr
          · exact hq
          · exact h.role r hr
  | _ => exact hflow

theorem Noted.receive (h : m.Noted) (kind : EdgeKind) {emitted : QuerySlots}
    (he : ∀ q ∈ emitted.keys, q ∈ QuerySet.ids) : (m.receive kind emitted).Noted := by
  rw [WaypointMaps.receive]
  rw [OrdMap.keys, List.forall_mem_map] at he
  generalize emitted.entries = l at he
  induction l generalizing m with
  | nil => exact h
  | cons e rest ih =>
      obtain ⟨hq, he⟩ := List.forall_mem_cons.1 he
      rw [List.foldl_cons]
      refine ih ?_ he
      split
      · rename_i hcovers
        exact h.receiveFor (QuerySet.mem_toList.2 ⟨hcovers, QuerySet.mem_ids.1 hq⟩) kind e.2
      · exact h

theorem Noted.emitEach (h : m.Noted) {l : List QueryId} (hl : ∀ q ∈ l, q ∈ m.flows.covered.toList) :
    (m.emitEach l).1.Noted := by
  induction l generalizing m with
  | nil => exact h
  | cons q rest ih =>
      obtain ⟨hq, hl⟩ := List.forall_mem_cons.1 hl
      rw [WaypointMaps.emitEach]
      cases m.emission q with
      | error e => exact h
      | ok slots =>
          have hset : Noted { m with flows := m.flows.setProduced q slots } :=
            ⟨h.flows.setProduced hq, h.role⟩
          exact ih hset hl

/-- An upward step emits for registered queries only. -/
theorem Noted.emit (h : m.Noted) (hs : ∀ q ∈ m.suppliers.toList, q ∈ m.flows.covered.toList)
    (active : QuerySet) : (m.emit active).1.Noted :=
  h.emitEach fun q hq => by
    obtain ⟨hq, hlt⟩ := QuerySet.mem_toList.1 hq
    exact hs q (QuerySet.mem_toList.2 ⟨(QuerySet.mem_inter.1 hq).1, hlt⟩)

theorem Noted.recordExit (h : m.Noted) (kind : EdgeKind) (e : QueryExit) :
    (m.recordExit kind e).Noted where
  flows := h.flows.recordExit kind e
  role := by cases kind <;> exact h.role

/-- What holds of the maps behind an answer, if there is one. -/
def Leaves (P : WaypointMaps → Prop) (a : Except PlanError (SlotSet × WaypointMaps)) : Prop :=
  ∀ needed n, a = .ok (needed, n) → P n

theorem leaves_ok {P : WaypointMaps → Prop} (needed : SlotSet) (h : P m) :
    Leaves P (.ok (needed, m)) := fun _ _ hn => by
  cases hn
  exact h

theorem Leaves.checked {P : WaypointMaps → Prop} {x : Except PlanError Unit}
    {a : Except PlanError (SlotSet × WaypointMaps)} (h : Leaves P a) :
    Leaves P (x >>= fun _ => a) := by
  cases x with
  | error e =>
      intro _ _ hn
      cases hn
  | ok _ => exact h

/-- Answering a demand makes no entry that may be empty. -/
theorem Noted.ask (h : m.Noted) (kind : EdgeKind) (q : QueryId) (needed : SlotSet)
    (e : QueryExit) : Leaves Noted (m.ask kind q needed e) := by
  have hexit := h.recordExit kind e
  obtain ⟨id, name, flows, role⟩ := m
  cases role with
  | scanner =>
      cases kind with
      | flowThrough =>
          simp only [WaypointMaps.ask]
          split
          · exact (leaves_ok _ ⟨hexit.flows, hexit.role⟩).checked
          · exact leaves_ok _ h
      | terminating =>
          simp only [WaypointMaps.ask]
          split
          · exact leaves_ok _ hexit
          · exact leaves_ok _ h
  | join =>
      cases kind with
      | flowThrough =>
          simp only [WaypointMaps.ask]
          refine .checked ?_
          split
          · exact leaves_ok _ hexit
          · exact leaves_ok _ ⟨hexit.flows, hexit.role⟩
      | terminating =>
          simp only [WaypointMaps.ask]
          split
          · exact leaves_ok _ h
          · exact (leaves_ok _ ⟨hexit.flows, hexit.role⟩).checked
  | textLoader | ingest =>
      simp only [WaypointMaps.ask]
      split
      · exact (leaves_ok _ hexit).checked
      · exact leaves_ok _ hexit
  | transform => exact (leaves_ok _ ⟨hexit.flows, hexit.role⟩).checked
  | print | cluster => exact leaves_ok _ hexit
  | _ => exact (leaves_ok _ hexit).checked

end WaypointMaps

end Noted

/-! ## The queries that occur -/

section Queries

variable {q : QueryId}

/-- A query occurs in exits when it has some. -/
theorem FlowMaps.mem_exits_iff {s : ExitSet} : q ∈ s.toList.map (·.query) ↔ exitsOf s q ≠ ∅ := by
  rw [List.mem_map]
  constructor
  · rintro ⟨e, he, rfl⟩ hempty
    exact OrdSet.not_mem_empty e.exit (hempty ▸ mem_exitsOf.2 he)
  · intro hne
    by_contra hnot
    refine hne (OrdSet.ext fun x => iff_of_false (fun hx => ?_) (OrdSet.not_mem_empty x))
    exact hnot ⟨_, mem_exitsOf.1 hx, rfl⟩

/-- A query occurs in the common maps where its record has something. -/
theorem FlowMaps.Noted.mem_queries_iff {f : FlowMaps} (h : f.Noted) :
    q ∈ f.queries ↔ f.flow q ≠ default := by
  have hqueries : q ∈ f.queries ↔ f.covered.lists q = true ∨ f.bypassed.lists q = true ∨
      q ∈ f.entered ∨ exitsOf f.exits q ≠ ∅ ∨ exitsOf f.terminatingExits q ≠ ∅ := by
    simp only [queries, entered, List.mem_append, mem_exits_iff, QuerySet.lists_iff, or_assoc]
  rw [hqueries]
  constructor
  · intro hq hd
    have hcovered : f.covered.lists q = false := congrArg Flow.covered hd
    have hbypassed : f.bypassed.lists q = false := congrArg Flow.bypassed hd
    rw [hcovered, hbypassed] at hq
    rcases hq with hq | hq | hq | hq | hq
    · cases hq
    · cases hq
    · exact Bool.false_ne_true (hcovered.symm.trans (QuerySet.lists_iff.2 (h q hq)))
    · exact hq (congrArg Flow.exits hd)
    · exact hq (congrArg Flow.terminatingExits hd)
  · contrapose!
    rintro ⟨hcovered, hbypassed, hentered, hexits, hterminating⟩
    simp only [entered, List.mem_append, not_or] at hentered
    obtain ⟨⟨⟨⟨hused, hpending⟩, hdown⟩, hsynthesized⟩, hproduced⟩ := hentered
    rw [ne_eq, Bool.not_eq_true] at hcovered hbypassed
    have hnone {m : QuerySlots} (hm : q ∉ m.keys) := QuerySlots.slots_of_not_mem_keys hm
    rw [flow, hcovered, hbypassed, hexits, hterminating, hnone hused, hnone hpending, hnone hdown,
      hnone hsynthesized, hnone hproduced]
    rfl

/-- A query occurs in the maps of a scanner where its share tells something. -/
theorem ScannerMaps.mem_queries_iff {m : ScannerMaps} : q ∈ m.queries ↔ m.share q ≠ default := by
  have hdefault : (default : ScannerShare) = ⟨false, none, none, none, none, none⟩ := rfl
  simp only [queries, share, hdefault, List.mem_append, OrdMap.mem_keys_iff, ← QuerySet.lists_iff,
    Option.isSome_iff_ne_none, ne_eq, ScannerShare.mk.injEq]
  grind

theorem SelectionMaps.mem_queries_iff {m : SelectionMaps} :
    q ∈ m.queries ↔ m.share q ≠ default := by
  have hdefault : (default : SelectionShare) = ⟨none, none⟩ := rfl
  simp only [queries, share, hdefault, List.mem_append, OrdMap.mem_keys_iff,
    Option.isSome_iff_ne_none, ne_eq, SelectionShare.mk.injEq]
  grind

theorem AggregateMaps.mem_queries_iff {m : AggregateMaps} :
    q ∈ m.queries ↔ m.share q ≠ default := by
  have hdefault : (default : AggregateShare) = ⟨none, none, false⟩ := rfl
  simp only [queries, share, hdefault, List.mem_append, OrdMap.mem_keys_iff, ← QuerySet.lists_iff,
    Option.isSome_iff_ne_none, ne_eq, AggregateShare.mk.injEq]
  grind

theorem TransformMaps.mem_queries_iff {m : TransformMaps} :
    q ∈ m.queries ↔ m.share q ≠ default := by
  have hdefault : (default : TransformShare) = ⟨none, none, none⟩ := rfl
  simp only [queries, share, hdefault, List.mem_append, OrdMap.mem_keys_iff,
    Option.isSome_iff_ne_none, ne_eq, TransformShare.mk.injEq]
  grind

/-- What arrived may be nothing. -/
theorem JoinMaps.mem_queries_or_iff {m : JoinMaps} :
    q ∈ m.queries ↔ m.share q ≠ default ∨ q ∈ m.arrived.keys := by
  have hdefault : (default : JoinShare) = ⟨none, none, none, ∅, none, none⟩ := rfl
  have harrived : m.arrived.slots q ≠ ∅ → q ∈ m.arrived.keys := fun h => by
    by_contra hnot
    exact h (QuerySlots.slots_of_not_mem_keys hnot)
  simp only [queries, share, hdefault, List.mem_append, OrdMap.mem_keys_iff,
    Option.isSome_iff_ne_none, ne_eq, JoinShare.mk.injEq] at harrived ⊢
  grind

/-- A query occurs in the maps of a role where the tables have something, and may occur where
it has an entry that may be empty. -/
theorem RoleMaps.Holds.mem_queries_iff {m : RoleMaps} {r : Role} (h : m.Holds r) :
    q ∈ m.queries ↔ q ∈ r.queries ∨ q ∈ m.entered := by
  have hkeys {β : Type} [DecidableEq β] {t : QueryTable (Option β)} {s : OrdMap QueryId β}
      (ht : t.Tells s.get?) : q ∈ s.keys ↔ q ∈ t.queries := by
    rw [QueryTable.mem_queries_iff, ht q, OrdMap.mem_keys_iff, Option.isSome_iff_ne_none]
    rfl
  have hlists {t : QueryTable Bool} {s : QuerySet} (ht : t.Tells s.lists) :
      q ∈ s.toList ↔ q ∈ t.queries := by
    rw [QueryTable.mem_queries_iff, ht q, ← QuerySet.lists_iff]
    cases s.lists q <;> decide
  cases h with
  | join ht =>
      rw [queries, JoinMaps.mem_queries_or_iff, Role.queries, QueryTable.mem_queries_iff, ht q]
      rfl
  | scanner ht =>
      rw [queries, ScannerMaps.mem_queries_iff, Role.queries, QueryTable.mem_queries_iff, ht q]
      exact (or_iff_left List.not_mem_nil).symm
  | selection ht =>
      rw [queries, SelectionMaps.mem_queries_iff, Role.queries, QueryTable.mem_queries_iff, ht q]
      exact (or_iff_left List.not_mem_nil).symm
  | aggregate ht =>
      rw [queries, AggregateMaps.mem_queries_iff, Role.queries, QueryTable.mem_queries_iff, ht q]
      exact (or_iff_left List.not_mem_nil).symm
  | transform ht =>
      rw [queries, TransformMaps.mem_queries_iff, Role.queries, QueryTable.mem_queries_iff, ht q]
      exact (or_iff_left List.not_mem_nil).symm
  | iterative ht | print ht => exact (hkeys ht).trans (or_iff_left List.not_mem_nil).symm
  | cache ht | compact ht => exact (hlists ht).trans (or_iff_left List.not_mem_nil).symm
  | textLoader | ingest | cluster => exact (or_iff_left List.not_mem_nil).symm

/-- A query occurs in some map where something is kept for it. -/
theorem WaypointMaps.Holds.mem_queries_iff {m : WaypointMaps} {w : Waypoint} (h : m.Holds w)
    (hn : m.Noted) : q ∈ m.queries ↔ q ∈ w.queries := by
  have hflows : q ∈ m.flows.queries ↔ q ∈ w.flows.queries := by
    rw [hn.flows.mem_queries_iff, QueryTable.mem_queries_iff, h.flows q]
  have hentered : q ∈ m.role.entered → q ∈ w.flows.queries := fun hq => by
    rw [← hflows]
    simp only [FlowMaps.queries, List.mem_append, hn.role q hq, true_or]
  rw [queries, List.mem_append, hflows, h.role.mem_queries_iff, Waypoint.mem_queries, ← or_assoc]
  exact or_iff_left_of_imp fun hq => .inl (hentered hq)

end Queries

/-! ## Runs -/

/-- Clearing twice clears. -/
theorem Role.clear_clear (r : Role) : r.clear.clear = r.clear := by
  cases r <;> rfl

namespace WaypointMaps

variable {m : WaypointMaps} {w : Waypoint}

/-- Maps changed in place beside the records that they tell. -/
structure Follows (m : WaypointMaps) (w : Waypoint) : Prop where
  holds : m.Holds w
  noted : m.Noted
  made : w.Made
  /-- Something is kept for queries of the universe only. -/
  proper : ∀ q ∈ w.queries, q ∈ QuerySet.ids

/-- A new waypoint keeps as little in place as on the records. -/
theorem follows_fresh (id : WaypointId) (name : String) (r : Role) :
    (fresh id name (.ofRole r)).Follows (.fresh id name r.clear) where
  holds := holds_fresh id name (RoleMaps.holds_ofRole r)
  noted := noted_fresh id name r
  made := .fresh id name r.clear_clear
  proper q hq := by
    rw [Waypoint.queries_fresh id name r.clear_clear] at hq
    cases hq

/-- Every call does in place what it does on the records. -/
theorem Follows.perform (h : m.Follows w) (c : WaypointCall) :
    (m.perform c).1.Follows (w.perform c).1 ∧ (m.perform c).2 = (w.perform c).2 := by
  obtain ⟨hholds, hnoted, hmade, hproper⟩ := h
  cases c with
  | enrol q d hq =>
      refine ⟨⟨hholds.enrol hq d, hnoted.enrol hq d, hmade.step (.enrol q d), fun r hr => ?_⟩, rfl⟩
      exact (Waypoint.mem_queries_of_enrol hr).elim (fun e => e ▸ hq) (hproper r)
  | deleteQuery q hq =>
      refine ⟨⟨hholds.deleteQuery hq, hnoted.deleteQuery hq, hmade.step (.deleteQuery q),
        fun r hr => ?_⟩, rfl⟩
      exact hproper r (Waypoint.mem_queries_deleteQuery.1 hr).2
  | clear =>
      refine ⟨⟨hholds.clear, .clear m, hmade.step .clear, fun r hr => ?_⟩, rfl⟩
      rw [Waypoint.perform, Waypoint.queries_clear] at hr
      cases hr
  | beginCycle =>
      exact ⟨⟨hholds.beginCycle, hnoted.beginCycle, hmade.step .beginCycle,
        fun r hr => hproper r (Waypoint.mem_queries_of_beginCycle hr)⟩, rfl⟩
  | receive kind emitted hids =>
      exact ⟨⟨hholds.receive kind hids, hnoted.receive kind hids,
        hmade.step (.receive kind emitted),
        fun r hr => hproper r (Waypoint.mem_queries_of_receive hr)⟩, rfl⟩
  | emit active =>
      obtain ⟨hemit, heq⟩ := hholds.emit hproper active
      refine ⟨⟨hemit, ?_, hmade.step (.emit active), fun r hr => ?_⟩, congrArg _ heq⟩
      · refine hnoted.emit (fun q hq => ?_) active
        rw [← QuerySet.lists_iff, hholds.lists_suppliers] at hq
        have hcovers := hmade.sound.covers_of_supplies hq
        rw [Waypoint.covers, hholds.flow_eq] at hcovers
        exact QuerySet.lists_iff.1 hcovers
      · exact (Waypoint.mem_queries_of_emit hr).elim (fun hr => (List.mem_filter.1 hr).1)
          (hproper r)
  | ask kind q needed x hq =>
      have hask := hholds.ask hq kind needed x
      have hleaves := hnoted.ask kind q needed ⟨q, x⟩
      simp only [WaypointMaps.perform, Waypoint.perform]
      rcases hm : m.ask kind q needed ⟨q, x⟩ with e | ⟨below, n⟩ <;>
        rcases hw : w.ask kind q needed ⟨q, x⟩ with e' | ⟨below', v⟩ <;>
        rw [hm, hw] at hask <;> cases hask
      · exact ⟨⟨hholds, hnoted, hmade, hproper⟩, rfl⟩
      · obtain ⟨rfl, hn⟩ := ‹Answers _ _›
        refine ⟨⟨hn, hleaves _ _ hm, hmade.step (.ask hw), fun r hr => ?_⟩, rfl⟩
        exact (Waypoint.mem_queries_of_ask hw hr).elim (fun e => e ▸ hq) (hproper r)

/-- So does every sequence of calls. -/
theorem Follows.runAll (h : m.Follows w) (calls : List WaypointCall) :
    (m.runAll calls).1.Follows (w.runAll calls).1 ∧ (m.runAll calls).2 = (w.runAll calls).2 := by
  induction calls generalizing m w with
  | nil => exact ⟨h, rfl⟩
  | cons c rest ih =>
      obtain ⟨hstep, hanswer⟩ := h.perform c
      obtain ⟨hrest, hanswers⟩ := ih hstep
      exact ⟨hrest, congrArg₂ _ hanswer hanswers⟩

/-- **Waypoints in place.**  Whatever is called on a waypoint, one that keeps a map for each thing
and changes these one after another answers what one that keeps a record for each query answers.
Behind the calls both publish the same, and the same queries occur in them. -/
theorem inPlace_runAll (id : WaypointId) (name : String) (r : Role) (calls : List WaypointCall) :
    let m := (fresh id name (.ofRole r)).runAll calls
    let w := (Waypoint.fresh id name r.clear).runAll calls
    m.2 = w.2 ∧ m.1.Holds w.1 ∧ m.1.config = w.1.config ∧
      ∀ q, q ∈ m.1.queries ↔ q ∈ w.1.queries := by
  intro m w
  obtain ⟨hfollows, hanswers⟩ := (follows_fresh id name r).runAll calls
  exact ⟨hanswers, hfollows.holds, hfollows.holds.config_eq,
    fun q => hfollows.holds.mem_queries_iff hfollows.noted⟩

end WaypointMaps

end SharedPlan
