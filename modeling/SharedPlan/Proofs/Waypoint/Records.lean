import SharedPlan.Proofs.Waypoint.Maps

/-!
# SharedPlan.Proofs.Waypoint.Records

The records that the maps of a waypoint amount to.

A map or a word tells one field of the record of each query, so the common maps together tell
the common record (`FlowMaps.flow`) and the maps of a role what the role keeps for the query
(`ScannerMaps.share` and so on).  `RoleMaps.Holds` says that they tell the tables of a given
`Role`.  For each change of the maps there is one lemma that says which records it changes, and
how.
-/

namespace SharedPlan

/-! ## Tables -/

namespace QueryTable

variable {β γ : Type} [Inhabited β] [DecidableEq β] {t : QueryTable β} {f f' : QueryId → β}
  {g : β → β} {q : QueryId}

/-- The records of a table are those that a function gives. -/
def Tells (t : QueryTable β) (f : QueryId → β) : Prop := ∀ q, t.get q = f q

/-- Giving a query a record changes what a table tells at this query. -/
theorem Tells.set {b : β} (h : t.Tells f) (hf : ∀ r, f' r = if r = q then b else f r) :
    (t.set q b).Tells f' := fun r => by
  rw [get_set, hf, h]

/-- So does changing its record. -/
theorem Tells.modify (h : t.Tells f) (hf : ∀ r, f' r = if r = q then g (f q) else f r) :
    (t.modify q g).Tells f' :=
  h.set fun r => by rw [hf, h]

/-- So does forgetting it. -/
theorem Tells.forget (h : t.Tells f) (hf : ∀ r, f' r = if r = q then default else f r) :
    (t.forget q).Tells f' :=
  h.set hf

/-- Changing every record changes what a table tells everywhere. -/
theorem Tells.mapAll (h : t.Tells f) (hg : g default = default) (hf : ∀ r, f' r = g (f r)) :
    (t.mapAll g).Tells f' := fun r => by
  rw [get_mapAll hg, hf, h]

/-- A map collected from a table is one with the same look-ups. -/
theorem Tells.collect_eq (h : t.Tells f) {p : β → Option γ} {m : OrdMap QueryId γ}
    (hp : p default = none) (hm : ∀ q, m.get? q = p (f q)) : t.collect p = m := by
  ext1 q
  rw [collect, OrdMap.get?_filterMap, get?_stored, hm, h]
  split
  · rename_i hd
    rw [hd, hp]
    rfl
  · rfl

end QueryTable

namespace QuerySet

variable {s : QuerySet} {q r : QueryId}

/-- Whether a query is among the members that are listed; these have ids of the universe. -/
def lists (s : QuerySet) (q : QueryId) : Bool := q ∈ s.toList

theorem lists_iff : s.lists q = true ↔ q ∈ s.toList := decide_eq_true_iff

theorem lists_empty : lists ∅ q = false := by
  simp [lists, mem_toList]

/-- An inserted query is listed besides those that were. -/
theorem lists_insert (hq : q ∈ ids) : (s.insert q).lists r = if r = q then true else s.lists r := by
  rw [Bool.eq_iff_iff, lists_iff, mem_toList_insert hq]
  split <;> simp_all [lists_iff]

/-- An erased query is listed no more. -/
theorem lists_erase (hq : q ∈ ids) : (s.erase q).lists r = if r = q then false else s.lists r := by
  rw [Bool.eq_iff_iff, lists_iff, mem_toList_erase hq]
  split <;> simp_all [lists_iff]

/-- Below 64, a query is contained when it is listed. -/
theorem contains_eq (hq : q ∈ ids) : s.contains q = s.lists q := by
  rw [Bool.eq_iff_iff, lists_iff, mem_toList, ← mem_def]
  exact (and_iff_left (mem_ids.1 hq)).symm

theorem ascending_ids : ids.Pairwise fun a b => compare a b = .lt := by
  decide

/-- The members are listed in the order of their ids. -/
theorem ascending_toList (s : QuerySet) : s.toList.Pairwise fun a b => compare a b = .lt :=
  ascending_ids.filter _

end QuerySet

/-- The queries selected from a table are listed like a set of the same members. -/
theorem QueryTable.Tells.select_eq {β : Type} [Inhabited β] [DecidableEq β] {t : QueryTable β}
    {f : QueryId → β} (h : t.Tells f) {p : β → Bool} {s : QuerySet} (hp : p default = false)
    (hs : ∀ q, p (f q) = s.lists q) : t.select p = s.toList := by
  refine OrdSet.eq_of_mem_iff ?_ s.ascending_toList fun q => ?_
  · exact (List.pairwise_map.2 (OrdMap.ascending _))
  · rw [select, OrdMap.mem_keys_iff, OrdMap.get?_filter, get?_stored, h q]
    have hq := hs q
    rw [← QuerySet.lists_iff, ← hq]
    split
    · rename_i hd
      rw [hd, hp]
      exact Iff.rfl
    · rw [Option.isSome_filter]
      rfl

/-! ## The common record -/

namespace FlowMaps

variable {m : FlowMaps} {q r : QueryId}

/-- The exits that are recorded for a query. -/
def exitsOf (s : ExitSet) (q : QueryId) : OrdSet WaypointId :=
  .ofList ((s.filter fun e => e.query == q).toList.map (·.exit))

/-- The exits of a query are the exits recorded with it. -/
theorem mem_exitsOf {s : ExitSet} {x : WaypointId} : x ∈ exitsOf s q ↔ ⟨q, x⟩ ∈ s := by
  rw [exitsOf, OrdSet.mem_ofList, List.mem_map]
  constructor
  · rintro ⟨e, he, rfl⟩
    obtain ⟨hmem, heq⟩ := OrdSet.mem_filter.1 he
    obtain rfl := beq_iff_eq.1 heq
    exact hmem
  · intro h
    exact ⟨⟨q, x⟩, OrdSet.mem_filter.2 ⟨h, beq_self_eq_true q⟩, rfl⟩

/-- An exit is recorded for its query. -/
theorem exitsOf_insert {s : ExitSet} {e : QueryExit} :
    exitsOf (s.insert e) r =
      if r = e.query then (exitsOf s e.query).insert e.exit else exitsOf s r := by
  obtain ⟨q, x⟩ := e
  split <;> ext y <;> simp_all [mem_exitsOf]

/-- Dropping the exits of a query leaves those of the others. -/
theorem exitsOf_filter {s : ExitSet} :
    exitsOf (s.filter fun e => e.query != q) r = if r = q then ∅ else exitsOf s r := by
  split <;> ext x <;> simp_all [mem_exitsOf]

/-- The common record of a query. -/
def flow (m : FlowMaps) (q : QueryId) : Flow where
  covered := m.covered.lists q
  bypassed := m.bypassed.lists q
  used := m.used.slots q
  pending := m.pending.slots q
  down := m.down.slots q
  synthesized := m.synthesized.slots q
  produced := m.produced.slots q
  exits := exitsOf m.exits q
  terminatingExits := exitsOf m.terminatingExits q

/-- Where nothing is kept, every record is the default one. -/
theorem flow_empty : empty.flow q = default := by
  simp only [flow, empty, QuerySet.lists_empty]
  rfl

/-- Taking a query in changes its record and no other. -/
theorem flow_cover (hq : q ∈ QuerySet.ids) :
    (m.cover q).flow r = if r = q then (m.flow q).cover else m.flow r := by
  split <;> simp_all [flow, cover, Flow.cover, QuerySet.lists_insert]

theorem flow_bypass (hq : q ∈ QuerySet.ids) :
    (m.bypass q).flow r = if r = q then (m.flow q).bypass else m.flow r := by
  split <;> simp_all [flow, bypass, Flow.bypass, QuerySet.lists_insert]

theorem flow_require (hq : q ∈ QuerySet.ids) (s : SlotSet) :
    (m.require q s).flow r = if r = q then (m.flow q).require s else m.flow r := by
  split <;>
    simp_all [flow, require, Flow.require, QuerySet.lists_insert, QuerySlots.slots_merge]

theorem flow_synthesize (hq : q ∈ QuerySet.ids) (s : SlotSet) :
    (m.synthesize q s).flow r = if r = q then (m.flow q).synthesize s else m.flow r := by
  split <;>
    simp_all [flow, synthesize, Flow.synthesize, QuerySet.lists_insert,
      QuerySlots.slots_merge]

/-- So does taking it in with attributes of both sorts. -/
theorem flow_require_synthesize (hq : q ∈ QuerySet.ids) (s t : SlotSet) :
    ((m.require q s).synthesize q t).flow r =
      if r = q then ((m.flow q).require s).synthesize t else m.flow r := by
  rw [flow_synthesize hq, flow_require hq, flow_require hq, if_pos rfl]
  split <;> rfl

theorem flow_receive (s : SlotSet) :
    (m.receive q s).flow r = if r = q then (m.flow q).receive s else m.flow r := by
  split <;> simp_all [flow, receive, Flow.receive, QuerySlots.slots_merge]

theorem flow_setProduced (s : SlotSet) :
    (m.setProduced q s).flow r = if r = q then { m.flow q with produced := s } else m.flow r := by
  split <;> simp_all [flow, setProduced, QuerySlots.slots_insert]

/-- An exit is recorded in the record of its query. -/
theorem flow_recordExit (kind : EdgeKind) (e : QueryExit) :
    (m.recordExit kind e).flow r =
      if r = e.query then
        match kind with
        | .flowThrough => { m.flow e.query with exits := (m.flow e.query).exits.insert e.exit }
        | .terminating =>
          { m.flow e.query with
            terminatingExits := (m.flow e.query).terminatingExits.insert e.exit }
      else m.flow r := by
  cases kind <;> split <;> simp_all [flow, recordExit, exitsOf_insert]

/-- **Deleting strikes the query out of every common map**, and leaves the other records. -/
theorem flow_deleteQuery (hq : q ∈ QuerySet.ids) :
    (m.deleteQuery q).flow r = if r = q then default else m.flow r := by
  split
  · simp_all [flow, deleteQuery, QuerySet.lists_erase, QuerySlots.slots_erase,
      exitsOf_filter]
    rfl
  · simp_all [flow, deleteQuery, QuerySet.lists_erase, QuerySlots.slots_erase,
      exitsOf_filter]

/-- Folding entries in adds to a query what they have for it. -/
theorem mem_slots_foldl_merge (l : List (QueryId × SlotSet)) (used : QuerySlots) {x : SlotId} :
    x ∈ (l.foldl (fun used e => used.merge e.1 e.2) used).slots q ↔
      x ∈ used.slots q ∨ ∃ s, (q, s) ∈ l ∧ x ∈ s := by
  induction l generalizing used with
  | nil => simp
  | cons e rest ih =>
      obtain ⟨r, s⟩ := e
      rw [List.foldl_cons, ih, QuerySlots.slots_merge]
      split
      · rename_i hr
        subst hr
        simp [or_assoc, or_and_right, exists_or]
      · rename_i hr
        simp [hr]

/-- Folding the pending map into the used one folds them in every record. -/
theorem flow_beginCycle (m : FlowMaps) (q : QueryId) :
    m.beginCycle.flow q = (m.flow q).beginCycle := by
  have hused : m.beginCycle.used.slots q = m.used.slots q ∪ m.pending.slots q := by
    ext x
    rw [beginCycle, mem_slots_foldl_merge, OrdSet.mem_union]
    refine or_congr_right ?_
    simp only [← OrdMap.get?_eq_some_iff, QuerySlots.slots]
    cases m.pending.get? q <;> simp
  simp only [flow, hused, Flow.beginCycle]
  rfl

end FlowMaps

/-! ## What roles keep -/

/-- The share of a query in what a scanner keeps. -/
def ScannerMaps.share (m : ScannerMaps) (q : QueryId) : ScannerShare where
  reads := m.readers.lists q
  writes := m.writers.get? q
  range := m.ranges.get? q
  projected := m.projected.get? q
  dropped := m.dropped.get? q
  loaded := m.loaded.get? q

/-- A projection is noted in both maps for its query. -/
theorem ScannerMaps.share_project {m : ScannerMaps} {q r : QueryId} {needed used : SlotSet} :
    (m.project q needed used).share r =
      if r = q then
        let projected := (m.share q).projected.getD ∅ ∪ needed
        { m.share q with projected := some projected, dropped := some (used \ projected) }
      else m.share r := by
  split <;>
    simp_all [share, project, QuerySlots.get?_merge, QuerySlots.slots, mergeSlots,
      OrdMap.get?_insert]

/-- The share of a query in what a selection keeps. -/
def SelectionMaps.share (m : SelectionMaps) (q : QueryId) : SelectionShare where
  filters := m.filters.get? q
  definitions := m.definitions.get? q

/-- The share of a query in what a join keeps. -/
def JoinMaps.share (m : JoinMaps) (q : QueryId) : JoinShare where
  rhs := m.rhs.get? q
  keys := m.keys.get? q
  kind := m.kinds.get? q
  arrived := m.arrived.slots q
  lhsCopy := m.lhsCopy.get? q
  rhsCopy := m.rhsCopy.get? q

/-- What is carried for the left is noted for its query. -/
theorem JoinMaps.share_lhsCopy {m : JoinMaps} {q r : QueryId} {carried : SlotSet} :
    share { m with lhsCopy := m.lhsCopy.merge q carried } r =
      if r = q then { m.share q with lhsCopy := mergeSlots (m.share q).lhsCopy carried }
      else m.share r := by
  split <;> simp_all [share, QuerySlots.get?_merge]

/-- What is carried for the right is noted for its query. -/
theorem JoinMaps.share_rhsCopy {m : JoinMaps} {q r : QueryId} {carried : SlotSet} :
    share { m with rhsCopy := m.rhsCopy.merge q carried } r =
      if r = q then { m.share q with rhsCopy := mergeSlots (m.share q).rhsCopy carried }
      else m.share r := by
  split <;> simp_all [share, QuerySlots.get?_merge]

/-- The share of a query in what an aggregate keeps. -/
def AggregateMaps.share (m : AggregateMaps) (q : QueryId) : AggregateShare where
  inputs := m.inputs.get? q
  states := m.states.get? q
  asState := m.asState.lists q

/-- The share of a query in what a transform keeps. -/
def TransformMaps.share (m : TransformMaps) (q : QueryId) : TransformShare where
  inputs := m.inputs.get? q
  states := m.states.get? q
  passThrough := m.passThrough.get? q

/-- What passes through is noted for its query. -/
theorem TransformMaps.share_passThrough {m : TransformMaps} {q r : QueryId} {carried : SlotSet} :
    share { m with passThrough := m.passThrough.merge q carried } r =
      if r = q then { m.share q with passThrough := mergeSlots (m.share q).passThrough carried }
      else m.share r := by
  split <;> simp_all [share, QuerySlots.get?_merge]

section Deletion

variable {q r : QueryId}

/-- Deleting strikes the query out of all six maps of a scanner. -/
theorem ScannerMaps.share_deleteQuery {m : ScannerMaps} (hq : q ∈ QuerySet.ids) :
    (m.deleteQuery q).share r = if r = q then default else m.share r := by
  split <;> simp_all [share, deleteQuery, QuerySet.lists_erase, OrdMap.get?_erase]
  rfl

theorem ScannerMaps.share_empty : empty.share q = default := by
  rw [share, empty, QuerySet.lists_empty]
  rfl

/-- Deleting strikes the query out of both maps of a selection. -/
theorem SelectionMaps.share_deleteQuery {m : SelectionMaps} :
    (m.deleteQuery q).share r = if r = q then default else m.share r := by
  split <;> simp_all [share, deleteQuery, OrdMap.get?_erase]
  rfl

/-- Deleting strikes the query out of all six maps of a join. -/
theorem JoinMaps.share_deleteQuery {m : JoinMaps} :
    (m.deleteQuery q).share r = if r = q then default else m.share r := by
  split <;> simp_all [share, deleteQuery, OrdMap.get?_erase, QuerySlots.slots_erase]
  rfl

/-- Deleting strikes the query out of the three maps of an aggregate. -/
theorem AggregateMaps.share_deleteQuery {m : AggregateMaps} (hq : q ∈ QuerySet.ids) :
    (m.deleteQuery q).share r = if r = q then default else m.share r := by
  split <;> simp_all [share, deleteQuery, QuerySet.lists_erase, OrdMap.get?_erase]
  rfl

theorem AggregateMaps.share_empty : empty.share q = default := by
  rw [share, empty, QuerySet.lists_empty]
  rfl

/-- Deleting strikes the query out of the three maps of a transform. -/
theorem TransformMaps.share_deleteQuery {m : TransformMaps} :
    (m.deleteQuery q).share r = if r = q then default else m.share r := by
  split <;> simp_all [share, deleteQuery, OrdMap.get?_erase]
  rfl

end Deletion

namespace RoleMaps

/-- The maps of a role tell what another has in its tables. -/
inductive Holds : RoleMaps → Role → Prop
  | scanner {relation columns m t} : t.Tells m.share →
      Holds (.scanner relation columns m) (.scanner relation columns t)
  | textLoader (columns files) : Holds (.textLoader columns files) (.textLoader columns files)
  | ingest (adapter columns) : Holds (.ingest adapter columns) (.ingest adapter columns)
  | selection {m t} : t.Tells m.share → Holds (.selection m) (.selection t)
  | join {columns keys m t} : t.Tells m.share →
      Holds (.join columns keys m) (.join columns keys t)
  | aggregate {m t} : t.Tells m.share → Holds (.aggregate m) (.aggregate t)
  | transform {m t} : t.Tells m.share → Holds (.transform m) (.transform t)
  | iterative {m t} : t.Tells m.get? → Holds (.iterative m) (.iterative t)
  | print {m t} : t.Tells m.get? → Holds (.print m) (.print t)
  | cache {m t} : t.Tells m.lists → Holds (.cache m) (.cache t)
  | compact {m t} : t.Tells m.lists → Holds (.compact m) (.compact t)
  | cluster (relation slot) : Holds (.cluster relation slot) (.cluster relation slot)

variable {m : RoleMaps} {r : Role} {q : QueryId}

/-- A new role has nothing for any query. -/
theorem holds_ofRole (r : Role) : (ofRole r).Holds r.clear := by
  cases r with
  | scanner => exact .scanner fun _ => ScannerMaps.share_empty.symm
  | aggregate => exact .aggregate fun _ => AggregateMaps.share_empty.symm
  | cache => exact .cache fun _ => QuerySet.lists_empty.symm
  | compact => exact .compact fun _ => QuerySet.lists_empty.symm
  | _ => constructor <;> exact fun _ => rfl

theorem Holds.kind_eq (h : m.Holds r) : m.kind = r.kind := by
  cases h <;> rfl

/-- What a role computed in the last cycle is gone from maps and tables alike. -/
theorem Holds.beginCycle (h : m.Holds r) : m.beginCycle.Holds r.beginCycle := by
  cases h with
  | scanner h => exact .scanner (h.mapAll rfl fun _ => rfl)
  | join h => exact .join (h.mapAll rfl fun _ => rfl)
  | transform h => exact .transform (h.mapAll rfl fun _ => rfl)
  | _ => constructor <;> assumption

/-- Clearing leaves a new role. -/
theorem Holds.clear (h : m.Holds r) : m.clear.Holds r.clear := by
  have hclear : m.clear = ofRole r := by
    cases h <;> rfl
  exact hclear ▸ holds_ofRole r

/-- Whatever the role, deleting a query forgets its records. -/
theorem Holds.deleteQuery (hq : q ∈ QuerySet.ids) (h : m.Holds r) :
    (m.deleteQuery q).Holds (r.forget q) := by
  cases h with
  | scanner h => exact .scanner (h.forget fun _ => ScannerMaps.share_deleteQuery hq)
  | selection h => exact .selection (h.forget fun _ => SelectionMaps.share_deleteQuery)
  | join h => exact .join (h.forget fun _ => JoinMaps.share_deleteQuery)
  | aggregate h => exact .aggregate (h.forget fun _ => AggregateMaps.share_deleteQuery hq)
  | transform h => exact .transform (h.forget fun _ => TransformMaps.share_deleteQuery)
  | iterative h => exact .iterative (h.forget fun _ => OrdMap.get?_erase ..)
  | print h => exact .print (h.forget fun _ => OrdMap.get?_erase ..)
  | cache h => exact .cache (h.forget fun _ => QuerySet.lists_erase hq)
  | compact h => exact .compact (h.forget fun _ => QuerySet.lists_erase hq)
  | textLoader | ingest | cluster => constructor

end RoleMaps

end SharedPlan
