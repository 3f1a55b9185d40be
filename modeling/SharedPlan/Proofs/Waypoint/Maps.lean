import SharedPlan.Config
import SharedPlan.QuerySet
import SharedPlan.Waypoint.Demand
import SharedPlan.Waypoint.Duty
import SharedPlan.Waypoint.Supply

/-!
# SharedPlan.Proofs.Waypoint.Maps

A waypoint with everything that it keeps written down in place.

`Waypoint` keeps one record for each query.  `WaypointMaps` keeps a map or a word for each thing
that such a record tells, the common ones in `FlowMaps` and those of a role beside them, and
every operation changes these one after another.  Deleting a query and clearing are lists of
their own for each of them, so that none is left out has to be proved: a deleted query occurs in
no map any more, and any other query occurs where it did
(`WaypointMaps.mem_queries_deleteQuery`, `WaypointMaps.queries_clear`).
-/

namespace SharedPlan

/-! ## Maps of attribute sets -/

namespace QuerySlots

/-- The attributes of a query; none if it has no entry. -/
def slots (m : QuerySlots) (q : QueryId) : SlotSet := (m.get? q).getD ∅

/-- Add attributes to the entry of a query, which is there afterwards. -/
def merge (m : QuerySlots) (q : QueryId) (s : SlotSet) : QuerySlots := m.insert q (m.slots q ∪ s)

variable {m : QuerySlots} {q r : QueryId} {s : SlotSet}

/-- An inserted entry is what its query has, whatever it had. -/
theorem slots_insert : slots (m.insert q s) r = if r = q then s else m.slots r := by
  rw [slots, OrdMap.get?_insert]
  split <;> rfl

/-- Without an entry a query has no attributes. -/
theorem slots_erase : slots (m.erase q) r = if r = q then ∅ else m.slots r := by
  rw [slots, OrdMap.get?_erase]
  split <;> rfl

/-- Merged attributes are added to what the query has. -/
theorem slots_merge : (m.merge q s).slots r = if r = q then m.slots q ∪ s else m.slots r :=
  slots_insert

/-- A query that attributes are merged for has an entry, even if they are none. -/
theorem get?_merge :
    (m.merge q s).get? r = if r = q then mergeSlots (m.get? q) s else m.get? r :=
  OrdMap.get?_insert ..

theorem mem_keys_merge : r ∈ (m.merge q s).keys ↔ r = q ∨ r ∈ m.keys := OrdMap.mem_keys_insert

/-- Only a key has attributes. -/
theorem slots_of_not_mem_keys (h : q ∉ m.keys) : m.slots q = ∅ := by
  rw [OrdMap.mem_keys_iff, Bool.not_eq_true, Option.isSome_eq_false_iff,
    Option.isNone_iff_eq_none] at h
  rw [slots, h]
  rfl

end QuerySlots

/-- What every waypoint keeps, in a map for each thing. -/
structure FlowMaps where
  covered : QuerySet
  bypassed : QuerySet
  used : QuerySlots
  pending : QuerySlots
  down : QuerySlots
  synthesized : QuerySlots
  produced : QuerySlots
  exits : ExitSet
  terminatingExits : ExitSet

namespace FlowMaps

variable (m : FlowMaps) (q : QueryId)

/-- Nothing is kept. -/
def empty : FlowMaps := ⟨∅, ∅, ∅, ∅, ∅, ∅, ∅, ∅, ∅⟩

/-- Take a query in. -/
def cover : FlowMaps := { m with covered := m.covered.insert q }

/-- Take a query in and let it pass untouched. -/
def bypass : FlowMaps :=
  { m with covered := m.covered.insert q, bypassed := m.bypassed.insert q }

/-- Take a query in with attributes that it needs here. -/
def require (slots : SlotSet) : FlowMaps :=
  { m with covered := m.covered.insert q, pending := m.pending.merge q slots }

/-- Take a query in with attributes that are computed here. -/
def synthesize (slots : SlotSet) : FlowMaps :=
  { m with covered := m.covered.insert q, synthesized := m.synthesized.merge q slots }

/-- Add attributes that arrived from below. -/
def receive (slots : SlotSet) : FlowMaps := { m with down := m.down.merge q slots }

/-- Store what is emitted. -/
def setProduced (slots : SlotSet) : FlowMaps := { m with produced := m.produced.insert q slots }

/-- Record an exit of one kind. -/
def recordExit (kind : EdgeKind) (e : QueryExit) : FlowMaps :=
  match kind with
  | .flowThrough => { m with exits := m.exits.insert e }
  | .terminating => { m with terminatingExits := m.terminatingExits.insert e }

/-- Fold in what was registered, and empty what the previous cycle computed. -/
def beginCycle : FlowMaps :=
  { m with
    used := m.pending.entries.foldl (fun used e => used.merge e.1 e.2) m.used
    pending := ∅
    down := ∅
    produced := ∅
    exits := ∅
    terminatingExits := ∅ }

/-- The demand that a filtering waypoint hands on. -/
def forward (needed : SlotSet) : SlotSet := (needed ∪ m.used.slots q) \ m.synthesized.slots q

/-- Strike a query out of every map. -/
def deleteQuery : FlowMaps :=
  { m with
    covered := m.covered.erase q
    bypassed := m.bypassed.erase q
    used := m.used.erase q
    pending := m.pending.erase q
    down := m.down.erase q
    synthesized := m.synthesized.erase q
    produced := m.produced.erase q
    exits := m.exits.filter fun e => e.query != q
    terminatingExits := m.terminatingExits.filter fun e => e.query != q }

/-- The queries that occur, as members, as keys or in exits. -/
def queries : List QueryId :=
  m.covered.toList ++ m.bypassed.toList ++ m.used.keys ++ m.pending.keys ++ m.down.keys ++
    m.synthesized.keys ++ m.produced.keys ++ m.exits.toList.map (·.query) ++
    m.terminatingExits.toList.map (·.query)

end FlowMaps

/-! ## What a role keeps -/

/-- What a scanner keeps. -/
structure ScannerMaps where
  readers : QuerySet
  writers : QuerySlots
  ranges : OrdMap QueryId ScanRange
  projected : QuerySlots
  dropped : QuerySlots
  loaded : QuerySlots

namespace ScannerMaps

variable (m : ScannerMaps) (q : QueryId)

/-- Nothing is kept. -/
def empty : ScannerMaps := ⟨∅, ∅, ∅, ∅, ∅, ∅⟩

/-- Empty what the previous cycle computed. -/
def beginCycle : ScannerMaps := { m with projected := ∅, dropped := ∅, loaded := ∅ }

/-- Note columns that are needed of those that are used; the others may be skipped. -/
def project (needed used : SlotSet) : ScannerMaps :=
  let projected := m.projected.merge q needed
  { m with projected, dropped := m.dropped.insert q (used \ projected.slots q) }

/-- Strike a query out of every map. -/
def deleteQuery : ScannerMaps :=
  { m with
    readers := m.readers.erase q
    writers := m.writers.erase q
    ranges := m.ranges.erase q
    projected := m.projected.erase q
    dropped := m.dropped.erase q
    loaded := m.loaded.erase q }

/-- Empty every map. -/
def clear (m : ScannerMaps) : ScannerMaps :=
  { m with
    readers := ∅
    writers := ∅
    ranges := ∅
    projected := ∅
    dropped := ∅
    loaded := ∅ }

/-- The queries that occur. -/
def queries : List QueryId :=
  m.readers.toList ++ m.writers.keys ++ m.ranges.keys ++ m.projected.keys ++ m.dropped.keys ++
    m.loaded.keys

end ScannerMaps

/-- What a selection keeps. -/
structure SelectionMaps where
  filters : QuerySlots
  definitions : OrdMap QueryId (OrdMap SlotId SlotSet)

namespace SelectionMaps

variable (m : SelectionMaps) (q : QueryId)

/-- Nothing is kept. -/
def empty : SelectionMaps := ⟨∅, ∅⟩

/-- Strike a query out of every map. -/
def deleteQuery : SelectionMaps :=
  { m with filters := m.filters.erase q, definitions := m.definitions.erase q }

/-- Empty every map. -/
def clear (m : SelectionMaps) : SelectionMaps := { m with filters := ∅, definitions := ∅ }

/-- The queries that occur. -/
def queries : List QueryId := m.filters.keys ++ m.definitions.keys

end SelectionMaps

/-- What a join keeps. -/
structure JoinMaps where
  rhs : QuerySlots
  keys : OrdMap QueryId (List SlotId)
  kinds : OrdMap QueryId JoinKind
  arrived : QuerySlots
  lhsCopy : QuerySlots
  rhsCopy : QuerySlots

namespace JoinMaps

variable (m : JoinMaps) (q : QueryId)

/-- Nothing is kept. -/
def empty : JoinMaps := ⟨∅, ∅, ∅, ∅, ∅, ∅⟩

/-- How a query combines the inputs; by an inner join unless registered otherwise. -/
def joinKind : JoinKind := (m.kinds.get? q).getD .inner

/-- Empty what the previous cycle computed. -/
def beginCycle : JoinMaps := { m with arrived := ∅, lhsCopy := ∅, rhsCopy := ∅ }

/-- Strike a query out of every map. -/
def deleteQuery : JoinMaps :=
  { m with
    rhs := m.rhs.erase q
    keys := m.keys.erase q
    kinds := m.kinds.erase q
    arrived := m.arrived.erase q
    lhsCopy := m.lhsCopy.erase q
    rhsCopy := m.rhsCopy.erase q }

/-- Empty every map. -/
def clear (m : JoinMaps) : JoinMaps :=
  { m with rhs := ∅, keys := ∅, kinds := ∅, arrived := ∅, lhsCopy := ∅, rhsCopy := ∅ }

/-- The queries that occur. -/
def queries : List QueryId :=
  m.rhs.keys ++ m.keys.keys ++ m.kinds.keys ++ m.arrived.keys ++ m.lhsCopy.keys ++ m.rhsCopy.keys

end JoinMaps

/-- What an aggregate keeps. -/
structure AggregateMaps where
  inputs : QuerySlots
  states : OrdMap QueryId (List WaypointId)
  asState : QuerySet

namespace AggregateMaps

variable (m : AggregateMaps) (q : QueryId)

/-- Nothing is kept. -/
def empty : AggregateMaps := ⟨∅, ∅, ∅⟩

/-- Strike a query out of every map. -/
def deleteQuery : AggregateMaps :=
  { m with
    inputs := m.inputs.erase q
    states := m.states.erase q
    asState := m.asState.erase q }

/-- Empty every map. -/
def clear (m : AggregateMaps) : AggregateMaps := { m with inputs := ∅, states := ∅, asState := ∅ }

/-- The queries that occur. -/
def queries : List QueryId := m.inputs.keys ++ m.states.keys ++ m.asState.toList

end AggregateMaps

/-- What a transform keeps. -/
structure TransformMaps where
  inputs : QuerySlots
  states : OrdMap QueryId (List WaypointId)
  passThrough : QuerySlots

namespace TransformMaps

variable (m : TransformMaps) (q : QueryId)

/-- Nothing is kept. -/
def empty : TransformMaps := ⟨∅, ∅, ∅⟩

/-- Empty what the previous cycle computed. -/
def beginCycle : TransformMaps := { m with passThrough := ∅ }

/-- Strike a query out of every map. -/
def deleteQuery : TransformMaps :=
  { m with
    inputs := m.inputs.erase q
    states := m.states.erase q
    passThrough := m.passThrough.erase q }

/-- Empty every map. -/
def clear (m : TransformMaps) : TransformMaps :=
  { m with inputs := ∅, states := ∅, passThrough := ∅ }

/-- The queries that occur. -/
def queries : List QueryId := m.inputs.keys ++ m.states.keys ++ m.passThrough.keys

end TransformMaps

/-- The role of a waypoint, with what it was created with. -/
inductive RoleMaps where
  | scanner (relation : String) (columns : SlotSet) (maps : ScannerMaps)
  | textLoader (columns : SlotSet) (files : List String)
  | ingest (adapter : String) (columns : SlotSet)
  | selection (maps : SelectionMaps)
  | join (lhsColumns : SlotSet) (lhsKeys : List SlotId) (maps : JoinMaps)
  | aggregate (maps : AggregateMaps)
  | transform (maps : TransformMaps)
  | iterative (states : OrdMap QueryId (List WaypointId))
  | print (headers : OrdMap QueryId String)
  | cache (caching : QuerySet)
  | compact (compacting : QuerySet)
  | cluster (relation : String) (slot : SlotId)

namespace RoleMaps

/-- The kind of a role. -/
def kind : RoleMaps → WaypointKind
  | scanner .. => .scanner
  | textLoader .. => .textLoader
  | ingest .. => .ingest
  | selection _ => .selection
  | join .. => .join
  | aggregate _ => .aggregate
  | transform _ => .transform
  | iterative _ => .iterative
  | print _ => .print
  | cache _ => .cache
  | compact _ => .compact
  | cluster .. => .cluster

/-- A role that nothing is kept for yet, created with what another was. -/
def ofRole : Role → RoleMaps
  | .scanner r c _ => scanner r c .empty
  | .textLoader c f => textLoader c f
  | .ingest a c => ingest a c
  | .selection _ => selection .empty
  | .join c k _ => join c k .empty
  | .aggregate _ => aggregate .empty
  | .transform _ => transform .empty
  | .iterative _ => iterative ∅
  | .print _ => print ∅
  | .cache _ => cache ∅
  | .compact _ => compact ∅
  | .cluster r s => cluster r s

/-- Empty what the previous cycle computed. -/
def beginCycle : RoleMaps → RoleMaps
  | scanner r c m => scanner r c m.beginCycle
  | join c k m => join c k m.beginCycle
  | transform m => transform m.beginCycle
  | r => r

/-- Strike a query out of every map. -/
def deleteQuery (q : QueryId) : RoleMaps → RoleMaps
  | scanner r c m => scanner r c (m.deleteQuery q)
  | selection m => selection (m.deleteQuery q)
  | join c k m => join c k (m.deleteQuery q)
  | aggregate m => aggregate (m.deleteQuery q)
  | transform m => transform (m.deleteQuery q)
  | iterative states => iterative (states.erase q)
  | print headers => print (headers.erase q)
  | cache caching => cache (caching.erase q)
  | compact compacting => compact (compacting.erase q)
  | r => r

/-- Empty every map. -/
def clear : RoleMaps → RoleMaps
  | scanner r c m => scanner r c m.clear
  | selection m => selection m.clear
  | join c k m => join c k m.clear
  | aggregate m => aggregate m.clear
  | transform m => transform m.clear
  | iterative _ => iterative ∅
  | print _ => print ∅
  | cache _ => cache ∅
  | compact _ => compact ∅
  | r => r

/-- The queries that occur. -/
def queries : RoleMaps → List QueryId
  | scanner _ _ m => m.queries
  | selection m => m.queries
  | join _ _ m => m.queries
  | aggregate m => m.queries
  | transform m => m.queries
  | iterative states => states.keys
  | print headers => headers.keys
  | cache caching => caching.toList
  | compact compacting => compacting.toList
  | textLoader .. | ingest .. | cluster .. => []

end RoleMaps

/-! ## Waypoints -/

/-- A waypoint with everything that it keeps. -/
structure WaypointMaps where
  id : WaypointId
  name : String
  flows : FlowMaps
  role : RoleMaps

namespace WaypointMaps

/-- A waypoint on which no query is registered. -/
def fresh (id : WaypointId) (name : String) (role : RoleMaps) : WaypointMaps :=
  ⟨id, name, .empty, role⟩

variable (m : WaypointMaps)

/-- Register a query for a duty.  A waypoint of another kind stays as it is. -/
def enrol (q : QueryId) (d : Duty) : WaypointMaps :=
  match d, m.role with
  | .scan, .scanner r columns s =>
    { m with
      flows := m.flows.require q columns
      role := .scanner r columns { s with readers := s.readers.insert q } }
  | .write slots, .scanner r columns s =>
    { m with
      flows := m.flows.cover q
      role := .scanner r columns { s with writers := s.writers.merge q slots } }
  | .scanRange range, .scanner r columns s =>
    { m with role := .scanner r columns { s with ranges := s.ranges.insert q range } }
  | .loadText, .textLoader columns _ => { m with flows := m.flows.require q columns }
  | .ingest, .ingest _ columns => { m with flows := m.flows.require q columns }
  | .filter slots, .selection s =>
    { m with
      flows := m.flows.require q slots
      role := .selection { s with filters := s.filters.merge q slots } }
  | .synthesize slot dependsOn, .selection s =>
    { m with
      flows := (m.flows.require q dependsOn).synthesize q (.singleton slot)
      role := .selection { s with
        filters := s.filters.merge q ∅
        definitions := s.definitions.insert q
          (((s.definitions.get? q).getD ∅).insert slot dependsOn) } }
  | .bypass, .selection _ => { m with flows := m.flows.bypass q }
  | .bypass, .join .. => { m with flows := m.flows.bypass q }
  | .join rhs keys kind, .join columns lhsKeys s =>
    { m with
      flows := m.flows.require q rhs
      role := .join columns lhsKeys { s with
        rhs := s.rhs.merge q rhs
        keys := s.keys.insert q keys
        kinds := s.kinds.insert q kind } }
  | .aggregate outputs inputs states, .aggregate s =>
    { m with
      flows := (m.flows.require q inputs).synthesize q outputs
      role := .aggregate { s with
        inputs := s.inputs.merge q inputs
        states := s.states.insert q ((s.states.get? q).getD [] ++ states) } }
  | .returnAsState, .aggregate s =>
    { m with
      flows := m.flows.cover q
      role := .aggregate { s with asState := s.asState.insert q } }
  | .transform outputs inputs states, .transform s =>
    { m with
      flows := (m.flows.require q inputs).synthesize q outputs
      role := .transform { s with
        inputs := s.inputs.merge q inputs
        states := s.states.insert q ((s.states.get? q).getD [] ++ states) } }
  | .iterate outputs states, .iterative s =>
    { m with
      flows := m.flows.synthesize q outputs
      role := .iterative (s.insert q ((s.get? q).getD [] ++ states)) }
  | .print slots header, .print s =>
    { m with
      flows := m.flows.require q slots
      role := .print (match header with
        | some text => s.insert q text
        | none => s) }
  | .cache, .cache s => { m with flows := m.flows.cover q, role := .cache (s.insert q) }
  | .compact, .compact s => { m with flows := m.flows.cover q, role := .compact (s.insert q) }
  | .cluster, .cluster _ slot => { m with flows := m.flows.require q (.singleton slot) }
  | _, _ => m

/-- The waypoint at the start of a cycle. -/
def beginCycle : WaypointMaps :=
  { m with flows := m.flows.beginCycle, role := m.role.beginCycle }

/-- Delete a query. -/
def deleteQuery (q : QueryId) : WaypointMaps :=
  { m with flows := m.flows.deleteQuery q, role := m.role.deleteQuery q }

/-- Delete every query. -/
def clear : WaypointMaps := { m with flows := .empty, role := m.role.clear }

/-! ### The upward step -/

/-- Fails unless attributes that a query uses here are among the available ones. -/
def checkUsed (q : QueryId) (required available : SlotSet) : Except PlanError Unit :=
  let missing := required \ available
  if missing.isEmpty then .ok () else .error (.usedNotProduced m.name q missing)

/-- The queries that are emitted for: the readers of a scanner, those registered on any other
waypoint. -/
def suppliers : QuerySet :=
  match m.role with
  | .scanner _ _ s => s.readers
  | _ => m.flows.covered

/-- What is emitted for a query. -/
def emission (q : QueryId) : Except PlanError SlotSet :=
  let f := m.flows
  match m.role with
  | .scanner .. => .ok (f.used.slots q)
  | .textLoader .. | .ingest .. | .iterative _ => .ok (f.used.slots q ∪ f.synthesized.slots q)
  | .selection _ | .transform _ | .cache _ | .compact _ =>
    if f.bypassed.contains q then .ok (f.down.slots q)
    else do
      m.checkUsed q (f.used.slots q) (f.down.slots q)
      return f.down.slots q ∪ f.synthesized.slots q
  | .aggregate _ => do
    m.checkUsed q (f.used.slots q) (f.down.slots q)
    return f.synthesized.slots q
  | .join lhsColumns _ s =>
    if f.bypassed.contains q then .ok (f.down.slots q)
    else do
      m.checkUsed q (f.used.slots q) (s.arrived.slots q)
      m.checkUsed q lhsColumns (f.down.slots q)
      return if (s.joinKind q).forwardsRight then f.down.slots q ∪ s.arrived.slots q
        else f.down.slots q
  | .print _ | .cluster .. => do
    m.checkUsed q (f.used.slots q) (f.down.slots q)
    return ∅

/-- Emit for a list of queries, storing each result; the first failure ends it. -/
def emitEach (m : WaypointMaps) : List QueryId → WaypointMaps × Except PlanError QuerySlots
  | [] => (m, .ok ∅)
  | q :: rest =>
    match m.emission q with
    | .error e => (m, .error e)
    | .ok slots =>
      let (m, emitted) := { m with flows := m.flows.setProduced q slots }.emitEach rest
      (m, (·.insert q slots) <$> emitted)

/-- Fails unless what active queries write into a relation has arrived. -/
def checkWriters (active : QuerySet) : Except PlanError Unit :=
  match m.role with
  | .scanner _ _ s =>
    s.writers.entries.forM fun e =>
      if active.contains e.1 then m.checkUsed e.1 e.2 (m.flows.down.slots e.1) else .ok ()
  | _ => .ok ()

/-- The upward step. -/
def emit (active : QuerySet) : WaypointMaps × Except PlanError QuerySlots :=
  let (m, emitted) := m.emitEach (m.suppliers ∩ active).toList
  (m, do
    let emitted ← emitted
    m.checkWriters active
    return if m.role.kind.isSink then ∅ else emitted)

/-- Take in attributes of a query over an edge. -/
def receiveFor (kind : EdgeKind) (q : QueryId) (slots : SlotSet) : WaypointMaps :=
  match m.role, kind with
  | .scanner r c s, .flowThrough =>
    { m with role := .scanner r c { s with loaded := s.loaded.merge q slots } }
  | .join c k s, .terminating =>
    { m with role := .join c k { s with arrived := s.arrived.merge q slots } }
  | _, _ => { m with flows := m.flows.receive q slots }

/-- Take in what a waypoint below emitted; queries not registered here are left out. -/
def receive (kind : EdgeKind) (emitted : QuerySlots) : WaypointMaps :=
  emitted.entries.foldl
    (fun m e => if m.flows.covered.contains e.1 then m.receiveFor kind e.1 e.2 else m) m

/-! ### The downward step -/

/-- Fails unless what is demanded for a query is emitted here. -/
def checkDemand (q : QueryId) (needed : SlotSet) : Except PlanError Unit :=
  let missing := needed \ m.flows.produced.slots q
  if missing.isEmpty then .ok () else .error (.demandNotSatisfied m.name q missing)

/-- Record an exit of one kind. -/
def recordExit (kind : EdgeKind) (e : QueryExit) : WaypointMaps :=
  { m with flows := m.flows.recordExit kind e }

/-- Demand attributes of a waypoint for a query over an input edge of some kind. -/
def ask (kind : EdgeKind) (q : QueryId) (needed : SlotSet) (exit : QueryExit) :
    Except PlanError (SlotSet × WaypointMaps) :=
  let f := m.flows
  match m.role, kind with
  | .scanner r c s, .flowThrough =>
    if s.readers.contains q then do
      m.checkDemand q needed
      let s := s.project q needed (f.used.slots q)
      return (∅, { m with role := .scanner r c s }.recordExit kind exit)
    else .ok (∅, m)
  | .scanner _ _ s, .terminating =>
    match s.writers.get? q with
    | some slots => .ok (slots, m.recordExit kind exit)
    | none => .ok (∅, m)
  | .join columns keys s, .flowThrough => do
    m.checkDemand q needed
    let m := m.recordExit kind exit
    if f.bypassed.contains q then return (needed, m)
    let carried := needed ∩ f.down.slots q
    let s := { s with lhsCopy := s.lhsCopy.merge q carried }
    return (columns ∪ carried, { m with role := .join columns keys s })
  | .join columns keys s, .terminating =>
    if f.bypassed.contains q then .ok (∅, m)
    else do
      m.checkDemand q needed
      let m := m.recordExit kind exit
      let carried := if (s.joinKind q).forwardsRight then needed ∩ s.arrived.slots q else ∅
      let s := { s with rhsCopy := s.rhsCopy.merge q carried }
      return (s.rhs.slots q ∪ carried, { m with role := .join columns keys s })
  | .textLoader .., _ | .ingest .., _ => do
    if f.covered.contains q then m.checkDemand q needed
    return (∅, m.recordExit kind exit)
  | .iterative _, _ => do
    m.checkDemand q needed
    return (∅, m.recordExit kind exit)
  | .selection _, _ => do
    m.checkDemand q needed
    let below := if f.bypassed.contains q then needed else f.forward q needed
    return (below, m.recordExit kind exit)
  | .aggregate _, _ => do
    m.checkDemand q needed
    return (f.used.slots q, m.recordExit kind exit)
  | .transform s, _ => do
    m.checkDemand q needed
    let s := { s with passThrough := s.passThrough.merge q (needed \ f.synthesized.slots q) }
    return (f.forward q needed, { m with role := .transform s }.recordExit kind exit)
  | .cache _, _ | .compact _, _ => do
    m.checkDemand q needed
    return (f.forward q needed, m.recordExit kind exit)
  | .print _, _ | .cluster .., _ => .ok (f.used.slots q, m.recordExit kind exit)

/-! ### What is published -/

/-- What some map has for each query registered here. -/
def perCovered (slots : QuerySlots) : QuerySlots :=
  .ofList (m.flows.covered.toList.map fun q => (q, slots.slots q))

/-- The part of the record that depends on the role. -/
def roleConfig : RoleConfig :=
  match m.role with
  | .scanner relation columns s =>
    .scanner relation columns s.readers.toList s.projected s.dropped s.writers s.ranges s.loaded
  | .textLoader columns files => .textLoader columns files m.flows.covered.toList
  | .ingest adapter columns => .ingest adapter columns m.flows.covered.toList
  | .selection s =>
    .selection s.filters
      (s.definitions.mapValues fun _ defs => defs.entries.map fun e => ⟨e.1, e.2⟩)
      m.flows.bypassed.toList
  | .join columns keys s =>
    .join columns keys s.rhs s.keys s.kinds s.lhsCopy s.rhsCopy m.flows.bypassed.toList
  | .aggregate s =>
    .aggregate s.inputs (m.perCovered m.flows.synthesized) s.states s.asState.toList
  | .transform s =>
    .transform s.inputs (m.perCovered m.flows.synthesized) s.states s.passThrough
  | .iterative s => .iterative (m.perCovered m.flows.synthesized) s
  | .print s => .print (m.perCovered m.flows.used) s
  | .cache s => .cache s.toList
  | .compact s => .compact s.toList
  | .cluster relation slot => .cluster relation slot m.flows.covered.toList

/-- The record of a waypoint. -/
def config : WaypointConfig :=
  ⟨m.id, m.name, m.role.kind, m.flows.exits.toList, m.flows.terminatingExits.toList, m.roleConfig⟩

/-! ### The queries that occur -/

/-- The queries that occur in some map. -/
def queries : List QueryId := m.flows.queries ++ m.role.queries

end WaypointMaps

/-! ## Deletion leaves nothing out -/

section Deletion

variable {q r : QueryId}

/-- A deleted query occurs in none of the common maps. -/
theorem FlowMaps.mem_queries_deleteQuery {m : FlowMaps} (hq : q ∈ QuerySet.ids) :
    r ∈ (m.deleteQuery q).queries ↔ r ≠ q ∧ r ∈ m.queries := by
  have hexits (s : ExitSet) :
      r ∈ (s.filter fun e => e.query != q).toList.map (·.query) ↔
        r ≠ q ∧ r ∈ s.toList.map (·.query) := by
    simp only [OrdSet.filter, List.mem_map, List.mem_filter, bne_iff_ne]
    constructor
    · rintro ⟨e, ⟨he, hne⟩, rfl⟩
      exact ⟨hne, e, he, rfl⟩
    · rintro ⟨hne, e, he, rfl⟩
      exact ⟨e, ⟨he, hne⟩, rfl⟩
  simp only [deleteQuery, queries, List.mem_append, QuerySet.mem_toList_erase hq,
    OrdMap.mem_keys_erase, hexits, and_or_left]

/-- Nor does it in those of the role. -/
theorem RoleMaps.mem_queries_deleteQuery {m : RoleMaps} (hq : q ∈ QuerySet.ids) :
    r ∈ (m.deleteQuery q).queries ↔ r ≠ q ∧ r ∈ m.queries := by
  cases m <;>
    simp [deleteQuery, queries, ScannerMaps.deleteQuery, ScannerMaps.queries,
      SelectionMaps.deleteQuery, SelectionMaps.queries, JoinMaps.deleteQuery, JoinMaps.queries,
      AggregateMaps.deleteQuery, AggregateMaps.queries, TransformMaps.deleteQuery,
      TransformMaps.queries, QuerySet.mem_toList_erase hq, OrdMap.mem_keys_erase, and_or_left]

namespace WaypointMaps

/-- A deleted query occurs in no map any more, any other where it did. -/
theorem mem_queries_deleteQuery {m : WaypointMaps} (hq : q ∈ QuerySet.ids) :
    r ∈ (m.deleteQuery q).queries ↔ r ≠ q ∧ r ∈ m.queries := by
  rw [queries, queries, List.mem_append, List.mem_append, and_or_left]
  exact or_congr (FlowMaps.mem_queries_deleteQuery hq) (RoleMaps.mem_queries_deleteQuery hq)

/-- Clearing leaves no query in any map. -/
theorem queries_clear (m : WaypointMaps) : m.clear.queries = [] := by
  have hnone : (∅ : QuerySet).toList = [] :=
    List.filter_eq_nil_iff.2 fun q _ => QuerySet.not_mem_empty q
  have hkeys {β : Type} : (∅ : OrdMap QueryId β).keys = [] := rfl
  have hexits : (∅ : ExitSet).toList = [] := rfl
  rw [queries, clear]
  cases m.role <;>
    simp [FlowMaps.queries, FlowMaps.empty, RoleMaps.clear, RoleMaps.queries, ScannerMaps.clear,
      ScannerMaps.queries, SelectionMaps.clear, SelectionMaps.queries, JoinMaps.clear,
      JoinMaps.queries, AggregateMaps.clear, AggregateMaps.queries, TransformMaps.clear,
      TransformMaps.queries, hnone, hkeys, hexits]

end WaypointMaps

end Deletion

end SharedPlan
