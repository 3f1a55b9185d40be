import SharedPlan.Graph.Basic

/-!
# SharedPlan.Proofs.Waypoint.Only

What belongs to one query: the table, role, waypoint or graph in which every
other query has the default record (`QueryTable.only`, `Role.only`,
`Waypoint.only`, `PlanGraph.only`).  Two graphs that agree after this
restriction agree on everything that is kept for the query, whatever the role
of the waypoint that keeps it.

A change of the query's own record commutes with the restriction, a change of
another query's record disappears in it.
-/

namespace SharedPlan

/-! ## Tables -/

namespace QueryTable

variable {β : Type} [Inhabited β] [DecidableEq β]

/-- The table with the record of one query alone. -/
def only (q : QueryId) (t : QueryTable β) : QueryTable β := (∅ : QueryTable β).set q (t.get q)

/-- What belongs to a query is its own record, with the default for any other. -/
theorem get_only (t : QueryTable β) (q r : QueryId) :
    (t.only q).get r = if r = q then t.get q else default := by
  rw [only, get_set, get_empty]

@[simp] theorem get_only_self (t : QueryTable β) (q : QueryId) :
    (t.only q).get q = t.get q := by
  simp [get_only]

/-- Restricted tables are equal when they hold the same record. -/
theorem only_inj {s t : QueryTable β} {q : QueryId} :
    s.only q = t.only q ↔ s.get q = t.get q := by
  constructor
  · intro h
    rw [← get_only_self s, h, get_only_self]
  · intro h
    rw [only, h, only]

/-- A table is made of what belongs to each query. -/
theorem forall_only_iff {s t : QueryTable β} : (∀ q, s.only q = t.only q) ↔ s = t :=
  ⟨fun h => ext fun q => only_inj.1 (h q), fun h _ => h ▸ rfl⟩

/-- Changing its record changes what belongs to it. -/
theorem only_modify (t : QueryTable β) (q : QueryId) (f : β → β) :
    (t.modify q f).only q = (t.only q).modify q f := by
  ext r
  rw [get_only, get_modify, get_modify, get_only_self]
  by_cases h : r = q
  · simp [h]
  · simp [h, get_only]

/-- Changing another record does not. -/
theorem only_modify_of_ne {q r : QueryId} (h : r ≠ q) (t : QueryTable β) (f : β → β) :
    (t.modify r f).only q = t.only q := by
  rw [only_inj, get_modify, if_neg (Ne.symm h)]

end QueryTable

/-! ## Roles -/

namespace Role

/-- The role with what it keeps for one query alone. -/
def only (q : QueryId) : Role → Role
  | scanner r c s => scanner r c (s.only q)
  | selection s => selection (s.only q)
  | join c k s => join c k (s.only q)
  | aggregate s => aggregate (s.only q)
  | transform s => transform (s.only q)
  | iterative s => iterative (s.only q)
  | print s => print (s.only q)
  | cache s => cache (s.only q)
  | compact s => compact (s.only q)
  | r => r

@[simp] theorem kind_only (q : QueryId) (r : Role) : (r.only q).kind = r.kind := by
  cases r <;> rfl

/-- Roles are equal when what belongs to each query is. -/
theorem eq_of_only {r s : Role} (h : ∀ q, r.only q = s.only q) : r = s := by
  have hkind : r.kind = s.kind := by rw [← kind_only ⟨0⟩ r, h, kind_only]
  cases r <;> cases s <;> simp only [kind, reduceCtorEq] at hkind <;>
    simpa [only, forall_and, QueryTable.forall_only_iff] using h

end Role

/-! ## Waypoints -/

namespace Waypoint

/-- The waypoint with what it keeps for one query alone. -/
def only (q : QueryId) (w : Waypoint) : Waypoint :=
  { w with flows := w.flows.only q, role := w.role.only q }

@[simp] theorem id_only (q : QueryId) (w : Waypoint) : (w.only q).id = w.id := rfl

@[simp] theorem role_only (q : QueryId) (w : Waypoint) : (w.only q).role = w.role.only q := rfl

@[simp] theorem kind_only (q : QueryId) (w : Waypoint) : (w.only q).kind = w.kind :=
  Role.kind_only q w.role

/-- Its common record is the one that the waypoint has. -/
@[simp] theorem flow_only (q : QueryId) (w : Waypoint) : (w.only q).flow q = w.flow q :=
  QueryTable.get_only_self _ _

/-- It is registered there as on the waypoint. -/
@[simp] theorem covers_only (q : QueryId) (w : Waypoint) : (w.only q).covers q = w.covers q := by
  simp [covers]

/-- Changing its common record changes what belongs to it. -/
theorem only_modifyFlow (w : Waypoint) (q : QueryId) (f : Flow → Flow) :
    (w.modifyFlow q f).only q = (w.only q).modifyFlow q f := by
  simp only [only, modifyFlow, QueryTable.only_modify]

/-- Changing another common record does not. -/
theorem only_modifyFlow_of_ne {q r : QueryId} (h : r ≠ q) (w : Waypoint) (f : Flow → Flow) :
    (w.modifyFlow r f).only q = w.only q := by
  simp only [only, modifyFlow, QueryTable.only_modify_of_ne h]

/-- Waypoints that keep the same for a query keep the same flow record. -/
theorem flow_eq_of_only {q : QueryId} {v w : Waypoint} (h : v.only q = w.only q) :
    v.flow q = w.flow q := by
  rw [← flow_only q v, h, flow_only]

/-- A waypoint is made of what belongs to each query. -/
theorem eq_of_only {v w : Waypoint} (h : ∀ q, v.only q = w.only q) : v = w := by
  obtain ⟨id, name, flows, role⟩ := v
  obtain ⟨id', name', flows', role'⟩ := w
  simp only [only, mk.injEq, forall_and, forall_const] at h ⊢
  obtain ⟨hid, hname, hflows, hrole⟩ := h
  exact ⟨hid, hname, QueryTable.forall_only_iff.1 hflows, Role.eq_of_only hrole⟩

end Waypoint

/-! ## Graphs -/

namespace PlanGraph

/-- The graph with what its waypoints keep for one query alone. -/
def only (q : QueryId) (g : PlanGraph) : PlanGraph := g.mapWaypoints (·.only q)

end PlanGraph

end SharedPlan
