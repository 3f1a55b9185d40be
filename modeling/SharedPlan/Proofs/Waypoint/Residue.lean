import SharedPlan.Proofs.Waypoint.Step

/-!
# SharedPlan.Proofs.Waypoint.Residue

The queries that a waypoint keeps something for.

`Waypoint.queries` lists the queries with a record in any of the tables of a waypoint,
the common one and those of its role.  A step writes records of the queries that it is
about and of no others, so `queries` never gains any but these; deleting a query takes it
out, and changes nothing where it was not listed (`Waypoint.deleteQuery_eq_self`).
-/

namespace SharedPlan

namespace QueryTable

variable {β : Type} [Inhabited β]

theorem mem_queries_iff [DecidableEq β] {t : QueryTable β} {q : QueryId} :
    q ∈ t.queries ↔ t.get q ≠ default := by
  rw [queries, OrdMap.mem_keys_iff, get?_stored]
  split <;> simp_all

variable [DecidableEq β]

theorem forget_eq_self {t : QueryTable β} {q : QueryId} (h : q ∉ t.queries) : t.forget q = t := by
  rw [mem_queries_iff, ne_eq, Decidable.not_not] at h
  ext r
  rw [get_forget]
  split
  · rename_i hr
    rw [hr, h]
  · rfl

theorem forget_modify (t : QueryTable β) (q : QueryId) (f : β → β) :
    (t.modify q f).forget q = t.forget q := by
  ext r
  simp only [get_forget, get_modify]
  split <;> rfl

theorem only_forget (t : QueryTable β) (q r : QueryId) :
    (t.forget r).only q = (t.only q).forget r := by
  ext s
  simp only [get_only, get_forget]
  grind

theorem mem_queries_only {t : QueryTable β} {q : QueryId} :
    q ∈ (t.only q).queries ↔ q ∈ t.queries := by
  rw [mem_queries_iff, mem_queries_iff, get_only_self]

theorem mem_queries_forget {t : QueryTable β} {q r : QueryId} :
    r ∈ (t.forget q).queries ↔ r ≠ q ∧ r ∈ t.queries := by
  rw [mem_queries_iff, mem_queries_iff, get_forget]
  split <;> simp_all

theorem mem_queries_of_mapAll {f : β → β} (hf : f default = default) {t : QueryTable β}
    {q : QueryId} (h : q ∈ (t.mapAll f).queries) : q ∈ t.queries := by
  rw [mem_queries_iff, get_mapAll hf] at h
  rw [mem_queries_iff]
  intro hd
  rw [hd, hf] at h
  exact h rfl

end QueryTable

/-- The queries that a role keeps something for. -/
def Role.queries : Role → List QueryId
  | .scanner _ _ s => s.queries
  | .selection s => s.queries
  | .join _ _ s => s.queries
  | .aggregate s => s.queries
  | .transform s => s.queries
  | .iterative s => s.queries
  | .print s => s.queries
  | .cache s => s.queries
  | .compact s => s.queries
  | .textLoader .. | .ingest .. | .cluster .. => []

namespace Waypoint

variable {v w : Waypoint} {q r : QueryId}

/-- The queries that a waypoint keeps something for. -/
def queries (w : Waypoint) : List QueryId := w.flows.queries ++ w.role.queries

theorem mem_queries : q ∈ w.queries ↔ q ∈ w.flows.queries ∨ q ∈ w.role.queries := List.mem_append

/-- A waypoint keeps something for the queries that are registered on it. -/
theorem mem_queries_of_covers (h : w.covers q = true) : q ∈ w.queries := by
  refine mem_queries.2 (.inl (QueryTable.mem_queries_iff.2 fun hd => ?_))
  rw [covers, flow, hd] at h
  cases h

/-- Nothing is kept for a query that is not listed. -/
theorem not_mem_queries_iff : q ∉ w.queries ↔ w.only q = w.clear := by
  have htable {β : Type} [Inhabited β] [DecidableEq β] {t : QueryTable β} :
      q ∉ t.queries ↔ t.only q = ∅ := by
    rw [QueryTable.mem_queries_iff, ne_eq, Decidable.not_not]
    constructor
    · intro h
      ext r
      rw [QueryTable.get_only, h, QueryTable.get_empty, ite_self]
    · intro h
      rw [← QueryTable.get_only_self t, h, QueryTable.get_empty]
  rw [mem_queries, not_or, htable]
  cases hr : w.role <;>
    simp [Role.queries, only, clear, hr, Role.only, Role.clear, htable]

/-- What is kept for a query shows in what belongs to it alone. -/
theorem mem_queries_congr (h : v.only q = w.only q) : q ∈ v.queries ↔ q ∈ w.queries := by
  have honly (u : Waypoint) : q ∈ (u.only q).queries ↔ q ∈ u.queries := by
    rw [mem_queries, mem_queries]
    cases hr : u.role <;> simp [only, hr, Role.only, Role.queries, QueryTable.mem_queries_only]
  rw [← honly v, h, honly]

/-! ## Registration -/

theorem only_enrol_of_ne (h : r ≠ q) (w : Waypoint) (d : Duty) :
    (w.enrol r d).only q = w.only q := by
  have hset {β : Type} [Inhabited β] [DecidableEq β] (t : QueryTable β) (b : β) :
      (t.set r b).only q = t.only q := QueryTable.only_modify_of_ne h t fun _ => b
  unfold enrol
  split <;>
    simp_all [only, enrolWith, modifyFlow, Role.only, QueryTable.only_modify_of_ne h]

theorem only_enrol (w : Waypoint) (q : QueryId) (d : Duty) :
    (w.enrol q d).only q = (w.only q).enrol q d := by
  have hset {β : Type} [Inhabited β] [DecidableEq β] (t : QueryTable β) (b : β) :
      (t.set q b).only q = (t.only q).set q b := QueryTable.only_modify t q fun _ => b
  unfold enrol
  cases d <;> cases hr : w.role <;>
    simp [only, enrolWith, modifyFlow, Role.only, QueryTable.only_modify, hr, hset]

/-- Registering any query, what is then kept for another depends on what was. -/
theorem only_enrol_congr (h : v.only q = w.only q) (r : QueryId) (d : Duty) :
    (v.enrol r d).only q = (w.enrol r d).only q := by
  by_cases hr : r = q
  · rw [hr, only_enrol, h, only_enrol]
  · rw [only_enrol_of_ne hr, h, only_enrol_of_ne hr]

/-- Registering a query keeps what is kept for it, and nothing more of the others. -/
theorem mem_queries_of_enrol {d : Duty} (h : r ∈ (w.enrol q d).queries) :
    r = q ∨ r ∈ w.queries := by
  by_cases hrq : r = q
  · exact .inl hrq
  · exact .inr ((mem_queries_congr (only_enrol_of_ne (Ne.symm hrq) w d)).1 h)

/-- What a registration wrote is gone once the query is deleted. -/
theorem deleteQuery_enrol (w : Waypoint) (q : QueryId) (d : Duty) :
    (w.enrol q d).deleteQuery q = w.deleteQuery q := by
  have hset {β : Type} [Inhabited β] [DecidableEq β] (t : QueryTable β) (b : β) :
      (t.set q b).forget q = t.forget q := QueryTable.forget_modify t q fun _ => b
  unfold enrol
  split <;>
    simp_all [deleteQuery, enrolWith, modifyFlow, Role.forget, QueryTable.forget_modify]

/-- A query stays registered whatever is registered. -/
theorem covers_enrol (d : Duty) (h : w.covers r = true) : (w.enrol q d).covers r = true := by
  by_cases hr : r = q
  · subst hr
    unfold enrol
    split <;>
      simp_all [covers, flow, enrolWith, modifyFlow, QueryTable.get_modify, Flow.cover,
        Flow.bypass, Flow.require, Flow.synthesize]
  · rw [covers, flow_eq_of_only (only_enrol_of_ne (Ne.symm hr) w d)]
    exact h

/-- A duty that makes its waypoint a root registers the query there. -/
theorem covers_enrol_self {d : Duty} (hd : d.rooted = true) (hw : w.kind ∈ d.kinds) :
    (w.enrol q d).covers q = true := by
  cases d <;> simp [Duty.rooted] at hd <;>
    cases hr : w.role <;> simp [kind, hr, Role.kind, Duty.kinds] at hw <;>
    simp [enrol, hr, covers, flow, enrolWith, modifyFlow, QueryTable.get_modify, Flow.cover,
      Flow.require]

/-! ## Deletion -/

theorem mem_queries_deleteQuery : r ∈ (w.deleteQuery q).queries ↔ r ≠ q ∧ r ∈ w.queries := by
  rw [mem_queries, mem_queries]
  cases hr : w.role <;>
    simp [deleteQuery, hr, Role.forget, Role.queries, QueryTable.mem_queries_forget, and_or_left]

/-- Deleting a query that nothing is kept for changes nothing. -/
theorem deleteQuery_eq_self (h : q ∉ w.queries) : w.deleteQuery q = w := by
  rw [mem_queries, not_or] at h
  obtain ⟨id, name, flows, role⟩ := w
  simp only [deleteQuery, QueryTable.forget_eq_self h.1]
  cases role <;> simp_all [Role.forget, Role.queries, QueryTable.forget_eq_self]

theorem only_deleteQuery (w : Waypoint) (q r : QueryId) :
    (w.deleteQuery r).only q = (w.only q).deleteQuery r := by
  cases hr : w.role <;>
    simp [only, deleteQuery, hr, Role.only, Role.forget, QueryTable.only_forget]

theorem only_clear (w : Waypoint) (q : QueryId) : w.clear.only q = (w.only q).clear := by
  have hempty {β : Type} [Inhabited β] [DecidableEq β] : (∅ : QueryTable β).only q = ∅ := by
    ext r
    rw [QueryTable.get_only, QueryTable.get_empty, QueryTable.get_empty, ite_self]
  cases hr : w.role <;> simp [only, clear, hr, Role.only, Role.clear, hempty]

@[simp] theorem queries_clear (w : Waypoint) : w.clear.queries = [] := by
  obtain ⟨id, name, flows, role⟩ := w
  cases role <;> rfl

/-! ## Cycles -/

theorem mem_queries_of_beginCycle (h : q ∈ w.beginCycle.queries) : q ∈ w.queries := by
  rw [mem_queries] at h ⊢
  refine h.imp (QueryTable.mem_queries_of_mapAll rfl) fun h => ?_
  cases hr : w.role <;> simp only [beginCycle, hr, Role.beginCycle, Role.queries] at h ⊢
  case scanner | join | transform => exact QueryTable.mem_queries_of_mapAll rfl h
  all_goals exact h

/-- Emitting stores what is emitted for active queries. -/
theorem mem_queries_of_emit {active : QuerySet} (h : q ∈ (w.emit active).1.queries) :
    q ∈ active.toList ∨ q ∈ w.queries := by
  have each (l : List QueryId) (w : Waypoint) (h : q ∈ (w.emitEach l).1.queries) :
      q ∈ l ∨ q ∈ w.queries := by
    induction l generalizing w with
    | nil => exact .inr h
    | cons r rest ih =>
        rw [emitEach] at h
        cases he : w.emission r with
        | error e =>
            rw [he] at h
            exact .inr h
        | ok slots =>
            rw [he] at h
            by_cases hr : r = q
            · exact .inl (hr ▸ List.mem_cons_self)
            · exact (ih _ h).imp (List.mem_cons_of_mem r)
                (mem_queries_congr (only_setProduced_of_ne hr w slots)).1
  exact (each _ w h).imp_left fun hq => (List.mem_filter.1 hq).1

/-- What arrives is taken in for queries that are registered. -/
theorem mem_queries_of_receive {kind : EdgeKind} {m : QuerySlots}
    (h : q ∈ (w.receive kind m).queries) : q ∈ w.queries := by
  rw [receive] at h
  generalize m.entries = l at h
  induction l generalizing w with
  | nil => exact h
  | cons e rest ih =>
      rw [List.foldl_cons] at h
      have h := ih h
      split at h
      · rename_i hcovers
        by_cases he : e.1 = q
        · exact mem_queries_of_covers (he ▸ hcovers)
        · exact (mem_queries_congr (only_receiveFor_of_ne he w kind e.2)).1 h
      · exact h

/-- An answer is noted for the query that asked. -/
theorem mem_queries_of_ask {kind : EdgeKind} {needed below : SlotSet} {x : WaypointId}
    (ha : w.ask kind q needed ⟨q, x⟩ = .ok (below, v)) (h : r ∈ v.queries) :
    r = q ∨ r ∈ w.queries := by
  obtain ⟨-, -, rfl⟩ := ask_eq_ok_iff.1 ha
  by_cases hrq : r = q
  · exact .inl hrq
  · exact .inr ((mem_queries_congr (only_answered_of_ne (Ne.symm hrq) w kind needed x)).1 h)

/-- A waypoint just created keeps nothing. -/
theorem queries_fresh (id : WaypointId) (name : String) {role : Role}
    (h : role.clear = role) : (fresh id name role).queries = [] := by
  rw [fresh, ← h]
  exact queries_clear ⟨id, name, ∅, role⟩

end Waypoint

end SharedPlan
