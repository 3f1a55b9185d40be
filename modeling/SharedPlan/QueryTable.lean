import SharedPlan.Ident
import SharedPlan.Ordered.Map

/-!
# SharedPlan.QueryTable

A record for every query, of which finitely many differ from the default one.

A waypoint keeps one such table for each kind of record: looking a query up
always answers, a query that was never registered has the default record, and
forgetting a query is setting its record back to the default.  Records equal to
the default are not stored, so two tables with the same records are equal
(`QueryTable.ext`).
-/

namespace SharedPlan

/-- A record of type `β` for every query; only those that differ from the
default are stored. -/
structure QueryTable (β : Type) [Inhabited β] where
  /-- The stored records. -/
  stored : OrdMap QueryId β
  /-- No stored record is the default one. -/
  proper : ∀ e ∈ stored.entries, e.2 ≠ default
  deriving DecidableEq

namespace QueryTable

variable {β : Type} [Inhabited β]

/-- Every query has the default record. -/
def empty : QueryTable β := ⟨∅, fun _ h => absurd h List.not_mem_nil⟩

instance : EmptyCollection (QueryTable β) := ⟨empty⟩

instance : Inhabited (QueryTable β) := ⟨∅⟩

/-- The record of a query. -/
def get (t : QueryTable β) (q : QueryId) : β := (t.stored.get? q).getD default

/-- The queries whose record differs from the default, ascending. -/
def queries (t : QueryTable β) : List QueryId := t.stored.keys

variable [DecidableEq β]

/-- Drop the entries that hold the default record. -/
def ofMap (m : OrdMap QueryId β) : QueryTable β :=
  ⟨m.filter fun _ b => b != default, fun e h => by
    simpa [OrdMap.filter] using (List.mem_filter.1 h).2⟩

/-- Give a query a record. -/
def set (t : QueryTable β) (q : QueryId) (b : β) : QueryTable β := ofMap (t.stored.insert q b)

/-- Change the record of a query. -/
def modify (t : QueryTable β) (q : QueryId) (f : β → β) : QueryTable β := t.set q (f (t.get q))

/-- Set the record of a query back to the default. -/
def forget (t : QueryTable β) (q : QueryId) : QueryTable β := t.set q default

/-- Change the record of every query; the default record stays what it is. -/
def mapAll (f : β → β) (t : QueryTable β) : QueryTable β :=
  ofMap (t.stored.mapValues fun _ b => f b)

/-- The map of what `f` answers for the queries with a stored record. -/
def collect {γ : Type} (t : QueryTable β) (f : β → Option γ) : OrdMap QueryId γ :=
  t.stored.filterMap fun _ b => f b

/-- The queries whose record passes a test that the default record fails, ascending. -/
def select (t : QueryTable β) (p : β → Bool) : List QueryId :=
  (t.stored.filter fun _ b => p b).keys

/-! ## Look-ups -/

omit [DecidableEq β] in
@[simp] theorem get_empty (q : QueryId) : (∅ : QueryTable β).get q = default := rfl

/-- A query without an entry has the default record. -/
@[simp] theorem get_ofMap (m : OrdMap QueryId β) (q : QueryId) :
    (ofMap m).get q = (m.get? q).getD default := by
  simp only [get, ofMap, OrdMap.get?_filter]
  cases m.get? q with
  | none => rfl
  | some b => by_cases h : b = default <;> simp [Option.filter, h]

/-- The query that a record was given to has it, any other what it had. -/
theorem get_set (t : QueryTable β) (q r : QueryId) (b : β) :
    (t.set q b).get r = if r = q then b else t.get r := by
  rw [set, get_ofMap, OrdMap.get?_insert]
  by_cases h : r = q <;> simp [h, get]

@[simp] theorem get_set_self (t : QueryTable β) (q : QueryId) (b : β) :
    (t.set q b).get q = b := by
  simp [get_set]

/-- A changed record is the query's own. -/
theorem get_modify (t : QueryTable β) (q r : QueryId) (f : β → β) :
    (t.modify q f).get r = if r = q then f (t.get q) else t.get r :=
  get_set t q r _

/-- A forgotten query has the default record. -/
theorem get_forget (t : QueryTable β) (q r : QueryId) :
    (t.forget q).get r = if r = q then default else t.get r :=
  get_set t q r _

/-- A change that keeps the default record is seen at every query. -/
theorem get_mapAll {f : β → β} (hf : f default = default) (t : QueryTable β) (q : QueryId) :
    (t.mapAll f).get q = f (t.get q) := by
  rw [mapAll, get_ofMap, OrdMap.get?_mapValues, get]
  cases t.stored.get? q with
  | none => exact hf.symm
  | some b => rfl

/-- A record is stored exactly when it differs from the default one. -/
theorem get?_stored (t : QueryTable β) (q : QueryId) :
    t.stored.get? q = if t.get q = default then none else some (t.get q) := by
  cases h : t.stored.get? q with
  | none => simp [get, h]
  | some b =>
    have : b ≠ default := t.proper (q, b) (OrdMap.get?_eq_some_iff.1 h)
    simp [get, h, this]

/-- Tables that give every query the same record are equal. -/
@[ext] theorem ext {s t : QueryTable β} (h : ∀ q, s.get q = t.get q) : s = t := by
  have key : s.stored = t.stored := OrdMap.ext fun q => by
    rw [get?_stored, get?_stored, h]
  obtain ⟨m, hm⟩ := s
  obtain ⟨n, hn⟩ := t
  cases key
  rfl

end QueryTable

end SharedPlan
