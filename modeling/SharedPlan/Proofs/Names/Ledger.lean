import Mathlib.Data.List.Perm.Subperm
import SharedPlan.Attempt
import SharedPlan.Proofs.Names.Queries

/-!
# SharedPlan.Proofs.Names.Ledger

The allocator of query ids, written down in place.

`QueryRegistry` says which queries are active and which name is whose by its one map of
names.  A `QueryLedger` keeps both written down, the active queries in a word and the names
both ways, and changes one container after another.  In a `Consistent` ledger the four agree;
every call keeps it so, and carries out on the ledger what it carries out on the registry
(`QueryLedger.consistent_after`).
-/

namespace SharedPlan

namespace QuerySet

variable {s : QuerySet} {q t : QueryId}

theorem pairwise_ids : ids.Pairwise fun q t => q.val ≤ t.val := by
  decide +kernel

/-- The first free id is the least. -/
theorem firstFree?_eq_some (h : s.firstFree? = some q) :
    q ∈ ids ∧ q ∉ s.toList ∧ ∀ t ∈ ids, t ∉ s.toList → q.val ≤ t.val := by
  obtain ⟨hq, before, after, hids, hbefore⟩ := List.find?_eq_some_iff_append.1 h
  have hmem : q ∈ ids := hids ▸ List.mem_append_right _ List.mem_cons_self
  have hsorted := pairwise_ids
  rw [hids, List.pairwise_append, List.pairwise_cons] at hsorted
  refine ⟨hmem, fun hin => ?_, fun t ht hfree => ?_⟩
  · rw [mem_def.1 (mem_toList.1 hin).1] at hq
    cases hq
  · rw [hids, List.mem_append, List.mem_cons] at ht
    rcases ht with ht | rfl | ht
    · refine absurd (mem_toList.2 ⟨?_, mem_ids.1 ?_⟩) hfree
      · simpa [mem_def] using hbefore t ht
      · exact hids ▸ List.mem_append_left _ ht
    · exact UInt8.le_refl _
    · exact hsorted.2.1.1 t ht

/-- The ids that a registry with room for `n` queries hands out. -/
theorem length_ids_filter {n : Nat} (hn : n ≤ capacity) :
    (ids.filter fun q => q.val.toNat < n).length = n := by
  have hall : ∀ n ≤ 64, (ids.filter fun q => q.val.toNat < n).length = n := by decide +kernel
  exact hall n hn

/-- A set of the ids below a bound has as many members as the bound when it has them all. -/
theorem size_eq_iff {n : Nat} (hn : n ≤ capacity) (hs : ∀ q ∈ s.toList, q.val.toNat < n) :
    s.size = n ↔ ∀ q ∈ ids, q.val.toNat < n → q ∈ s.toList := by
  have hlength := length_ids_filter hn
  have hsub : s.toList.Subperm (ids.filter fun q => q.val.toNat < n) :=
    List.subperm_of_subset s.nodup_toList fun q hq =>
      List.mem_filter.2 ⟨mem_ids.2 (mem_toList.1 hq).2, decide_eq_true (hs q hq)⟩
  rw [size]
  constructor
  · intro hsize q hq hlt
    refine (hsub.perm_of_length_le ?_).mem_iff.2 (List.mem_filter.2 ⟨hq, decide_eq_true hlt⟩)
    exact Nat.le_of_eq (hlength.trans hsize.symm)
  · intro hall
    have hback : (ids.filter fun q => q.val.toNat < n).Subperm s.toList := by
      refine List.subperm_of_subset (nodup_ids.filter _) fun q hq => ?_
      obtain ⟨hids, hlt⟩ := List.mem_filter.1 hq
      exact hall q hids (of_decide_eq_true hlt)
    have hle := hsub.length_le
    have hge := hback.length_le
    omega

end QuerySet

/-- The query ids with everything that is written down about them. -/
structure QueryLedger where
  /-- How many queries may be active at once. -/
  capacity : Nat
  active : QuerySet
  /-- The primary name of each active query. -/
  names : OrdMap QueryId String
  /-- The query with each primary name. -/
  byName : OrdMap String QueryId
  /-- Further names of active queries. -/
  aliases : OrdMap String QueryId

namespace QueryLedger

variable {l : QueryLedger} {q t : QueryId} {name : String}

/-- The empty ledger that admits a number of queries. -/
def withCapacity (capacity : Nat) : QueryLedger :=
  ⟨max 1 (min capacity QuerySet.capacity), ∅, ∅, ∅, ∅⟩

/-- Whether some query has the name, as its primary one or as another. -/
def taken (l : QueryLedger) (name : String) : Bool :=
  l.byName.contains name || l.aliases.contains name

/-- The query with a primary name or alias. -/
def lookup (l : QueryLedger) (name : String) : Option QueryId :=
  (l.byName.get? name).or (l.aliases.get? name)

/-- The lowest id that a new query could take. -/
def nextFree? (l : QueryLedger) : Option QueryId :=
  l.active.firstFree?.filter fun q => q.val.toNat < l.capacity

/-- Give a new query the lowest free id. -/
def add (name : String) : Attempt QueryLedger QueryId := do
  if (← get).taken name then throw (.duplicateQuery name)
  let some id := (← get).nextFree? | throw (.queryUniverseFull (← get).capacity)
  modify fun l => { l with active := l.active.insert id }
  modify fun l => { l with names := l.names.insert id name }
  modify fun l => { l with byName := l.byName.insert name id }
  return id

/-- Release an id along with its name and aliases, and answer whether it was in use. -/
def remove (id : QueryId) : Attempt QueryLedger Bool := do
  if id ∉ (← get).active then return false
  modify fun l => { l with active := l.active.erase id }
  if let some name := (← get).names.get? id then
    modify fun l => { l with names := l.names.erase id }
    modify fun l => { l with byName := l.byName.erase name }
  modify fun l => { l with aliases := l.aliases.filter fun _ target => target != id }
  return true

/-- Give an active query another name. -/
def addAlias (name : String) (id : QueryId) : Attempt QueryLedger Unit := do
  if id ∉ (← get).active then throw (.unknownQuery id.text)
  if (← get).taken name then throw (.duplicateQuery name)
  modify fun l => { l with aliases := l.aliases.insert name id }

/-! ## What is written down agrees -/

/-- Active ids and primary names belong to each other, aliases are further names of active
ids, and every active id is below the capacity. -/
structure Consistent (l : QueryLedger) : Prop where
  capacity_le : l.capacity ≤ QuerySet.capacity
  named : ∀ q, q ∈ l.active.toList ↔ ∃ name, l.names.get? q = some name
  inverse : ∀ q name, l.names.get? q = some name ↔ l.byName.get? name = some q
  apart : ∀ name q, l.aliases.get? name = some q → l.byName.get? name = none
  targets : ∀ name q, l.aliases.get? name = some q → q ∈ l.active.toList
  below : ∀ q ∈ l.active.toList, q.val.toNat < l.capacity

theorem consistent_withCapacity (capacity : Nat) : (withCapacity capacity).Consistent where
  capacity_le := by
    simp only [withCapacity, QuerySet.capacity]
    omega
  named q := by
    refine iff_of_false (fun hq => QuerySet.not_mem_empty q (QuerySet.mem_toList.1 hq).1) ?_
    rintro ⟨_, h⟩
    cases h
  inverse _ _ := by constructor <;> intro h <;> cases h
  apart _ _ h := by cases h
  targets _ _ h := by cases h
  below q hq := absurd (QuerySet.mem_toList.1 hq).1 (QuerySet.not_mem_empty q)

/-- A name is taken if it finds a query. -/
theorem taken_eq_isSome : l.taken name = (l.lookup name).isSome := by
  rw [taken, lookup, Option.isSome_or]
  rfl

/-- A name stands for an active query only. -/
theorem Consistent.of_lookup (h : l.Consistent) (hq : l.lookup name = some q) :
    q ∈ l.active.toList := by
  rcases Option.or_eq_some_iff.1 hq with hq | ⟨-, hq⟩
  · exact (h.named q).2 ⟨name, (h.inverse q name).2 hq⟩
  · exact h.targets name q hq

/-- Write a new query down. -/
def enrol (l : QueryLedger) (id : QueryId) (name : String) : QueryLedger :=
  { l with
    active := l.active.insert id
    names := l.names.insert id name
    byName := l.byName.insert name id }

/-- Strike an id out, along with its name. -/
def release (l : QueryLedger) (id : QueryId) (name : String) : QueryLedger :=
  { l with
    active := l.active.erase id
    names := l.names.erase id
    byName := l.byName.erase name
    aliases := l.aliases.filter fun _ target => target != id }

/-- Adding a query in one step: refused when the name is taken or no id is free. -/
theorem outcome_add (name : String) (l : QueryLedger) :
    (add name).outcome l =
      if l.taken name then (.error (.duplicateQuery name), l)
      else match l.nextFree? with
        | none => (.error (.queryUniverseFull l.capacity), l)
        | some id => (.ok id, l.enrol id name) := by
  cases htaken : l.taken name with
  | true => simp [add, Attempt.outcome_bind, htaken]
  | false =>
      cases hfree : l.nextFree? with
      | none => simp [add, Attempt.outcome_bind, htaken, hfree]
      | some id =>
          simp only [add, Attempt.outcome_bind, Attempt.outcome_get, htaken, hfree,
            Bool.false_eq_true, if_false]
          rfl

/-- Adding an alias in one step: refused for a query that is not active or a name that is taken.
-/
theorem outcome_addAlias (name : String) (id : QueryId) (l : QueryLedger) :
    (addAlias name id).outcome l =
      if id ∉ l.active then (.error (.unknownQuery id.text), l)
      else if l.taken name then (.error (.duplicateQuery name), l)
      else (.ok (), { l with aliases := l.aliases.insert name id }) := by
  by_cases hactive : id ∈ l.active <;> cases htaken : l.taken name <;>
    simp [addAlias, Attempt.outcome_bind, hactive, htaken]

/-- An id in use is struck out along with its name; for another, nothing happens. -/
theorem Consistent.outcome_remove (h : l.Consistent) (hq : q ∈ QuerySet.ids) :
    (∃ name, l.names.get? q = some name ∧
        (remove q).outcome l = (.ok true, l.release q name)) ∨
      q ∉ l.active.toList ∧ (remove q).outcome l = (.ok false, l) := by
  by_cases hactive : q ∈ l.active
  · obtain ⟨name, hname⟩ := (h.named q).1 (QuerySet.mem_toList.2 ⟨hactive, QuerySet.mem_ids.1 hq⟩)
    refine .inl ⟨name, hname, ?_⟩
    simp only [remove, Attempt.outcome_bind, Attempt.outcome_get, hactive, not_true, if_false,
      Attempt.outcome_modify, hname]
    rfl
  · refine .inr ⟨fun hmem => hactive (QuerySet.mem_toList.1 hmem).1, ?_⟩
    simp [remove, Attempt.outcome_bind, hactive]

/-! ## Calls keep it so -/

/-- The containers agree after a query is enrolled. -/
theorem Consistent.enrol (h : l.Consistent) (hq : q ∈ QuerySet.ids) (hfree : q ∉ l.active.toList)
    (hlt : q.val.toNat < l.capacity) (hname : l.lookup name = none) :
    (l.enrol q name).Consistent := by
  obtain ⟨hnew, halias⟩ := Option.or_eq_none_iff.1 hname
  have hnameless : ∀ n, l.names.get? q ≠ some n := fun n hn => hfree ((h.named q).2 ⟨n, hn⟩)
  refine ⟨h.capacity_le, fun t => ?_, fun t n => ?_, fun n t hn => ?_, fun n t hn => ?_,
    fun t ht => ?_⟩
  · rw [QueryLedger.enrol, QuerySet.mem_toList_insert hq, OrdMap.get?_insert, h.named]
    split <;> simp_all
  · simp only [QueryLedger.enrol, OrdMap.get?_insert]
    by_cases htq : t = q <;> by_cases hnn : n = name <;> grind [h.inverse]
  · simp only [QueryLedger.enrol, OrdMap.get?_insert] at hn ⊢
    rw [if_neg (by rintro rfl; rw [halias] at hn; cases hn)]
    exact h.apart n t hn
  · exact (QuerySet.mem_toList_insert hq).2 (.inr (h.targets n t hn))
  · rcases (QuerySet.mem_toList_insert hq).1 ht with rfl | ht
    · exact hlt
    · exact h.below t ht

/-- The containers agree after a query is released. -/
theorem Consistent.release (h : l.Consistent) (hq : q ∈ QuerySet.ids)
    (hname : l.names.get? q = some name) : (l.release q name).Consistent := by
  refine ⟨h.capacity_le, fun t => ?_, fun t n => ?_, fun n t hn => ?_, fun n t hn => ?_,
    fun t ht => h.below t ((QuerySet.mem_toList_erase hq).1 ht).2⟩
  · rw [QueryLedger.release, QuerySet.mem_toList_erase hq, OrdMap.get?_erase, h.named]
    split <;> simp_all
  · simp only [QueryLedger.release, OrdMap.get?_erase]
    by_cases htq : t = q <;> by_cases hnn : n = name <;> grind [h.inverse]
  · simp only [QueryLedger.release, OrdMap.get?_filter, OrdMap.get?_erase] at hn ⊢
    split
    · rfl
    · exact h.apart n t (Option.filter_eq_some_iff.1 hn).1
  · simp only [QueryLedger.release, OrdMap.get?_filter] at hn ⊢
    obtain ⟨ht, hne⟩ := Option.filter_eq_some_iff.1 hn
    exact (QuerySet.mem_toList_erase hq).2 ⟨bne_iff_ne.1 hne, h.targets n t ht⟩

theorem Consistent.alias (h : l.Consistent) (hq : q ∈ l.active.toList)
    (hname : l.lookup name = none) :
    { l with aliases := l.aliases.insert name q }.Consistent := by
  obtain ⟨hnew, -⟩ := Option.or_eq_none_iff.1 hname
  refine ⟨h.capacity_le, h.named, h.inverse, fun n t hn => ?_, fun n t hn => ?_, h.below⟩
  · simp only [OrdMap.get?_insert] at hn
    split at hn
    · rename_i hnn
      exact hnn ▸ hnew
    · exact h.apart n t hn
  · simp only [OrdMap.get?_insert] at hn
    split at hn
    · exact Option.some.inj hn ▸ hq
    · exact h.targets n t hn

/-! ## What the registry says -/

/-- The registry of what is written down. -/
def registry (l : QueryLedger) : QueryRegistry := ⟨l.capacity, l.names, l.aliases⟩

theorem Consistent.active_registry (h : l.Consistent) : l.registry.active = l.active := by
  have hkeys (q : QueryId) : q ∈ l.names.keys ↔ q ∈ l.active.toList := by
    rw [OrdMap.mem_keys_iff, Option.isSome_iff_exists, h.named]
  refine QuerySet.ext fun q hq => ?_
  rw [QueryRegistry.active, registry, QuerySet.mem_ofList _ hq, hkeys, QuerySet.mem_toList]
  · exact and_iff_left hq
  · exact fun t ht => (QuerySet.mem_toList.1 ((hkeys t).1 ht)).2

theorem Consistent.primary?_registry (h : l.Consistent) (name : String) :
    l.registry.primary? name = l.byName.get? name := by
  cases hn : l.byName.get? name with
  | some q =>
      obtain ⟨t, ht⟩ := QueryRegistry.exists_primary? (r := l.registry) ((h.inverse q name).2 hn)
      have hback := (h.inverse t name).1 (QueryRegistry.names_of_primary? ht)
      rw [ht, ← hn, hback]
  | none =>
      refine Option.eq_none_iff_forall_not_mem.2 fun t ht => ?_
      have hback := (h.inverse t name).1 (QueryRegistry.names_of_primary? ht)
      rw [hn] at hback
      cases hback

/-- A name finds the same query in the ledger and in its registry. -/
theorem Consistent.lookup_registry (h : l.Consistent) (name : String) :
    l.registry.lookup name = l.lookup name := by
  rw [QueryRegistry.lookup, h.primary?_registry]
  rfl

theorem Consistent.nextFree?_registry (h : l.Consistent) : l.registry.nextFree? = l.nextFree? := by
  rw [QueryRegistry.nextFree?, h.active_registry]
  rfl

/-- Handing out an id comes to the same. -/
theorem Consistent.add_registry (h : l.Consistent) (name : String) :
    l.registry.add name =
      ((add name).outcome l).1.map fun id => (id, ((add name).outcome l).2.registry) := by
  rw [QueryRegistry.add, outcome_add, h.lookup_registry, h.nextFree?_registry, taken_eq_isSome]
  cases (l.lookup name).isSome with
  | true => rfl
  | false => cases l.nextFree? <;> rfl

theorem Consistent.addAlias_registry (h : l.Consistent) (name : String) (q : QueryId) :
    l.registry.addAlias name q =
      ((addAlias name q).outcome l).1.map fun _ => ((addAlias name q).outcome l).2.registry := by
  rw [QueryRegistry.addAlias, outcome_addAlias, h.active_registry, h.lookup_registry,
    taken_eq_isSome]
  by_cases hq : q ∈ l.active <;> cases (l.lookup name).isSome <;>
    simp only [hq, not_true, not_false_iff, if_true, if_false, Bool.false_eq_true] <;> rfl

/-- Releasing an id that is not in use changes nothing. -/
theorem Consistent.release_of_not_mem (h : l.Consistent) (hq : q ∉ l.active.toList) :
    l.registry.remove q = l.registry := by
  simp only [QueryRegistry.remove, registry, QueryRegistry.mk.injEq, true_and]
  constructor
  · ext1 t
    rw [OrdMap.get?_erase]
    split
    · rename_i htq
      exact (Option.eq_none_iff_forall_not_mem.2 fun n hn => hq ((h.named q).2 ⟨n, htq ▸ hn⟩)).symm
    · rfl
  · ext1 n
    rw [OrdMap.get?_filter]
    cases ht : l.aliases.get? n with
    | none => rfl
    | some t =>
        rw [Option.filter_some, if_pos]
        exact bne_iff_ne.2 fun htq => hq (htq ▸ h.targets n t ht)

theorem Consistent.remove_registry (h : l.Consistent) (hq : q ∈ QuerySet.ids) :
    l.registry.remove q = ((remove q).outcome l).2.registry := by
  obtain ⟨name, -, hremove⟩ | ⟨hinactive, hremove⟩ := h.outcome_remove hq
  · rw [hremove]
    rfl
  · rw [hremove]
    exact h.release_of_not_mem hinactive

/-! ## Allocation is exact -/

/-- The next id is the least that is free. -/
theorem nextFree?_eq_some (h : l.nextFree? = some q) :
    q ∈ QuerySet.ids ∧ q ∉ l.active.toList ∧ q.val.toNat < l.capacity ∧
      ∀ t ∈ QuerySet.ids, t ∉ l.active.toList → q.val ≤ t.val := by
  obtain ⟨hfirst, hlt⟩ := Option.filter_eq_some_iff.1 h
  obtain ⟨hids, hfree, hleast⟩ := QuerySet.firstFree?_eq_some hfirst
  exact ⟨hids, hfree, of_decide_eq_true hlt, hleast⟩

/-- An id that is free below the capacity is found, or one before it. -/
theorem exists_nextFree? (hq : q ∈ QuerySet.ids) (hfree : q ∉ l.active.toList)
    (hlt : q.val.toNat < l.capacity) : ∃ t, l.nextFree? = some t := by
  have hcontains : (!l.active.contains q) = true := by
    rw [Bool.not_eq_true', ← Bool.not_eq_true]
    exact fun hmem => hfree (QuerySet.mem_toList.2 ⟨hmem, QuerySet.mem_ids.1 hq⟩)
  obtain ⟨t, ht⟩ : ∃ t, l.active.firstFree? = some t :=
    Option.isSome_iff_exists.1 (List.find?_isSome.2 ⟨q, hq, hcontains⟩)
  have hle := (QuerySet.firstFree?_eq_some ht).2.2 q hq hfree
  exact ⟨t, Option.filter_eq_some_iff.2
    ⟨ht, decide_eq_true (Nat.lt_of_le_of_lt (UInt8.le_iff_toNat_le.1 hle) hlt)⟩⟩

/-- No id is left exactly when as many are in use as the ledger admits. -/
theorem Consistent.nextFree?_eq_none_iff (h : l.Consistent) :
    l.nextFree? = none ↔ l.active.size = l.capacity := by
  rw [QuerySet.size_eq_iff h.capacity_le h.below]
  constructor
  · intro hnone q hq hlt
    by_contra hfree
    obtain ⟨t, ht⟩ := exists_nextFree? hq hfree hlt
    rw [hnone] at ht
    cases ht
  · intro hall
    refine Option.eq_none_iff_forall_not_mem.2 fun t ht => ?_
    obtain ⟨hids, hfree, hlt, -⟩ := nextFree?_eq_some ht
    exact hfree (hall t hids hlt)

/-- **Releasing** an id takes its names away, and no others. -/
theorem Consistent.lookup_release (h : l.Consistent) (hname : l.names.get? q = some name)
    (n : String) :
    (l.release q name).lookup n = if l.lookup n = some q then none else l.lookup n := by
  have hprimary : l.byName.get? name = some q := (h.inverse q name).1 hname
  simp only [lookup, QueryLedger.release, OrdMap.get?_erase, OrdMap.get?_filter]
  by_cases hn : n = name
  · subst hn
    have halias : l.aliases.get? n = none := by
      refine Option.eq_none_iff_forall_not_mem.2 fun t ht => ?_
      rw [h.apart n t ht] at hprimary
      cases hprimary
    simp [hprimary, halias]
  · rw [if_neg hn]
    obtain hnone | ⟨t, ht⟩ := Option.eq_none_or_eq_some (l.byName.get? n)
    · obtain halias | ⟨t, ht⟩ := Option.eq_none_or_eq_some (l.aliases.get? n)
      · simp [hnone, halias]
      · by_cases htq : t = q <;> simp [hnone, ht, htq]
    · -- the name of another id
      have hne : t ≠ q := by
        rintro rfl
        have hboth := (h.inverse t n).2 ht
        rw [hname] at hboth
        exact hn (Option.some.inj hboth).symm
      simp [ht, hne]

/-- A removed query takes every name that found it along. -/
theorem Consistent.lookup_remove (h : l.Consistent) (hq : q ∈ QuerySet.ids) (n : String) :
    ((remove q).outcome l).2.lookup n = if l.lookup n = some q then none else l.lookup n := by
  obtain ⟨name, hname, hremove⟩ | ⟨hinactive, hremove⟩ := h.outcome_remove hq
  · rw [hremove]
    exact h.lookup_release hname n
  · rw [hremove, if_neg fun hn => hinactive (h.of_lookup hn)]

end QueryLedger

/-! ## Whole runs -/

/-- A call of the allocator.  An id is one of the universe: the word of active queries has no bit
for another. -/
inductive QueryCall where
  | add (name : String)
  | remove (id : QueryId) (h : id ∈ QuerySet.ids)
  | addAlias (name : String) (id : QueryId) (h : id ∈ QuerySet.ids)

/-- A call carried out in place. -/
def QueryCall.inPlace : QueryCall → Attempt QueryLedger Unit
  | add name => do let _ ← QueryLedger.add name
  | remove id _ => do let _ ← QueryLedger.remove id
  | addAlias name id _ => QueryLedger.addAlias name id

namespace QueryRegistry

/-- The registry after a call; one that fails changes nothing. -/
def perform (r : QueryRegistry) : QueryCall → QueryRegistry
  | .add name => match r.add name with
    | .ok (_, s) => s
    | .error _ => r
  | .remove id _ => r.remove id
  | .addAlias name id _ => match r.addAlias name id with
    | .ok s => s
    | .error _ => r

/-- The registry after a sequence of calls. -/
def after (capacity : Nat) (calls : List QueryCall) : QueryRegistry :=
  calls.foldl perform (withCapacity capacity)

theorem capacity_perform (r : QueryRegistry) (c : QueryCall) :
    (r.perform c).capacity = r.capacity := by
  cases c with
  | add name =>
      cases h : r.add name with
      | error e => simp only [perform, h]
      | ok p =>
          obtain ⟨-, -, -, hp⟩ := eq_of_add h
          simp only [perform, h, hp]
  | remove => rfl
  | addAlias name q =>
      cases h : r.addAlias name q with
      | error e => simp only [perform, h]
      | ok s =>
          obtain ⟨-, -, rfl⟩ := eq_of_addAlias h
          simp only [perform, h]

theorem capacity_after (capacity : Nat) (calls : List QueryCall) :
    (after capacity calls).capacity = max 1 (min capacity QuerySet.capacity) :=
  List.foldlRecOn (motive := fun r => r.capacity = (withCapacity capacity).capacity) calls perform
    rfl fun r hr c _ => (capacity_perform r c).trans hr

end QueryRegistry

namespace QueryLedger

variable {l : QueryLedger} {q : QueryId} {name : String}

/-- The ledger after a sequence of calls. -/
def after (capacity : Nat) (calls : List QueryCall) : QueryLedger :=
  calls.foldl (fun l c => (c.inPlace.outcome l).2) (withCapacity capacity)

theorem outcome_discard {α : Type} (a : Attempt QueryLedger α) (l : QueryLedger) :
    ((do let _ ← a : Attempt QueryLedger Unit).outcome l) =
      ((a.outcome l).1.map fun _ => (), (a.outcome l).2) := by
  rw [Attempt.outcome_bind]
  rcases a.outcome l with ⟨_ | _, _⟩ <;> rfl

/-- **A call** keeps the ledger consistent, with the same capacity, and carries out on it what it
carries out on the registry. -/
theorem Consistent.perform (h : l.Consistent) (c : QueryCall) :
    (c.inPlace.outcome l).2.Consistent ∧
      (c.inPlace.outcome l).2.registry = l.registry.perform c := by
  cases c with
  | add name =>
      rw [QueryCall.inPlace, outcome_discard, QueryRegistry.perform, h.add_registry, outcome_add,
        taken_eq_isSome]
      cases hname : l.lookup name with
      | some q => exact ⟨h, rfl⟩
      | none =>
          cases hnext : l.nextFree? with
          | none => exact ⟨h, rfl⟩
          | some q =>
              obtain ⟨hids, hfree, hlt, -⟩ := nextFree?_eq_some hnext
              exact ⟨h.enrol hids hfree hlt hname, rfl⟩
  | remove q hq =>
      rw [QueryCall.inPlace, outcome_discard, QueryRegistry.perform, h.remove_registry hq]
      refine ⟨?_, rfl⟩
      obtain ⟨name, hname, hremove⟩ | ⟨-, hremove⟩ := h.outcome_remove hq
      · rw [hremove]
        exact h.release hq hname
      · rw [hremove]
        exact h
  | addAlias name q hq =>
      rw [QueryCall.inPlace, QueryRegistry.perform, h.addAlias_registry, outcome_addAlias,
        taken_eq_isSome]
      by_cases hactive : q ∈ l.active
      · rw [if_neg (not_not.2 hactive)]
        cases hname : l.lookup name with
        | some t => exact ⟨h, rfl⟩
        | none =>
            exact ⟨h.alias (QuerySet.mem_toList.2 ⟨hactive, QuerySet.mem_ids.1 hq⟩) hname, rfl⟩
      · rw [if_pos hactive]
        exact ⟨h, rfl⟩

/-- **After every run** the ledger is consistent and holds what the registry holds. -/
theorem consistent_after (capacity : Nat) (calls : List QueryCall) :
    (after capacity calls).Consistent ∧
      (after capacity calls).registry = QueryRegistry.after capacity calls := by
  have hrun (calls : List QueryCall) : ∀ l : QueryLedger, l.Consistent →
      (calls.foldl (fun l c => (c.inPlace.outcome l).2) l).Consistent ∧
        (calls.foldl (fun l c => (c.inPlace.outcome l).2) l).registry =
          calls.foldl QueryRegistry.perform l.registry := by
    induction calls with
    | nil => exact fun l h => ⟨h, rfl⟩
    | cons c rest ih =>
        intro l h
        obtain ⟨hc, heq⟩ := h.perform c
        rw [List.foldl_cons, List.foldl_cons, ← heq]
        exact ih _ hc
  exact hrun calls _ (consistent_withCapacity capacity)

/-- A call that fails changes nothing. -/
theorem Consistent.eq_of_error (h : l.Consistent) {c : QueryCall} {e : PlanError} {s : QueryLedger}
    (hc : c.inPlace.outcome l = (.error e, s)) : s = l := by
  cases c with
  | add name =>
      rw [QueryCall.inPlace, outcome_discard, outcome_add] at hc
      split at hc
      · exact (Prod.mk.inj hc).2.symm
      · split at hc
        · exact (Prod.mk.inj hc).2.symm
        · cases (Prod.mk.inj hc).1
  | remove q hq =>
      rw [QueryCall.inPlace, outcome_discard] at hc
      obtain ⟨_, -, hremove⟩ | ⟨-, hremove⟩ := h.outcome_remove hq <;> rw [hremove] at hc <;>
        cases (Prod.mk.inj hc).1
  | addAlias name q hq =>
      rw [QueryCall.inPlace, outcome_addAlias] at hc
      split at hc
      · exact (Prod.mk.inj hc).2.symm
      · split at hc
        · exact (Prod.mk.inj hc).2.symm
        · cases (Prod.mk.inj hc).1

/-- What the addition of a query answers. -/
theorem Consistent.answer_add (h : l.Consistent) (name : String) :
    (((add name).outcome l).1 = .error (.duplicateQuery name) ↔ (l.lookup name).isSome = true) ∧
      (((add name).outcome l).1 = .error (.queryUniverseFull l.capacity) ↔
        l.lookup name = none ∧ l.active.size = l.capacity) ∧
      (l.lookup name = none → l.active.size ≠ l.capacity →
        ∃ q, (add name).outcome l = (.ok q, l.enrol q name) ∧ q ∈ QuerySet.ids ∧
          q ∉ l.active.toList ∧ ∀ t ∈ QuerySet.ids, t ∉ l.active.toList → q.val ≤ t.val) := by
  have hfull := h.nextFree?_eq_none_iff
  rw [outcome_add, taken_eq_isSome]
  cases l.lookup name with
  | some t => simp
  | none =>
      cases hnext : l.nextFree? with
      | none => simp [hfull.1 hnext]
      | some q =>
          have hroom : l.active.size ≠ l.capacity := fun hsize => by simp [hfull.2 hsize] at hnext
          obtain ⟨hids, hfree, -, hleast⟩ := nextFree?_eq_some hnext
          exact ⟨by simp, by simp [hroom], fun _ _ => ⟨q, by simp, hids, hfree, hleast⟩⟩

theorem Consistent.names_eq_some_iff (h : l.Consistent) :
    l.names.get? q = some name ↔ l.lookup name = some q ∧ l.aliases.get? name = none := by
  rw [h.inverse, lookup, Option.or_eq_some_iff]
  constructor
  · intro hq
    refine ⟨.inl hq, Option.eq_none_iff_forall_not_mem.2 fun t ht => ?_⟩
    rw [h.apart name t ht] at hq
    cases hq
  · rintro ⟨hq | ⟨-, hq⟩, hnone⟩
    · exact hq
    · rw [hnone] at hq
      cases hq

/-- **Ids are allocated exactly.**  After every sequence of calls, the four containers agree with
one another and with the registry: every id in use, below the capacity, has its one primary name,
other names are apart from these, and a name stands for an id in use only.  The next query is
refused for its name exactly when some query has it, else for want of room exactly when as many
are active as the capacity, clamped to the universe, admits, and gets the least free id
otherwise.  Releasing an id takes its names away and no others. -/
theorem allocation_exact (capacity : Nat) (calls : List QueryCall) :
    let l := after capacity calls
    (l.registry = QueryRegistry.after capacity calls ∧ l.active = l.registry.active ∧
      (∀ name, l.lookup name = l.registry.lookup name) ∧
      (∀ name, l.registry.add name =
        ((add name).outcome l).1.map fun q => (q, ((add name).outcome l).2.registry)) ∧
      ∀ q ∈ QuerySet.ids, l.registry.remove q = ((remove q).outcome l).2.registry) ∧
    l.Consistent ∧
    (∀ q name, l.names.get? q = some name ↔
      l.lookup name = some q ∧ l.aliases.get? name = none) ∧
    (∀ name q, l.lookup name = some q → q ∈ l.active.toList) ∧
    (∀ (c : QueryCall) e s, c.inPlace.outcome l = (.error e, s) → s = l) ∧
    l.capacity = max 1 (min capacity 64) ∧
    (∀ name,
      (((add name).outcome l).1 = .error (.duplicateQuery name) ↔
        ∃ q, l.byName.get? name = some q ∨ l.aliases.get? name = some q) ∧
      (((add name).outcome l).1 = .error (.queryUniverseFull l.capacity) ↔
        l.lookup name = none ∧ l.active.size = l.capacity) ∧
      (l.lookup name = none → l.active.size ≠ l.capacity →
        ∃ q, (add name).outcome l = (.ok q, l.enrol q name) ∧ q ∈ QuerySet.ids ∧
          q ∉ l.active.toList ∧ ∀ t ∈ QuerySet.ids, t ∉ l.active.toList → q.val ≤ t.val)) ∧
    ∀ q ∈ QuerySet.ids, ∀ name, ((remove q).outcome l).2.lookup name =
      if l.lookup name = some q then none else l.lookup name := by
  intro l
  obtain ⟨h, hregistry⟩ : l.Consistent ∧ l.registry = _ := consistent_after capacity calls
  refine ⟨⟨hregistry, h.active_registry.symm, fun name => (h.lookup_registry name).symm,
      h.add_registry, fun q hq => h.remove_registry hq⟩, h,
    fun q name => h.names_eq_some_iff, fun name q => h.of_lookup, fun c e s => h.eq_of_error,
    ?_, fun name => ?_, fun q hq name => h.lookup_remove hq name⟩
  · exact (congrArg (·.capacity) hregistry).trans (QueryRegistry.capacity_after capacity calls)
  · obtain ⟨hduplicate, hfull, hleast⟩ := h.answer_add name
    refine ⟨hduplicate.trans ?_, hfull, hleast⟩
    rw [lookup, Option.isSome_or, Bool.or_eq_true, Option.isSome_iff_exists,
      Option.isSome_iff_exists, exists_or]

/-- Calls on a ledger with room for two queries: two are refused, and the first query goes. -/
def reusing : List QueryCall :=
  [.add "a", .addAlias "x" ⟨0⟩ QuerySet.zero_mem_ids, .add "x", .add "b", .add "c",
    .remove ⟨0⟩ QuerySet.zero_mem_ids]

/-- The id of a query that went is handed out again, without the names it had. -/
theorem allocation_exact_reusing :
    let l := after 2 reusing
    l.names.get? ⟨1⟩ = some "b" ∧ l.lookup "b" = some ⟨1⟩ ∧ ⟨1⟩ ∈ l.active.toList ∧
      ((addAlias "b" ⟨1⟩).outcome l).1 = .error (.duplicateQuery "b") ∧
      ((addAlias "b" ⟨1⟩).outcome l).2.registry = l.registry ∧
      ((remove ⟨1⟩).outcome l).2.lookup "b" = none ∧
      l.lookup "x" = none ∧ l.active.size ≠ l.capacity ∧
      ∃ q, (add "x").outcome l = (.ok q, l.enrol q "x") ∧ q.val ≤ 0 := by
  intro l
  obtain ⟨-, -, hinverse, hactive, herror, -, hadd, hremove⟩ := allocation_exact 2 reusing
  have hname : l.names.get? ⟨1⟩ = some "b" := by decide +kernel
  have hb : l.lookup "b" = some ⟨1⟩ := ((hinverse _ _).1 hname).1
  have hx : l.lookup "x" = none := by decide +kernel
  have hroom : l.active.size ≠ l.capacity := by decide +kernel
  have hrefused : ((addAlias "b" ⟨1⟩).outcome l).1 = .error (.duplicateQuery "b") := by
    decide +kernel
  have hsame : ((addAlias "b" ⟨1⟩).outcome l).2 = l := by
    refine herror (.addAlias "b" ⟨1⟩ (by decide)) (.duplicateQuery "b") _ ?_
    rw [QueryCall.inPlace, ← hrefused]
  have hgone : ((remove ⟨1⟩).outcome l).2.lookup "b" = none :=
    (hremove ⟨1⟩ (by decide) "b").trans (if_pos hb)
  obtain ⟨q, hq, -, -, hleast⟩ := (hadd "x").2.2 hx hroom
  exact ⟨hname, hb, hactive _ _ hb, hrefused, congrArg registry hsame, hgone, hx, hroom, q, hq,
    hleast ⟨0⟩ QuerySet.zero_mem_ids (by decide +kernel)⟩

end QueryLedger

end SharedPlan
