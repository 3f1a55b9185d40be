/-!
# SharedPlan.Ordered.Map

Finite maps kept as lists of entries with strictly ascending keys.

As with the sets beside them, the stored form is canonical (`OrdMap.ext`): two
maps that answer every look-up alike are equal.  Each operation has one lemma
that states its look-ups.
-/

namespace SharedPlan

/-- A finite map: its entries, with ascending keys. -/
structure OrdMap (κ ν : Type) [Ord κ] where
  /-- The entries in ascending order of their keys. -/
  entries : List (κ × ν)
  /-- Each key is below all that follow it. -/
  ascending : entries.Pairwise fun a b => compare a.1 b.1 = .lt
  deriving DecidableEq

namespace OrdMap

variable {κ ν μ : Type} [Ord κ]

instance : EmptyCollection (OrdMap κ ν) := ⟨⟨[], .nil⟩⟩

instance : Inhabited (OrdMap κ ν) := ⟨∅⟩

/-- The keys, ascending. -/
def keys (m : OrdMap κ ν) : List κ := m.entries.map (·.1)

/-- The values in the order of their keys. -/
def values (m : OrdMap κ ν) : List ν := m.entries.map (·.2)

/-- Whether the map has no entry. -/
def isEmpty (m : OrdMap κ ν) : Bool := m.entries.isEmpty

/-- The number of entries. -/
def size (m : OrdMap κ ν) : Nat := m.entries.length

/-- Look a key up in a list of entries. -/
def lookup (k : κ) : List (κ × ν) → Option ν
  | [] => none
  | (j, v) :: r =>
    match compare k j with
    | .eq => some v
    | _ => lookup k r

/-- The value stored under a key. -/
def get? (m : OrdMap κ ν) (k : κ) : Option ν := lookup k m.entries

/-- Whether a key has an entry. -/
def contains (m : OrdMap κ ν) (k : κ) : Bool := (m.get? k).isSome

/-- The entries that pass a test. -/
def filter (p : κ → ν → Bool) (m : OrdMap κ ν) : OrdMap κ ν :=
  ⟨m.entries.filter fun e => p e.1 e.2, m.ascending.filter _⟩

/-- Replace every value. -/
def mapValues (f : κ → ν → μ) (m : OrdMap κ ν) : OrdMap κ μ :=
  ⟨m.entries.map fun e => (e.1, f e.1 e.2), m.ascending.map _ fun _ _ h => h⟩

/-- Replace or drop every value. -/
def filterMap (f : κ → ν → Option μ) (m : OrdMap κ ν) : OrdMap κ μ :=
  ⟨m.entries.filterMap fun e => (f e.1 e.2).map (e.1, ·), by
    refine m.ascending.filterMap _ fun a a' h b hb b' hb' => ?_
    obtain ⟨_, _, rfl⟩ := Option.map_eq_some_iff.1 hb
    obtain ⟨_, _, rfl⟩ := Option.map_eq_some_iff.1 hb'
    exact h⟩

/-- Drop the entry of a key, if it has one. -/
def erase (m : OrdMap κ ν) (k : κ) : OrdMap κ ν :=
  m.filter fun j _ => compare k j != .eq

/-! ## Look-ups -/

@[simp] theorem get?_empty (k : κ) : (∅ : OrdMap κ ν).get? k = none := rfl

variable [Std.LawfulEqOrd κ]

theorem mem_of_lookup {k : κ} {v : ν} {l : List (κ × ν)} (h : lookup k l = some v) :
    (k, v) ∈ l := by
  induction l with
  | nil => simp [lookup] at h
  | cons b r ih =>
    obtain ⟨j, w⟩ := b
    unfold lookup at h
    split at h
    · rename_i hc
      rw [Std.LawfulEqCmp.eq_of_compare hc, Option.some.inj h]
      exact List.mem_cons_self
    · exact List.mem_cons_of_mem _ (ih h)

/-- Among ascending keys a look-up finds exactly the entries. -/
theorem lookup_eq_some_iff {k : κ} {v : ν} {l : List (κ × ν)}
    (hl : l.Pairwise fun a b => compare a.1 b.1 = .lt) :
    lookup k l = some v ↔ (k, v) ∈ l := by
  refine ⟨mem_of_lookup, fun h => ?_⟩
  induction l with
  | nil => simp at h
  | cons b r ih =>
    obtain ⟨j, w⟩ := b
    unfold lookup
    rcases List.mem_cons.1 h with e | h
    · cases e
      simp
    · have : compare k j ≠ .eq := fun e => by
        have lt := List.rel_of_pairwise_cons hl h
        have e' := Std.LawfulEqCmp.eq_of_compare e
        subst e'
        simp only [Std.ReflCmp.compare_self] at lt
        exact Ordering.noConfusion lt
      split
      · exact absurd ‹_› this
      · exact ih hl.of_cons h

/-- A look-up finds exactly the entries of the map. -/
theorem get?_eq_some_iff {m : OrdMap κ ν} {k : κ} {v : ν} :
    m.get? k = some v ↔ (k, v) ∈ m.entries :=
  lookup_eq_some_iff m.ascending

/-- A key is one that a value is found under. -/
theorem mem_keys_iff {m : OrdMap κ ν} {k : κ} : k ∈ m.keys ↔ (m.get? k).isSome = true := by
  rw [Option.isSome_iff_exists]
  simp [keys, get?_eq_some_iff]

/-- Each value is replaced or dropped by its own answer. -/
theorem get?_filterMap (f : κ → ν → Option μ) (m : OrdMap κ ν) (k : κ) :
    (m.filterMap f).get? k = (m.get? k).bind (f k) := by
  apply Option.ext
  intro v
  rw [get?_eq_some_iff]
  simp only [filterMap, List.mem_filterMap, Option.map_eq_some_iff, Prod.mk.injEq,
    Option.bind_eq_some_iff, get?_eq_some_iff]
  constructor
  · rintro ⟨e, he, w, hw, rfl, rfl⟩
    exact ⟨e.2, he, hw⟩
  · rintro ⟨w, hw, hv⟩
    exact ⟨(k, w), hw, v, hv, rfl, rfl⟩

theorem get?_mapValues (f : κ → ν → μ) (m : OrdMap κ ν) (k : κ) :
    (m.mapValues f).get? k = (m.get? k).map (f k) := by
  apply Option.ext
  intro v
  rw [get?_eq_some_iff]
  simp only [mapValues, List.mem_map, Prod.mk.injEq, Option.map_eq_some_iff, get?_eq_some_iff]
  constructor
  · rintro ⟨e, he, rfl, rfl⟩
    exact ⟨e.2, he, rfl⟩
  · rintro ⟨w, hw, rfl⟩
    exact ⟨(k, w), hw, rfl, rfl⟩

/-- A value stays if it passes. -/
theorem get?_filter (p : κ → ν → Bool) (m : OrdMap κ ν) (k : κ) :
    (m.filter p).get? k = (m.get? k).filter (p k) := by
  apply Option.ext
  intro v
  rw [get?_eq_some_iff]
  simp [filter, get?_eq_some_iff, Option.filter_eq_some_iff]

/-- An erased key has no value, any other the one it had. -/
theorem get?_erase [DecidableEq κ] (m : OrdMap κ ν) (k j : κ) :
    (m.erase k).get? j = if j = k then none else m.get? j := by
  rw [erase, get?_filter]
  by_cases h : j = k
  · subst h
    cases m.get? j <;> simp
  · have : compare k j ≠ .eq := fun e => h (Std.LawfulEqCmp.eq_of_compare e).symm
    cases m.get? j <;> simp [h, this]

/-- The erased key is gone, the others stay. -/
theorem mem_keys_erase [DecidableEq κ] {m : OrdMap κ ν} {k j : κ} :
    j ∈ (m.erase k).keys ↔ j ≠ k ∧ j ∈ m.keys := by
  rw [mem_keys_iff, mem_keys_iff, get?_erase]
  split <;> simp_all

/-! ## Insertion -/

/-- Insert into a list of entries with ascending keys, replacing the value of an equal key. -/
def insertSorted (k : κ) (v : ν) : List (κ × ν) → List (κ × ν)
  | [] => [(k, v)]
  | (j, w) :: r =>
    match compare k j with
    | .lt => (k, v) :: (j, w) :: r
    | .eq => (k, v) :: r
    | .gt => (j, w) :: insertSorted k v r

omit [Std.LawfulEqOrd κ] in
theorem key_insertSorted {k : κ} {v : ν} {l : List (κ × ν)} {e : κ × ν}
    (h : e ∈ insertSorted k v l) : e.1 = k ∨ e ∈ l := by
  induction l with
  | nil => simp_all [insertSorted]
  | cons b r ih =>
    obtain ⟨j, w⟩ := b
    unfold insertSorted at h
    cases hc : compare k j with
    | lt =>
      rw [hc] at h
      rcases List.mem_cons.1 h with rfl | h
      · exact .inl rfl
      · exact .inr h
    | eq =>
      rw [hc] at h
      rcases List.mem_cons.1 h with rfl | h
      · exact .inl rfl
      · exact .inr (List.mem_cons_of_mem _ h)
    | gt =>
      rw [hc] at h
      rcases List.mem_cons.1 h with rfl | h
      · exact .inr List.mem_cons_self
      · exact (ih h).imp_right (List.mem_cons_of_mem _)

/-- An inserted value is found under its key, and every other where it was. -/
theorem lookup_insertSorted [DecidableEq κ] (k j : κ) (v : ν) (l : List (κ × ν)) :
    lookup j (insertSorted k v l) = if j = k then some v else lookup j l := by
  induction l with
  | nil =>
    by_cases h : j = k
    · simp [insertSorted, lookup, h]
    · simp [insertSorted, lookup, h]
  | cons b r ih =>
    obtain ⟨i, w⟩ := b
    unfold insertSorted
    cases hc : compare k i with
    | lt =>
      by_cases h : j = k
      · simp [lookup, h]
      · simp [lookup, h]
    | eq =>
      have := Std.LawfulEqCmp.eq_of_compare hc
      subst this
      by_cases h : j = k
      · simp [lookup, h]
      · simp [lookup, h]
    | gt =>
      by_cases h : j = k
      · subst h
        simp [lookup, hc, ih]
      · simp only [lookup, ih, h, if_false]

variable [Std.TransOrd κ]

/-- Ascending keys stay so. -/
theorem pairwise_insertSorted {k : κ} {v : ν} {l : List (κ × ν)}
    (h : l.Pairwise fun a b => compare a.1 b.1 = .lt) :
    (insertSorted k v l).Pairwise fun a b => compare a.1 b.1 = .lt := by
  induction l with
  | nil => simp [insertSorted]
  | cons b r ih =>
    obtain ⟨j, w⟩ := b
    unfold insertSorted
    cases hc : compare k j with
    | lt =>
      refine .cons (fun x hx => ?_) h
      cases hx with
      | head => exact hc
      | tail _ hx => exact Std.TransCmp.lt_trans hc (List.rel_of_pairwise_cons h hx)
    | eq =>
      have := Std.LawfulEqCmp.eq_of_compare hc
      subst this
      exact .cons (fun x hx => List.rel_of_pairwise_cons h hx) h.of_cons
    | gt =>
      refine .cons (fun x hx => ?_) (ih h.of_cons)
      rcases key_insertSorted hx with e | hx
      · rw [e]
        exact Std.OrientedCmp.gt_iff_lt.1 hc
      · exact List.rel_of_pairwise_cons h hx

/-- Store a value under a key, replacing what was there. -/
def insert (m : OrdMap κ ν) (k : κ) (v : ν) : OrdMap κ ν :=
  ⟨insertSorted k v m.entries, pairwise_insertSorted m.ascending⟩

/-- Apply a function to what is stored under a key, and store the result there. -/
def alter (m : OrdMap κ ν) (k : κ) (f : Option ν → ν) : OrdMap κ ν :=
  m.insert k (f (m.get? k))

/-- The map of a list of entries; a later entry replaces an earlier one with its key. -/
def ofList (l : List (κ × ν)) : OrdMap κ ν := l.foldl (fun m e => m.insert e.1 e.2) ∅

/-- An inserted value is found under its key, and every other where it was. -/
theorem get?_insert [DecidableEq κ] (m : OrdMap κ ν) (k j : κ) (v : ν) :
    (m.insert k v).get? j = if j = k then some v else m.get? j :=
  lookup_insertSorted k j v m.entries

@[simp] theorem get?_insert_self [DecidableEq κ] (m : OrdMap κ ν) (k : κ) (v : ν) :
    (m.insert k v).get? k = some v := by
  simp [get?_insert]

theorem get?_insert_of_ne [DecidableEq κ] (m : OrdMap κ ν) {k j : κ} (v : ν) (h : j ≠ k) :
    (m.insert k v).get? j = m.get? j := by
  simp [get?_insert, h]

/-- The inserted key is added. -/
theorem mem_keys_insert [DecidableEq κ] {m : OrdMap κ ν} {k j : κ} {v : ν} :
    j ∈ (m.insert k v).keys ↔ j = k ∨ j ∈ m.keys := by
  rw [mem_keys_iff, mem_keys_iff, get?_insert]
  split <;> simp_all

/-! ## Equality is equality of look-ups -/

/-- Entries with ascending keys are equal when the same ones occur. -/
theorem eq_of_mem_iff {l m : List (κ × ν)}
    (hl : l.Pairwise fun a b => compare a.1 b.1 = .lt)
    (hm : m.Pairwise fun a b => compare a.1 b.1 = .lt)
    (h : ∀ e, e ∈ l ↔ e ∈ m) : l = m := by
  induction l generalizing m with
  | nil =>
    symm
    rw [List.eq_nil_iff_forall_not_mem]
    exact fun a ha => List.not_mem_nil ((h a).2 ha)
  | cons a r ih =>
    cases m with
    | nil => exact absurd ((h a).1 List.mem_cons_self) List.not_mem_nil
    | cons b t =>
      have irrefl : ∀ x : κ, compare x x ≠ .lt := fun x hx => by
        rw [Std.ReflOrd.compare_self (a := x)] at hx
        exact Ordering.noConfusion hx
      have hab : a = b := by
        rcases List.mem_cons.1 ((h a).1 List.mem_cons_self) with e | hat
        · exact e
        · rcases List.mem_cons.1 ((h b).2 List.mem_cons_self) with e | hbr
          · exact e.symm
          · exact absurd (Std.TransCmp.lt_trans (List.rel_of_pairwise_cons hm hat)
              (List.rel_of_pairwise_cons hl hbr)) (irrefl b.1)
      subst hab
      congr 1
      refine ih hl.of_cons hm.of_cons fun x => ?_
      constructor
      · intro hx
        rcases List.mem_cons.1 ((h x).1 (List.mem_cons_of_mem _ hx)) with rfl | hxt
        · exact absurd (List.rel_of_pairwise_cons hl hx) (irrefl x.1)
        · exact hxt
      · intro hx
        rcases List.mem_cons.1 ((h x).2 (List.mem_cons_of_mem _ hx)) with rfl | hxr
        · exact absurd (List.rel_of_pairwise_cons hm hx) (irrefl x.1)
        · exact hxr

/-- Maps that answer every look-up alike are equal. -/
@[ext] theorem ext {m n : OrdMap κ ν} (h : ∀ k, m.get? k = n.get? k) : m = n := by
  have key : m.entries = n.entries := by
    refine eq_of_mem_iff m.ascending n.ascending fun e => ?_
    rw [← get?_eq_some_iff, ← get?_eq_some_iff, h]
  obtain ⟨l, hl⟩ := m
  obtain ⟨l', hl'⟩ := n
  cases key
  rfl

end OrdMap

end SharedPlan
