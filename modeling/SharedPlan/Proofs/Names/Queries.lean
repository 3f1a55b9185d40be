import SharedPlan.Names.Queries

/-!
# SharedPlan.Proofs.Names.Queries

The ids that names of queries stand for.

In a `Valid` registry every id in use is one of the universe of 64, and every alias
belongs to an id in use.

An id that is handed out was not in use, and releasing it undoes what its name and its
aliases added (`remove_of_add`, `remove_of_addAlias`).
-/

namespace SharedPlan

theorem QuerySet.mem_ofList {l : List QueryId} (hl : ∀ q ∈ l, q.val < 64) {q : QueryId}
    (hq : q.val < 64) : q ∈ ofList l ↔ q ∈ l := by
  have fold (s : QuerySet) (l : List QueryId) (hl : ∀ q ∈ l, q.val < 64) :
      q ∈ l.foldl insert s ↔ q ∈ s ∨ q ∈ l := by
    induction l generalizing s with
    | nil => simp
    | cons r rest ih =>
        obtain ⟨hr, hrest⟩ := List.forall_mem_cons.1 hl
        rw [List.foldl_cons, ih _ hrest, mem_insert hr hq, List.mem_cons, or_assoc]
        exact or_left_comm
  rw [ofList, fold _ l hl]
  exact or_iff_right (not_mem_empty q)

namespace QueryRegistry

variable {r s : QueryRegistry} {q t : QueryId} {name : String}

/-- Every id in use is one of the universe, and every alias belongs to an id in use. -/
structure Valid (r : QueryRegistry) : Prop where
  below : ∀ q ∈ r.names.keys, q.val < 64
  targets : ∀ name q, r.aliases.get? name = some q → q ∈ r.names.keys

/-- The active queries are the ids in use. -/
theorem Valid.mem_active_iff (h : r.Valid) : q ∈ r.active.toList ↔ q ∈ r.names.keys := by
  rw [QuerySet.mem_toList, active]
  constructor
  · rintro ⟨hmem, hq⟩
    exact (QuerySet.mem_ofList h.below hq).1 hmem
  · intro hq
    exact ⟨(QuerySet.mem_ofList h.below (h.below q hq)).2 hq, h.below q hq⟩

/-- A new registry is valid. -/
theorem valid_withCapacity (capacity : Nat) : (withCapacity capacity).Valid where
  below _ hq := absurd hq List.not_mem_nil
  targets _ _ h := by cases h

/-! ## Looking up -/

theorem names_of_primary? (h : r.primary? name = some q) : r.names.get? q = some name := by
  obtain ⟨⟨_, _⟩, hfind, rfl⟩ := Option.map_eq_some_iff.1 h
  have hname := List.find?_some hfind
  obtain rfl := of_decide_eq_true hname
  exact OrdMap.get?_eq_some_iff.2 (List.mem_of_find?_eq_some hfind)

theorem exists_primary? (h : r.names.get? q = some name) : ∃ t, r.primary? name = some t := by
  have hsome : (r.names.entries.find? fun e => e.2 = name).isSome = true :=
    List.find?_isSome.2 ⟨(q, name), OrdMap.get?_eq_some_iff.1 h, decide_eq_true rfl⟩
  obtain ⟨e, he⟩ := Option.isSome_iff_exists.1 hsome
  exact ⟨e.1, by rw [primary?, he, Option.map_some]⟩

/-- A name stands for an id in use. -/
theorem Valid.of_lookup (h : r.Valid) (hq : r.lookup name = some q) : q ∈ r.names.keys := by
  rw [lookup, Option.or_eq_some_iff] at hq
  rcases hq with hq | ⟨-, hq⟩
  · rw [OrdMap.mem_keys_iff, names_of_primary? hq]
    rfl
  · exact h.targets name q hq

theorem lookup_of_resolve (h : r.resolve name = .ok q) : r.lookup name = some q := by
  unfold resolve at h
  split at h
  · rename_i hl
    rw [hl, Except.ok.inj h]
  · cases h

/-! ## Adding -/

/-- An id that is handed out is one of the universe and was not in use. -/
theorem eq_of_add (h : r.add name = .ok (q, s)) :
    r.lookup name = none ∧ q.val < 64 ∧ q ∉ r.active ∧
      s = { r with names := r.names.insert q name } := by
  unfold add at h
  split at h
  · cases h
  · rename_i hlookup
    split at h
    · cases h
    · rename_i hfree
      obtain ⟨rfl, rfl⟩ := Prod.mk.inj (Except.ok.inj h)
      obtain ⟨hfirst, -⟩ := Option.filter_eq_some_iff.1 hfree
      refine ⟨Option.not_isSome_iff_eq_none.1 hlookup,
        QuerySet.mem_ids.1 (List.mem_of_find?_eq_some hfirst), ?_, rfl⟩
      have hnot := List.find?_some hfirst
      rw [Bool.not_eq_true'] at hnot
      rw [QuerySet.mem_def, hnot]
      exact Bool.false_ne_true

/-- A query is given an id that no other has. -/
theorem Valid.not_mem_of_add (hr : r.Valid) (h : r.add name = .ok (q, s)) :
    q ∉ r.names.keys := by
  obtain ⟨-, -, hfree, -⟩ := eq_of_add h
  exact fun hq => hfree (QuerySet.mem_toList.1 (hr.mem_active_iff.2 hq)).1

/-- A registry stays valid when a query is added. -/
theorem Valid.add (hr : r.Valid) (h : r.add name = .ok (q, s)) : s.Valid := by
  obtain ⟨-, hq, -, rfl⟩ := eq_of_add h
  constructor
  · intro t ht
    rcases OrdMap.mem_keys_insert.1 ht with rfl | ht
    · exact hq
    · exact hr.below t ht
  · intro a t ht
    exact OrdMap.mem_keys_insert.2 (.inr (hr.targets a t ht))

/-- An alias is given to an active query, under a name that is not taken. -/
theorem eq_of_addAlias (h : r.addAlias name q = .ok s) :
    q ∈ r.active ∧ r.lookup name = none ∧ s = { r with aliases := r.aliases.insert name q } := by
  unfold addAlias at h
  split at h
  · cases h
  · rename_i hq
    split at h
    · cases h
    · rename_i hlookup
      exact ⟨Decidable.not_not.1 hq, Option.not_isSome_iff_eq_none.1 hlookup,
        (Except.ok.inj h).symm⟩

/-- A registry stays valid when an alias of one of its ids is added. -/
theorem Valid.addAlias (hr : r.Valid) (hq : q ∈ QuerySet.ids)
    (h : r.addAlias name q = .ok s) : s.Valid := by
  obtain ⟨hactive, -, rfl⟩ := eq_of_addAlias h
  refine ⟨hr.below, fun a t ht => ?_⟩
  rw [OrdMap.get?_insert] at ht
  split at ht
  · obtain rfl := Option.some.inj ht
    exact hr.mem_active_iff.1 (QuerySet.mem_toList.2 ⟨hactive, QuerySet.mem_ids.1 hq⟩)
  · exact hr.targets a t ht

/-! ## Releasing -/

theorem mem_keys_remove : t ∈ (r.remove q).names.keys ↔ t ≠ q ∧ t ∈ r.names.keys :=
  OrdMap.mem_keys_erase

/-- A registry stays valid when a query is removed. -/
theorem Valid.remove (hr : r.Valid) (q : QueryId) : (r.remove q).Valid := by
  constructor
  · exact fun t ht => hr.below t (mem_keys_remove.1 ht).2
  · intro a t ht
    rw [QueryRegistry.remove, OrdMap.get?_filter, Option.filter_eq_some_iff] at ht
    exact mem_keys_remove.2 ⟨by simpa using ht.2, hr.targets a t ht.1⟩

/-- Another id keeps its names when one is released. -/
theorem lookup_remove (ht : r.lookup name = some t) (hne : t ≠ q) :
    (r.remove q).lookup name = some t := by
  have hkeep {e : QueryId × String} (he : e.1 ≠ q) : (compare q e.1 != .eq) = true := by
    rw [bne_iff_ne]
    exact fun hc => he (Std.LawfulEqCmp.eq_of_compare hc).symm
  rw [lookup, Option.or_eq_some_iff] at ht ⊢
  simp only [primary?, Option.map_eq_some_iff, Option.map_eq_none_iff] at ht ⊢
  simp only [remove, OrdMap.erase, OrdMap.filter, List.find?_filter]
  rcases ht with ⟨e, he, rfl⟩ | ⟨hnone, ha⟩
  · refine .inl ⟨e, ?_, rfl⟩
    rw [List.find?_eq_some_iff_append] at he ⊢
    obtain ⟨hname, before, after, hentries, hbefore⟩ := he
    refine ⟨decide_eq_true ⟨hkeep hne, hname⟩, before, after, hentries, fun a ha => ?_⟩
    have hother := hbefore a ha
    simp only [Bool.not_eq_true', decide_eq_false_iff_not] at hother ⊢
    exact fun h => hother (of_decide_eq_true h.2)
  · refine .inr ⟨?_, ?_⟩
    · rw [List.find?_eq_none] at hnone ⊢
      exact fun e he h => hnone e he (of_decide_eq_true h).2
    · have := OrdMap.get?_filter (fun _ target => target != q) r.aliases name
      rw [OrdMap.filter] at this
      rw [this, ha, Option.filter_some, if_pos (bne_iff_ne.2 hne)]

/-- Releasing an id undoes its being handed out. -/
theorem Valid.remove_of_add (hr : r.Valid) (h : r.add name = .ok (q, s)) : s.remove q = r := by
  have hnot := hr.not_mem_of_add h
  obtain ⟨-, -, -, rfl⟩ := eq_of_add h
  obtain ⟨capacity, names, aliases⟩ := r
  simp only [QueryRegistry.remove, mk.injEq, true_and]
  constructor
  · ext1 t
    rw [OrdMap.get?_erase, OrdMap.get?_insert]
    split
    · rename_i htq
      rw [htq]
      exact (Option.not_isSome_iff_eq_none.1 fun h => hnot (OrdMap.mem_keys_iff.2 h)).symm
    · rfl
  · ext1 a
    rw [OrdMap.get?_filter]
    cases ht : aliases.get? a with
    | none => rfl
    | some t =>
        rw [Option.filter_some, if_pos]
        rw [bne_iff_ne]
        rintro rfl
        exact hnot (hr.targets a t ht)

/-- Releasing an id undoes its being given another name. -/
theorem remove_of_addAlias (h : r.addAlias name q = .ok s) : s.remove q = r.remove q := by
  obtain ⟨-, hlookup, rfl⟩ := eq_of_addAlias h
  rw [lookup, Option.or_eq_none_iff] at hlookup
  simp only [remove, mk.injEq, true_and]
  ext1 a
  rw [OrdMap.get?_filter, OrdMap.get?_filter, OrdMap.get?_insert]
  split
  · rename_i ha
    rw [ha, hlookup.2]
    simp
  · rfl

end QueryRegistry

end SharedPlan
