/-!
# SharedPlan.Ordered.Set

Finite sets kept as strictly ascending lists.

A plan is compared, published and printed, so its sets need one stored form
each: the members in ascending order, each once.  `OrdSet.ext` says that this
form is canonical, so two sets with the same members are equal, and every
operation below has one lemma that states its members.
-/

namespace SharedPlan

/-- A finite set over an ordered type: its members, ascending and each once. -/
structure OrdSet (α : Type) [Ord α] where
  /-- The members in ascending order. -/
  toList : List α
  /-- Each member is below all that follow it. -/
  ascending : toList.Pairwise fun a b => compare a b = .lt
  deriving DecidableEq

namespace OrdSet

variable {α : Type} [Ord α]

instance : EmptyCollection (OrdSet α) := ⟨⟨[], .nil⟩⟩

instance : Inhabited (OrdSet α) := ⟨∅⟩

instance : Membership α (OrdSet α) := ⟨fun s a => a ∈ s.toList⟩

theorem mem_def {s : OrdSet α} {a : α} : a ∈ s ↔ a ∈ s.toList := Iff.rfl

instance [DecidableEq α] (a : α) (s : OrdSet α) : Decidable (a ∈ s) :=
  inferInstanceAs (Decidable (a ∈ s.toList))

/-- Inclusion: every member of the one is a member of the other. -/
instance : HasSubset (OrdSet α) := ⟨fun s t => ∀ a ∈ s.toList, a ∈ t⟩

theorem subset_def {s t : OrdSet α} : s ⊆ t ↔ ∀ a, a ∈ s → a ∈ t := Iff.rfl

instance [DecidableEq α] (s t : OrdSet α) : Decidable (s ⊆ t) :=
  inferInstanceAs (Decidable (∀ a ∈ s.toList, a ∈ t))

/-- Whether the set has no member. -/
def isEmpty (s : OrdSet α) : Bool := s.toList.isEmpty

/-- The number of members. -/
def size (s : OrdSet α) : Nat := s.toList.length

/-- The members that pass a test. -/
def filter (p : α → Bool) (s : OrdSet α) : OrdSet α :=
  ⟨s.toList.filter p, s.ascending.filter p⟩

/-- The members of both sets. -/
def inter [DecidableEq α] (s t : OrdSet α) : OrdSet α := s.filter fun a => a ∈ t

/-- The members of the first set that are not in the second. -/
def diff [DecidableEq α] (s t : OrdSet α) : OrdSet α := s.filter fun a => a ∉ t

instance [DecidableEq α] : Inter (OrdSet α) := ⟨inter⟩

instance [DecidableEq α] : SDiff (OrdSet α) := ⟨diff⟩

@[simp] theorem not_mem_empty (a : α) : a ∉ (∅ : OrdSet α) :=
  List.not_mem_nil

@[simp] theorem empty_subset (s : OrdSet α) : ∅ ⊆ s :=
  fun _ h => absurd h List.not_mem_nil

/-- A set is empty when nothing is a member. -/
theorem isEmpty_iff {s : OrdSet α} : s.isEmpty = true ↔ ∀ a, a ∉ s := by
  simp [isEmpty, mem_def, List.eq_nil_iff_forall_not_mem]

/-- A filtered set has the members that pass. -/
@[simp] theorem mem_filter {p : α → Bool} {s : OrdSet α} {a : α} :
    a ∈ s.filter p ↔ a ∈ s ∧ p a = true :=
  List.mem_filter

/-- The members of both. -/
@[simp] theorem mem_inter [DecidableEq α] {s t : OrdSet α} {a : α} :
    a ∈ s ∩ t ↔ a ∈ s ∧ a ∈ t := by
  change a ∈ s.filter _ ↔ _
  simp

/-- The members of the first that are not in the second. -/
@[simp] theorem mem_sdiff [DecidableEq α] {s t : OrdSet α} {a : α} :
    a ∈ s \ t ↔ a ∈ s ∧ a ∉ t := by
  change a ∈ s.filter _ ↔ _
  simp

/-! ## Insertion -/

/-- Insert into an ascending list, keeping it ascending. -/
def insertSorted (a : α) : List α → List α
  | [] => [a]
  | b :: r =>
    match compare a b with
    | .lt => a :: b :: r
    | .eq => b :: r
    | .gt => b :: insertSorted a r

/-- The set with one member. -/
def singleton (a : α) : OrdSet α := ⟨[a], List.pairwise_singleton _ _⟩

@[simp] theorem mem_singleton {a x : α} : x ∈ singleton a ↔ x = a :=
  List.mem_singleton

variable [Std.TransOrd α] [Std.LawfulEqOrd α]

omit [Std.TransOrd α] in
/-- Inserting into a list adds what is inserted. -/
theorem mem_insertSorted {a x : α} {l : List α} :
    x ∈ insertSorted a l ↔ x = a ∨ x ∈ l := by
  induction l with
  | nil => simp [insertSorted]
  | cons b r ih =>
    unfold insertSorted
    cases h : compare a b with
    | lt => simp
    | eq => simp [Std.LawfulEqCmp.eq_of_compare h]
    | gt => simp [ih, or_left_comm]

/-- An ascending list stays so. -/
theorem pairwise_insertSorted {a : α} {l : List α}
    (h : l.Pairwise fun a b => compare a b = .lt) :
    (insertSorted a l).Pairwise fun a b => compare a b = .lt := by
  induction l with
  | nil => simp [insertSorted]
  | cons b r ih =>
    unfold insertSorted
    cases hc : compare a b with
    | lt =>
      refine .cons (fun x hx => ?_) h
      cases hx with
      | head => exact hc
      | tail _ hx => exact Std.TransCmp.lt_trans hc (List.rel_of_pairwise_cons h hx)
    | eq => exact h
    | gt =>
      refine .cons (fun x hx => ?_) (ih h.of_cons)
      rcases mem_insertSorted.1 hx with rfl | hx
      · exact Std.OrientedCmp.gt_iff_lt.1 hc
      · exact List.rel_of_pairwise_cons h hx

/-- Add a member. -/
def insert (a : α) (s : OrdSet α) : OrdSet α :=
  ⟨insertSorted a s.toList, pairwise_insertSorted s.ascending⟩

/-- Inserting adds one member. -/
@[simp] theorem mem_insert {a x : α} {s : OrdSet α} : x ∈ s.insert a ↔ x = a ∨ x ∈ s :=
  mem_insertSorted

/-- The set of the members of a list. -/
def ofList : List α → OrdSet α
  | [] => ∅
  | a :: r => (ofList r).insert a

@[simp] theorem mem_ofList {l : List α} {x : α} : x ∈ ofList l ↔ x ∈ l := by
  induction l with
  | nil => simp [ofList]
  | cons a r ih => simp [ofList, ih]

/-- The members of either set. -/
def union (s t : OrdSet α) : OrdSet α := t.toList.foldl (fun u a => u.insert a) s

instance : Union (OrdSet α) := ⟨union⟩

/-- The members of either. -/
@[simp] theorem mem_union {s t : OrdSet α} {x : α} : x ∈ s ∪ t ↔ x ∈ s ∨ x ∈ t := by
  have key : ∀ (l : List α) (u : OrdSet α),
      x ∈ l.foldl (fun u a => u.insert a) u ↔ x ∈ u ∨ x ∈ l := by
    intro l
    induction l with
    | nil => simp
    | cons a r ih =>
      intro u
      rw [List.foldl_cons, ih, mem_insert, List.mem_cons]
      grind
  exact key t.toList s

/-! ## Equality is equality of members -/

/-- Ascending lists with the same members are equal. -/
theorem eq_of_mem_iff {l m : List α}
    (hl : l.Pairwise fun a b => compare a b = .lt) (hm : m.Pairwise fun a b => compare a b = .lt)
    (h : ∀ a, a ∈ l ↔ a ∈ m) : l = m := by
  induction l generalizing m with
  | nil =>
    symm
    rw [List.eq_nil_iff_forall_not_mem]
    exact fun a ha => List.not_mem_nil ((h a).2 ha)
  | cons a r ih =>
    cases m with
    | nil => exact absurd ((h a).1 List.mem_cons_self) List.not_mem_nil
    | cons b t =>
      have irrefl : ∀ x : α, compare x x ≠ .lt := fun x hx => by
        rw [Std.ReflOrd.compare_self (a := x)] at hx
        exact Ordering.noConfusion hx
      have hab : a = b := by
        rcases List.mem_cons.1 ((h a).1 List.mem_cons_self) with e | hat
        · exact e
        · rcases List.mem_cons.1 ((h b).2 List.mem_cons_self) with e | hbr
          · exact e.symm
          · exact absurd (Std.TransCmp.lt_trans (List.rel_of_pairwise_cons hm hat)
              (List.rel_of_pairwise_cons hl hbr)) (irrefl b)
      subst hab
      congr 1
      refine ih hl.of_cons hm.of_cons fun x => ?_
      constructor
      · intro hx
        rcases List.mem_cons.1 ((h x).1 (List.mem_cons_of_mem _ hx)) with rfl | hxt
        · exact absurd (List.rel_of_pairwise_cons hl hx) (irrefl x)
        · exact hxt
      · intro hx
        rcases List.mem_cons.1 ((h x).2 (List.mem_cons_of_mem _ hx)) with rfl | hxr
        · exact absurd (List.rel_of_pairwise_cons hm hx) (irrefl x)
        · exact hxr

/-- Sets with the same members are equal. -/
@[ext] theorem ext {s t : OrdSet α} (h : ∀ a, a ∈ s ↔ a ∈ t) : s = t := by
  obtain ⟨l, hl⟩ := s
  obtain ⟨m, hm⟩ := t
  have : l = m := eq_of_mem_iff hl hm h
  subst this
  rfl

end OrdSet

end SharedPlan
