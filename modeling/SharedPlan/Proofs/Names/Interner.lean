import Mathlib.Data.List.Nodup
import SharedPlan.Names.Waypoints
import SharedPlan.Ordered.Map

/-!
# SharedPlan.Proofs.Names.Interner

The interner of waypoint names, written down in place.

`WaypointNames` says which id a name has by the position of the name.  An `Interner` keeps
both directions written down, the id of each name and the name of each id, and grows one
after the other.  The two answer every call alike
(`Interner.Follows.intern`), so what is written down is a bijection between the names and
the ids from zero on, as long as there are ids left (`Interner.dense_bijection`).
-/

namespace SharedPlan

/-! ## Positions as ids -/

namespace WaypointNames

variable {n : WaypointNames} {name other : String} {w : WaypointId}

/-- Every name stands once, the sentinels first, and every call either found its name or added
one behind them. -/
structure Dense (n : WaypointNames) : Prop where
  nodup : n.names.Nodup
  sentinels : [WaypointId.bottom.text, WaypointId.top.text] <+: n.names
  calls_eq : n.calls = n.hits + n.misses
  size_eq : n.size.toUInt64 = n.misses + 2

/-- A new table has the two sentinels. -/
theorem dense_initial : Dense initial :=
  ⟨by decide, List.prefix_refl _, rfl, rfl⟩

/-- A name is unknown exactly when it was not interned. -/
theorem lookup_eq_none_iff : n.lookup name = none ↔ name ∉ n.names := by
  rw [lookup, Option.map_eq_none_iff, List.idxOf?_eq_none_iff]

/-- The id of a name is its position. -/
theorem Dense.lookup_eq_some_iff (h : n.Dense) :
    n.lookup name = some w ↔ ∃ i : Nat, n.names[i]? = some name ∧ w = ⟨i.toUInt32⟩ := by
  rw [lookup, Option.map_eq_some_iff]
  refine exists_congr fun i => and_congr ?_ eq_comm
  rw [List.idxOf?_eq_some_iff, List.getElem?_eq_some_iff]
  refine exists_congr fun hi => and_iff_left_of_imp fun hname j hj hother => ?_
  exact Nat.ne_of_lt hj ((h.nodup.getElem_inj_iff).1 (hother.trans hname.symm))

/-- Names and ids belong to each other as long as every position is an id. -/
theorem Dense.name?_eq_some_iff (h : n.Dense) (hsize : n.size ≤ UInt32.size) :
    n.name? w = some name ↔ n.lookup name = some w := by
  rw [h.lookup_eq_some_iff, name?]
  constructor
  · exact fun hw => ⟨w.val.toNat, hw, by simp⟩
  · rintro ⟨i, hi, rfl⟩
    have hlt : i < n.size := (List.getElem?_eq_some_iff.1 hi).1
    rwa [show i.toUInt32.toNat = i from Nat.mod_eq_of_lt (Nat.lt_of_lt_of_le hlt hsize)]

/-! ### Calls -/

/-- Interning a new name gives it the next position and changes no other. -/
theorem lookup_intern (hnew : n.lookup name = none) :
    (n.intern name).2.lookup other =
      if other = name then some ⟨n.size.toUInt32⟩ else n.lookup other := by
  have hlookup : (n.intern name).2.lookup other =
      ((n.names ++ [name]).idxOf? other).map fun i => ⟨i.toUInt32⟩ := by
    rw [intern, hnew, lookup]
  rw [hlookup, List.idxOf?, List.findIdx?_append]
  split
  · rename_i heq
    subst heq
    have hnone : n.names.findIdx? (· == other) = none := Option.map_eq_none_iff.1 hnew
    simp [hnone, size]
  · rename_i hne
    have hlast : ([name].findIdx? (· == other)) = none := by simpa using Ne.symm hne
    rw [hlast, Option.map_none, Option.or_none]
    rfl

/-- A name is found under the id that it was given. -/
theorem lookup_intern_self : (n.intern name).2.lookup name = some (n.intern name).1 := by
  cases h : n.lookup name with
  | some v =>
      rw [intern, h]
      exact h
  | none =>
      rw [lookup_intern h, if_pos rfl, intern, h]

/-- A name keeps its id. -/
theorem lookup_intern_of_some (h : n.lookup other = some w) :
    (n.intern name).2.lookup other = some w := by
  cases hname : n.lookup name with
  | some v =>
      rw [intern, hname]
      exact h
  | none =>
      rw [lookup_intern hname, if_neg, h]
      rintro rfl
      rw [hname] at h
      cases h

/-- Interning keeps a table dense. -/
theorem Dense.intern (h : n.Dense) (name : String) : (n.intern name).2.Dense := by
  have hcalls := h.calls_eq
  cases hname : n.lookup name with
  | some w =>
      rw [WaypointNames.intern, hname]
      exact ⟨h.nodup, h.sentinels, by grind, h.size_eq⟩
  | none =>
      rw [WaypointNames.intern, hname]
      refine ⟨?_, h.sentinels.trans (List.prefix_append _ _), by grind, ?_⟩
      · exact List.concat_eq_append ▸ h.nodup.concat (lookup_eq_none_iff.1 hname)
      · have hsize := h.size_eq
        simp only [size] at hsize
        simp only [size, List.length_append, List.length_singleton, UInt64.ofNat_add]
        grind

/-- Interning one name after another. -/
def internAll (calls : List String) : StateM WaypointNames (List WaypointId) :=
  calls.mapM fun name n => n.intern name

theorem internAll_cons (name : String) (calls : List String) (n : WaypointNames) :
    (internAll (name :: calls)).run n =
      ((n.intern name).1 :: ((internAll calls).run (n.intern name).2).1,
        ((internAll calls).run (n.intern name).2).2) := by
  rw [internAll, List.mapM_cons]
  rfl

/-- So does interning one name after another. -/
theorem Dense.internAll {calls : List String} (h : n.Dense) :
    ((internAll calls).run n).2.Dense := by
  induction calls generalizing n with
  | nil => exact h
  | cons name calls ih =>
      rw [internAll_cons]
      exact ih (h.intern name)

/-- Every call is answered. -/
theorem length_internAll (calls : List String) (n : WaypointNames) :
    ((internAll calls).run n).1.length = calls.length := by
  induction calls generalizing n with
  | nil => rfl
  | cons name calls ih => rw [internAll_cons, List.length_cons, List.length_cons, ih]

theorem internAll_append (calls more : List String) (n : WaypointNames) :
    ((internAll (calls ++ more)).run n).2 =
      ((internAll more).run ((internAll calls).run n).2).2 := by
  induction calls generalizing n with
  | nil => rfl
  | cons name calls ih => rw [List.cons_append, internAll_cons, internAll_cons, ih]

/-- Every call is counted. -/
theorem calls_internAll (calls : List String) (n : WaypointNames) :
    ((internAll calls).run n).2.calls = n.calls + calls.length.toUInt64 := by
  induction calls generalizing n with
  | nil => exact (UInt64.add_zero n.calls).symm
  | cons name calls ih =>
      have hcalls : (n.intern name).2.calls = n.calls + 1 := by
        rw [WaypointNames.intern]
        split <;> rfl
      have hlength : (calls.length + 1).toUInt64 = calls.length.toUInt64 + 1 :=
        UInt64.ofNat_add _ _
      rw [internAll_cons, ih, hcalls, List.length_cons, hlength]
      grind

/-- A name keeps its id through any calls. -/
theorem lookup_internAll_of_some {calls : List String} (h : n.lookup name = some w) :
    ((internAll calls).run n).2.lookup name = some w := by
  induction calls generalizing n with
  | nil => exact h
  | cons other calls ih =>
      rw [internAll_cons]
      exact ih (lookup_intern_of_some h)

/-- Whatever a call answered is the id of its name from then on. -/
theorem lookup_internAll_of_mem {calls : List String}
    (h : (name, w) ∈ calls.zip ((internAll calls).run n).1) :
    ((internAll calls).run n).2.lookup name = some w := by
  -- what the first call answers is kept by all that follow it
  induction calls generalizing n with
  | nil => cases h
  | cons other calls ih =>
      rw [internAll_cons] at h ⊢
      rcases List.mem_cons.1 h with heq | htail
      · cases heq
        exact lookup_internAll_of_some lookup_intern_self
      · exact ih htail

end WaypointNames

/-- The interned names with both directions written down. -/
structure Interner where
  /-- The id of each name. -/
  byName : OrdMap String WaypointId
  /-- The name of each id. -/
  names : List String
  calls : UInt64
  hits : UInt64
  misses : UInt64

namespace Interner

variable {n : Interner} {m : WaypointNames} {name : String} {w : WaypointId}

/-- The interner that holds the sentinels only. -/
def initial : Interner where
  byName := (OrdMap.insert ∅ "<bottom>" .bottom).insert "<top>" .top
  names := ["<bottom>", "<top>"]
  calls := 0
  hits := 0
  misses := 0

/-- The id of a name; a new name is given the next one. -/
def intern (name : String) : StateM Interner WaypointId := do
  modify fun n => { n with calls := n.calls + 1 }
  if let some id := (← get).byName.get? name then
    modify fun n => { n with hits := n.hits + 1 }
    return id
  modify fun n => { n with misses := n.misses + 1 }
  let id : WaypointId := ⟨(← get).names.length.toUInt32⟩
  modify fun n => { n with names := n.names ++ [name] }
  modify fun n => { n with byName := n.byName.insert name id }
  return id

/-- The id of a name, if it is interned. -/
def lookup (n : Interner) (name : String) : Option WaypointId := n.byName.get? name

/-- The name with an id. -/
def name? (n : Interner) (w : WaypointId) : Option String := n.names[w.val.toNat]?

/-- The number of names, sentinels included. -/
def size (n : Interner) : Nat := n.names.length

/-- What a call does, by whether the name is known. -/
theorem intern_eq (name : String) (n : Interner) :
    (intern name).run n =
      match n.lookup name with
      | some w => (w, { n with calls := n.calls + 1, hits := n.hits + 1 })
      | none =>
        (⟨n.size.toUInt32⟩,
          { byName := n.byName.insert name ⟨n.size.toUInt32⟩
            names := n.names ++ [name]
            calls := n.calls + 1
            hits := n.hits
            misses := n.misses + 1 }) := by
  cases h : n.byName.get? name <;> simp [intern, lookup, h] <;> rfl

/-! ## The two interners answer alike -/

/-- What is written down is what the positions say, and the counters agree. -/
structure Follows (n : Interner) (m : WaypointNames) : Prop where
  names_eq : n.names = m.names
  lookup_eq : n.lookup = m.lookup
  calls_eq : n.calls = m.calls
  hits_eq : n.hits = m.hits
  misses_eq : n.misses = m.misses

/-- A new interner has both directions of the sentinels written down. -/
theorem follows_initial : initial.Follows .initial where
  names_eq := rfl
  lookup_eq := by
    funext name
    have hpositions : WaypointNames.initial.lookup name =
        ((["<bottom>", "<top>"] : List String).idxOf? name).map fun i => ⟨i.toUInt32⟩ := rfl
    rw [hpositions, lookup, initial, OrdMap.get?_insert, OrdMap.get?_insert, OrdMap.get?_empty,
      List.idxOf?_cons, List.idxOf?_singleton]
    by_cases hbottom : name = "<bottom>"
    · subst hbottom
      rfl
    · by_cases htop : name = "<top>"
      · subst htop
        rfl
      · simp [hbottom, htop, Ne.symm hbottom, Ne.symm htop]
  calls_eq := rfl
  hits_eq := rfl
  misses_eq := rfl

/-- Both answer a call with the same id. -/
theorem Follows.intern (h : n.Follows m) (name : String) :
    ((intern name).run n).1 = (m.intern name).1 ∧
      ((intern name).run n).2.Follows (m.intern name).2 := by
  obtain ⟨hnames, hlookup, hcalls, hhits, hmisses⟩ := h
  have hsize : n.size = m.size := congrArg List.length hnames
  rw [intern_eq, congrFun hlookup name]
  cases hm : m.lookup name with
  | some w =>
      rw [WaypointNames.intern, hm]
      refine ⟨rfl, hnames, hlookup, ?_, ?_, hmisses⟩
      · simp [hcalls]
      · simp [hhits]
  | none =>
      have hnew (other : String) : (m.intern name).2.lookup other = _ :=
        WaypointNames.lookup_intern hm
      rw [WaypointNames.intern, hm] at hnew ⊢
      rw [hsize]
      refine ⟨rfl, ?_, funext fun other => ?_, ?_, hhits, ?_⟩
      · simp [hnames]
      · rw [hnew other, ← hlookup]
        exact OrdMap.get?_insert _ _ _ _
      · simp [hcalls]
      · simp [hmisses]

/-- Interning one name after another. -/
def internAll (calls : List String) : StateM Interner (List WaypointId) := calls.mapM intern

/-- **What is written down follows the positions through any calls.** -/
theorem Follows.internAll {calls : List String} (h : n.Follows m) :
    ((internAll calls).run n).1 = ((WaypointNames.internAll calls).run m).1 ∧
      ((internAll calls).run n).2.Follows ((WaypointNames.internAll calls).run m).2 := by
  induction calls generalizing n m with
  | nil => exact ⟨rfl, h⟩
  | cons name calls ih =>
      obtain ⟨hanswer, hfollows⟩ := h.intern name
      obtain ⟨hanswers, hafter⟩ := ih hfollows
      have hrun : (Interner.internAll (name :: calls)).run n =
          (((Interner.intern name).run n).1 ::
              ((Interner.internAll calls).run ((Interner.intern name).run n).2).1,
            ((Interner.internAll calls).run ((Interner.intern name).run n).2).2) := by
        rw [Interner.internAll, List.mapM_cons]
        rfl
      rw [hrun, WaypointNames.internAll_cons, hanswer, hanswers]
      exact ⟨rfl, hafter⟩

/-! ## A new interner -/

/-- The ids that a new interner answers. -/
def answers (calls : List String) : List WaypointId := ((internAll calls).run initial).1

/-- A new interner after a sequence of calls. -/
def after (calls : List String) : Interner := ((internAll calls).run initial).2

section

variable {calls : List String}

theorem answers_eq : answers calls = ((WaypointNames.internAll calls).run .initial).1 :=
  follows_initial.internAll.1

theorem follows_after :
    (after calls).Follows ((WaypointNames.internAll calls).run .initial).2 :=
  follows_initial.internAll.2

/-- A name is found under the id that was answered for it. -/
theorem lookup_after_of_mem (h : (name, w) ∈ calls.zip (answers calls)) :
    (after calls).lookup name = some w := by
  rw [answers_eq] at h
  rw [follows_after.lookup_eq]
  exact WaypointNames.lookup_internAll_of_mem h

/-- It is found there whatever is interned later. -/
theorem lookup_after_append (h : (after calls).lookup name = some w) (more : List String) :
    (after (calls ++ more)).lookup name = some w := by
  rw [follows_after.lookup_eq] at h ⊢
  rw [WaypointNames.internAll_append]
  exact WaypointNames.lookup_internAll_of_some h

/-- The two directions are inverse as long as there are ids left. -/
theorem name?_after_eq_some_iff (hsize : (after calls).size ≤ UInt32.size) :
    (after calls).name? w = some name ↔ (after calls).lookup name = some w := by
  have hdense : ((WaypointNames.internAll calls).run .initial).2.Dense :=
    WaypointNames.dense_initial.internAll
  rw [size, follows_after.names_eq] at hsize
  rw [follows_after.lookup_eq, name?, follows_after.names_eq]
  exact hdense.name?_eq_some_iff hsize

/-- The words count the calls as long as there are ids left. -/
theorem counters_after (hsize : (after calls).size ≤ UInt32.size) :
    (after calls).calls = calls.length.toUInt64 ∧
      (after calls).calls = (after calls).hits + (after calls).misses ∧
      (after calls).misses.toNat = (after calls).size - 2 := by
  have hdense : ((WaypointNames.internAll calls).run .initial).2.Dense :=
    WaypointNames.dense_initial.internAll
  have hmisses := congrArg UInt64.toNat hdense.size_eq
  have htwo := hdense.sentinels.length_le
  rw [size, follows_after.names_eq] at hsize ⊢
  rw [follows_after.calls_eq, follows_after.hits_eq, follows_after.misses_eq]
  refine ⟨?_, hdense.calls_eq, ?_⟩
  · rw [WaypointNames.calls_internAll]
    exact UInt64.zero_add _
  · -- the names are no more than the ids, and so fewer than the word can count
    have hfit : ((WaypointNames.internAll calls).run .initial).2.size.toUInt64.toNat =
        ((WaypointNames.internAll calls).run .initial).2.size :=
      Nat.mod_eq_of_lt (Nat.lt_of_le_of_lt hsize (by decide))
    rw [hfit, UInt64.toNat_add] at hmisses
    have hword := ((WaypointNames.internAll calls).run .initial).2.misses.toNat_lt
    simp only [WaypointNames.size, List.length_cons, List.length_nil] at hmisses htwo
    have hplus : UInt64.toNat 2 = 2 := rfl
    omega

end

/-- **The interner is a dense bijection.**  It answers what the positions of the names say.  As
long as it holds no more names than there are ids, the ids from zero up to their number are
exactly those with a name, and an id has a name exactly when the name has the id; the first two
are those of the sentinels.  An id that was answered for a name is that of the name ever after,
and of no other, and every call either found its name or added it. -/
theorem dense_bijection (calls : List String) (hsize : (after calls).size ≤ UInt32.size) :
    (answers calls = ((WaypointNames.internAll calls).run .initial).1 ∧
        (after calls).Follows ((WaypointNames.internAll calls).run .initial).2) ∧
      (∀ w, ((after calls).name? w).isSome ↔ w.val.toNat < (after calls).size) ∧
      (∀ w name, (after calls).name? w = some name ↔ (after calls).lookup name = some w) ∧
      ((after calls).name? .bottom = some "<bottom>" ∧ (after calls).name? .top = some "<top>") ∧
      ((answers calls).length = calls.length ∧
        ∀ name w, (name, w) ∈ calls.zip (answers calls) →
          (∀ more, (after (calls ++ more)).lookup name = some w) ∧
            ∀ other v, (other, v) ∈ calls.zip (answers calls) → (v = w ↔ other = name)) ∧
      (after calls).calls = calls.length.toUInt64 ∧
      (after calls).calls = (after calls).hits + (after calls).misses ∧
      (after calls).misses.toNat = (after calls).size - 2 := by
  have hinverse (w : WaypointId) (name : String) :
      (after calls).name? w = some name ↔ (after calls).lookup name = some w :=
    name?_after_eq_some_iff hsize
  have hsentinels (name : String) (w : WaypointId) (h : initial.lookup name = some w) :
      (after calls).name? w = some name :=
    (hinverse w name).2 (@lookup_after_append _ _ [] h calls)
  refine ⟨⟨answers_eq, follows_after⟩, fun w => ?_, hinverse,
    ⟨hsentinels _ _ rfl, hsentinels _ _ rfl⟩, ⟨?_, fun name w hcall => ?_⟩, counters_after hsize⟩
  · rw [name?, isSome_getElem?, size]
  · rw [answers_eq, WaypointNames.length_internAll]
  · have hname := lookup_after_of_mem hcall
    refine ⟨lookup_after_append hname, fun other v hother => ?_⟩
    have hv := lookup_after_of_mem hother
    constructor
    · rintro rfl
      exact Option.some.inj (((hinverse v other).2 hv).symm.trans ((hinverse v name).2 hname))
    · rintro rfl
      exact Option.some.inj (hv.symm.trans hname)

/-- Two names, one of them twice, and a sentinel: the ids answered, a name found again, and the
misses. -/
theorem dense_bijection_of_scan_and_sink :
    (after ["scan", "<top>", "scan", "sink"]).size ≤ UInt32.size ∧
      answers ["scan", "<top>", "scan", "sink"] = [⟨2⟩, .top, ⟨2⟩, ⟨3⟩] ∧
      (after ["scan", "<top>", "scan", "sink"]).name? ⟨3⟩ = some "sink" ∧
      (after ["scan", "<top>", "scan", "sink"]).misses.toNat = 2 := by
  have hsize : (after ["scan", "<top>", "scan", "sink"]).size ≤ UInt32.size := by decide
  obtain ⟨-, -, hinverse, -, -, -, -, hmisses⟩ := dense_bijection _ hsize
  refine ⟨hsize, by decide, (hinverse ⟨3⟩ "sink").2 (by decide), hmisses.trans (by decide)⟩

end Interner

end SharedPlan
