import SharedPlan.Proofs.Graph.Order

/-!
# SharedPlan.Proofs.Graph.Cycles

Where the topological order stops short.

A waypoint stays in the queue's books for ever exactly when it lies on a cycle or behind
one (`PlanGraph.Behind`): something on a cycle is never taken, and neither is what it feeds.
So there is an order if and only if there is no cycle (`topologicalOrder_correct`).

Where there is none, what is reported is the waypoint with the least id among those left
over (`topologicalOrder_eq_error_iff`).  It need not lie on a cycle itself:
`looped` is a graph in which it lies behind one (`not_onCycle_of_cycleDetected`).
-/

namespace SharedPlan

/-- The first key of a map is the least one. -/
theorem OrdMap.head?_keys_eq_some_iff {κ ν : Type} [Ord κ] [Std.LawfulEqOrd κ] [Std.TransOrd κ]
    {m : OrdMap κ ν} {k : κ} :
    m.keys.head? = some k ↔ k ∈ m.keys ∧ ∀ j ∈ m.keys, j = k ∨ compare k j = .lt := by
  have hascending : m.keys.Pairwise fun a b => compare a b = .lt :=
    List.pairwise_map.2 m.ascending
  constructor
  · intro h
    obtain ⟨rest, hrest⟩ := List.head?_eq_some_iff.1 h
    rw [hrest] at hascending ⊢
    refine ⟨List.mem_cons_self, fun j hj => ?_⟩
    exact (List.mem_cons.1 hj).imp_right ((List.pairwise_cons.1 hascending).1 j)
  · rintro ⟨hk, hleast⟩
    cases hkeys : m.keys with
    | nil => simp [hkeys] at hk
    | cons j rest =>
        rw [hkeys] at hk hleast hascending
        rcases List.mem_cons.1 hk with rfl | hk
        · rfl
        · -- a key that stands further back is above the first one
          have hlt := (List.pairwise_cons.1 hascending).1 k hk
          rcases hleast j List.mem_cons_self with rfl | hgt
          · rfl
          · have hself := Std.TransCmp.lt_trans hlt hgt
            rw [Std.ReflOrd.compare_self] at hself
            cases hself

namespace PlanGraph

variable {g : PlanGraph} {m n : WaypointId}

/-! ## On a cycle, and behind one -/

/-- A waypoint lies on a cycle when a path of at least one edge leads from it back to it. -/
def OnCycle (g : PlanGraph) (n : WaypointId) : Prop := Relation.TransGen g.Precedes n n

/-- A waypoint lies on a cycle or behind one: a path leads to it from a waypoint on a cycle. -/
def Behind (g : PlanGraph) (n : WaypointId) : Prop :=
  ∃ m, g.OnCycle m ∧ Relation.ReflTransGen g.Precedes m n

theorem mem_ids_of_precedes (hg : g.WellFormed) (h : g.Precedes m n) : n ∈ g.ids := by
  obtain ⟨kind, he⟩ := h
  obtain ⟨-, hlink, hproper⟩ := mem_edges.1 he
  exact (hg.ends _ hlink hproper).2

/-- Only waypoints of the graph lie on cycles or behind them. -/
theorem Behind.mem_ids (hg : g.WellFormed) (h : g.Behind n) : n ∈ g.ids := by
  obtain ⟨m, hm, hmn⟩ := h
  rcases hmn.cases_tail with rfl | ⟨l, -, hln⟩
  · obtain ⟨l, -, hlm⟩ := Relation.TransGen.tail'_iff.1 hm
    exact mem_ids_of_precedes hg hlm
  · exact mem_ids_of_precedes hg hln

/-- Against the edges one comes to an end, but where there is a cycle on the way. -/
theorem acc_of_not_behind (h : ¬g.Behind n) : Acc g.Precedes n := by
  -- the edges of paths to the waypoint; they form no cycle
  let r : WaypointId → WaypointId → Prop := fun a b =>
    g.Precedes a b ∧ Relation.ReflTransGen g.Precedes b n
  have hend {a b : WaypointId} (hab : Relation.TransGen r a b) :
      Relation.ReflTransGen g.Precedes b n := by
    obtain ⟨_, -, hlast⟩ := Relation.TransGen.tail'_iff.1 hab
    exact hlast.2
  have : Std.Irrefl (Relation.TransGen r) :=
    ⟨fun a ha => h ⟨a, ha.lift id fun _ _ hr => hr.1, hend ha⟩⟩
  have hwf : WellFounded (Relation.TransGen r) := Finite.wellFounded_of_trans_of_irrefl _
  have hacc (b : WaypointId) (hb : Relation.ReflTransGen g.Precedes b n) : Acc g.Precedes b := by
    induction b using hwf.induction with
    | _ b ih => exact ⟨b, fun a hab => ih a (.single ⟨hab, hb⟩) (hb.head hab)⟩
  exact hacc n .refl

/-! ## What the queue takes -/

section Drained

variable {taken queue : List WaypointId} {d : OrdMap WaypointId Nat}

/-- With nothing left to take, a waypoint from which one comes to an end against the edges was
taken. -/
theorem Drained.mem_of_acc (hg : g.WellFormed) (h : Drained g taken [] d) (hn : n ∈ g.ids)
    (hacc : Acc g.Precedes n) : n ∈ taken := by
  induction hacc with
  | intro n _ ih =>
      by_contra hnot
      obtain ⟨m, hm, hm', hprec⟩ := h.exists_precedes hg hn hnot
      exact hm' (ih m hprec hm)

/-- A path to a waypoint that was taken begins at one that was taken before. -/
theorem Drained.idxOf_lt_of_path (h : Drained g taken queue d)
    (hpath : Relation.TransGen g.Precedes m n) (hn : n ∈ taken) :
    m ∈ taken ∧ taken.idxOf m < taken.idxOf n := by
  have hedge {m n : WaypointId} (hmn : g.Precedes m n) (hn : n ∈ taken) :
      m ∈ taken ∧ taken.idxOf m < taken.idxOf n := hmn.elim fun _ he => h.idxOf_lt he hn
  induction hpath with
  | single hmn => exact hedge hmn hn
  | tail _ hln ih =>
      obtain ⟨hl, hlt⟩ := hedge hln hn
      exact ⟨(ih hl).1, (ih hl).2.trans hlt⟩

/-- Nothing on a cycle or behind one is ever taken. -/
theorem Drained.not_behind (h : Drained g taken queue d) (hn : n ∈ taken) : ¬g.Behind n := by
  rintro ⟨m, hm, hmn⟩
  have htaken : m ∈ taken := by
    rcases Relation.reflTransGen_iff_eq_or_transGen.1 hmn with rfl | hmn
    · exact hn
    · exact (h.idxOf_lt_of_path hmn hn).1
  exact Nat.lt_irrefl _ (h.idxOf_lt_of_path hm htaken).2

/-- **With nothing left to take, what was not taken lies on a cycle or behind one.** -/
theorem Drained.not_mem_iff (hg : g.WellFormed) (h : Drained g taken [] d) :
    n ∈ g.ids ∧ n ∉ taken ↔ g.Behind n := by
  constructor
  · rintro ⟨hn, hnot⟩
    by_contra hbehind
    exact hnot (h.mem_of_acc hg hn (acc_of_not_behind hbehind))
  · intro hbehind
    exact ⟨hbehind.mem_ids hg, fun hn => h.not_behind hn hbehind⟩

/-- Inputs are left open where a waypoint lies on a cycle or behind one. -/
theorem Drained.mem_open_iff (hg : g.WellFormed) (h : Drained g taken [] d) :
    n ∈ (d.filter fun _ k => 0 < k).keys ↔ g.Behind n := by
  rw [← h.not_mem_iff hg, OrdMap.mem_keys_iff, OrdMap.get?_filter, h.count]
  have hmem := h.mem n
  rw [List.append_nil] at hmem
  by_cases hn : n ∈ g.ids
  · simp only [hn, true_and] at hmem
    simp [hn, hmem, Nat.pos_iff_ne_zero]
  · simp [hn]

end Drained

/-- Taking fewer waypoints than there are leaves one on a cycle or behind one. -/
theorem Drained.exists_behind (hg : g.WellFormed) {taken : List WaypointId}
    {d : OrdMap WaypointId Nat} (h : Drained g taken [] d) (hshort : taken.length < g.size) :
    ∃ n, g.Behind n := by
  by_contra hnone
  have hall : g.ids ⊆ taken := fun n hn => by
    by_contra hnot
    exact hnone ⟨n, (h.not_mem_iff hg).1 ⟨hn, hnot⟩⟩
  have hlen := (List.subperm_of_subset hg.nodup hall).length_le
  rw [ids, List.length_map] at hlen
  exact absurd hshort (Nat.not_lt.2 hlen)

/-- **Where there is no order,** the least waypoint on a cycle or behind one is reported. -/
theorem exists_report (hg : g.WellFormed) {e : PlanError} (h : g.topologicalOrder = .error e) :
    ∃ w ∈ g.waypoints, e = .cycleDetected w.name ∧ g.Behind w.id ∧
      ∀ n, g.Behind n → w.id.val ≤ n.val := by
  unfold topologicalOrder at h
  dsimp only at h
  split at h
  · rename_i hshort
    have hd : Drained g (g.drain g.size (initialQueue g.openInputs) g.openInputs).1 []
        (g.drain g.size (initialQueue g.openInputs) g.openInputs).2 := by
      rcases (Drained.initial hg).drain_full hg (n := g.size) with hfull | hd
      · omega
      · exact hd
    generalize g.drain g.size (initialQueue g.openInputs) g.openInputs = drained at h hd hshort
    obtain ⟨n, hn⟩ := hd.exists_behind hg hshort
    obtain ⟨k, hk⟩ : ∃ k, (drained.2.filter fun _ n => 0 < n).keys.head? = some k := by
      rw [← Option.isSome_iff_exists, List.isSome_head?]
      exact List.ne_nil_of_mem ((hd.mem_open_iff hg).2 hn)
    obtain ⟨hmem, hleast⟩ := OrdMap.head?_keys_eq_some_iff.1 hk
    have hbehind := (hd.mem_open_iff hg).1 hmem
    obtain ⟨w, hw⟩ := mem_ids_iff.1 (hbehind.mem_ids hg)
    rw [hk, Option.getD_some, hw, Option.map_some, Option.getD_some] at h
    obtain rfl := id_of_find? hw
    refine ⟨w, mem_of_find? hw, (Except.error.inj h).symm, hbehind, fun m hm => ?_⟩
    rcases hleast m ((hd.mem_open_iff hg).2 hm) with rfl | hlt
    · exact UInt32.le_refl _
    · exact UInt32.le_of_lt (Std.compare_eq_lt.1 hlt)
  · cases h

/-- An order is found if and only if nothing lies on a cycle. -/
theorem exists_topologicalOrder_iff (hg : g.WellFormed) :
    (∃ order, g.topologicalOrder = .ok order) ↔ g.Acyclic :=
  ⟨fun h => h.elim fun _ ho => acyclic_of_topologicalOrder hg ho, exists_topologicalOrder hg⟩

/-! ## A cycle with a waypoint behind it -/

/-- Four selections: two in a cycle, one ahead of it and one behind it. -/
def looped : PlanGraph where
  waypoints :=
    [.fresh ⟨2⟩ "ahead" (.selection ∅), .fresh ⟨3⟩ "behind" (.selection ∅),
      .fresh ⟨4⟩ "left" (.selection ∅), .fresh ⟨5⟩ "right" (.selection ∅)]
  links :=
    [⟨⟨2⟩, ⟨4⟩, .flowThrough⟩, ⟨⟨4⟩, ⟨5⟩, .flowThrough⟩, ⟨⟨5⟩, ⟨4⟩, .flowThrough⟩,
      ⟨⟨5⟩, ⟨3⟩, .flowThrough⟩]
  roots := ∅

theorem looped_reachable : looped.Reachable := by
  have made (id : WaypointId) (name : String) : Waypoint.Made (.fresh id name (.selection ∅)) :=
    .fresh _ _ rfl
  have h₁ : Reachable ⟨looped.waypoints.take 1, [], ∅⟩ :=
    .addWaypoint .empty (made ⟨2⟩ "ahead") rfl
  have h₂ : Reachable ⟨looped.waypoints.take 2, [], ∅⟩ :=
    .addWaypoint h₁ (made ⟨3⟩ "behind") rfl
  have h₃ : Reachable ⟨looped.waypoints.take 3, [], ∅⟩ := .addWaypoint h₂ (made ⟨4⟩ "left") rfl
  have h₄ : Reachable ⟨looped.waypoints, [], ∅⟩ := .addWaypoint h₃ (made ⟨5⟩ "right") rfl
  have e₁ : addEdge ⟨looped.waypoints, [], ∅⟩ ⟨2⟩ ⟨4⟩ .flowThrough =
      .ok ⟨looped.waypoints, looped.links.take 1, ∅⟩ := rfl
  have e₂ : addEdge ⟨looped.waypoints, looped.links.take 1, ∅⟩ ⟨4⟩ ⟨5⟩ .flowThrough =
      .ok ⟨looped.waypoints, looped.links.take 2, ∅⟩ := rfl
  have e₃ : addEdge ⟨looped.waypoints, looped.links.take 2, ∅⟩ ⟨5⟩ ⟨4⟩ .flowThrough =
      .ok ⟨looped.waypoints, looped.links.take 3, ∅⟩ := rfl
  have e₄ : addEdge ⟨looped.waypoints, looped.links.take 3, ∅⟩ ⟨5⟩ ⟨3⟩ .flowThrough =
      .ok looped := rfl
  exact .addEdge (.addEdge (.addEdge (.addEdge h₄ e₁) e₂) e₃) e₄

/-- The waypoint behind the cycle has no edge out of it. -/
theorem not_onCycle_looped : ¬looped.OnCycle ⟨3⟩ := by
  intro h
  obtain ⟨n, ⟨kind, he⟩, -⟩ := Relation.TransGen.head'_iff.1 h
  obtain ⟨-, hlink, -⟩ := mem_edges.1 he
  simp [looped] at hlink

/-! ## The order and the report -/

/-- **The topological order is correct and complete.**  An order is found if and only if the
edges between the waypoints form no cycle.  It lists every waypoint once, and of an edge
between waypoints the sender before the receiver. -/
theorem topologicalOrder_correct (hg : g.Reachable) :
    ((∃ order, g.topologicalOrder = .ok order) ↔ ∀ n, ¬g.OnCycle n) ∧
      ∀ order, g.topologicalOrder = .ok order →
        order.Nodup ∧ (∀ n, n ∈ order ↔ n ∈ g.ids) ∧
          ∀ e ∈ g.edges, ∃ l₁ l₂ l₃, order = l₁ ++ e.sender :: (l₂ ++ e.receiver :: l₃) := by
  have hg := hg.wellFormed
  refine ⟨exists_topologicalOrder_iff hg, fun order ho => ?_⟩
  have hperm := perm_of_topologicalOrder hg ho
  refine ⟨hperm.nodup_iff.2 hg.nodup, fun n => hperm.mem_iff, fun e he => ?_⟩
  have hreceiver : e.receiver ∈ order :=
    hperm.mem_iff.2 (mem_ids_of_precedes hg ⟨e.kind, he⟩)
  obtain ⟨before, after, rfl⟩ := List.append_of_mem hreceiver
  obtain ⟨l₁, l₂, rfl⟩ := List.append_of_mem (forward_of_topologicalOrder hg ho he rfl)
  exact ⟨l₁, l₂, after, by simp⟩

/-- A line has an order, a graph with a cycle has none. -/
theorem topologicalOrder_correct_line :
    line.topologicalOrder = .ok [⟨2⟩, ⟨3⟩, ⟨4⟩] ∧ (∀ n, ¬line.OnCycle n) ∧
      (∀ e ∈ line.edges, ∃ l₁ l₂ l₃,
        [⟨2⟩, ⟨3⟩, ⟨4⟩] = l₁ ++ e.sender :: (l₂ ++ e.receiver :: l₃)) ∧
      ∃ n, looped.OnCycle n := by
  have hline : line.topologicalOrder = .ok [⟨2⟩, ⟨3⟩, ⟨4⟩] := by decide +kernel
  have hlooped : ¬∃ order, looped.topologicalOrder = .ok order := by
    rintro ⟨order, ho⟩
    have herror : looped.topologicalOrder = .error (.cycleDetected "behind") := by decide +kernel
    rw [herror] at ho
    cases ho
  obtain ⟨hiff, hlist⟩ := topologicalOrder_correct line_reachable
  refine ⟨hline, hiff.1 ⟨_, hline⟩, (hlist _ hline).2.2, ?_⟩
  by_contra hnone
  exact hlooped ((topologicalOrder_correct looped_reachable).1.2 fun n hn => hnone ⟨n, hn⟩)

/-- **What is reported lies on a cycle or behind one.**  Where there is no order, the report names
the waypoint with the least id among those on a cycle and those that a path leads to from a
cycle; and it names such a waypoint only where there is no order. -/
theorem topologicalOrder_eq_error_iff (hg : g.Reachable) {e : PlanError} :
    g.topologicalOrder = .error e ↔
      ∃ w ∈ g.waypoints, e = .cycleDetected w.name ∧ g.Behind w.id ∧
        ∀ n, g.Behind n → w.id.val ≤ n.val := by
  have hg := hg.wellFormed
  refine ⟨exists_report hg, ?_⟩
  rintro ⟨w, hw, rfl, hbehind, hleast⟩
  cases ho : g.topologicalOrder with
  | ok order =>
      obtain ⟨m, hm, -⟩ := hbehind
      exact absurd hm (acyclic_of_topologicalOrder hg ho m)
  | error e =>
      obtain ⟨v, hv, rfl, hbehind', hleast'⟩ := exists_report hg ho
      have hid : v.id = w.id :=
        congrArg WaypointId.mk (UInt32.le_antisymm (hleast' _ hbehind) (hleast _ hbehind'))
      rw [List.inj_on_of_nodup_map hg.nodup hv hw hid]

/-- The waypoint behind the cycle is reported, not one on it. -/
theorem topologicalOrder_eq_error_looped :
    looped.topologicalOrder = .error (.cycleDetected "behind") ∧
      ∃ w ∈ looped.waypoints, w.name = "behind" ∧ looped.Behind w.id ∧
        ∀ n, looped.Behind n → w.id.val ≤ n.val := by
  have herror : looped.topologicalOrder = .error (.cycleDetected "behind") := by decide +kernel
  obtain ⟨w, hw, he, hbehind⟩ := (topologicalOrder_eq_error_iff looped_reachable).1 herror
  exact ⟨herror, w, hw, (PlanError.cycleDetected.inj he).symm, hbehind⟩

/-- **A waypoint that is reported need not lie on a cycle.** -/
theorem not_onCycle_of_cycleDetected :
    ¬∀ (g : PlanGraph) (name : String), g.Reachable →
      g.topologicalOrder = .error (.cycleDetected name) →
        ∃ w ∈ g.waypoints, w.name = name ∧ g.OnCycle w.id := by
  intro h
  obtain ⟨w, hw, hname, hcycle⟩ := h looped "behind" looped_reachable (by decide +kernel)
  have hid : w.id = ⟨3⟩ := by
    simp only [looped, List.mem_cons, List.not_mem_nil, or_false] at hw
    rcases hw with rfl | rfl | rfl | rfl
    · simp [Waypoint.fresh] at hname
    · rfl
    · simp [Waypoint.fresh] at hname
    · simp [Waypoint.fresh] at hname
  exact not_onCycle_looped (hid ▸ hcycle)

end PlanGraph

end SharedPlan
