import SharedPlan.Proofs.Planner.Tidy

/-!
# SharedPlan.Proofs.Planner.Cleared

Clearing a plan is deleting its queries one after another.

Deleting a query first makes no difference to clearing (`Workspace.Tidy.clearQueries_deleteQuery`),
and where no query is left there is nothing to clear (`Workspace.Tidy.clearQueries_eq_self`):
nothing is kept for a query that is not in use.  So deletions under the names of all
queries, in whatever order, come to the same as clearing (`Planner.clear_deletes_all`).
-/

namespace SharedPlan

/-! ## Registries -/

namespace OrdMap

variable {κ ν : Type} [Ord κ] [Std.LawfulEqOrd κ]

/-- The values without that of one key, and that value, are all values. -/
theorem perm_values_erase [DecidableEq κ] {m : OrdMap κ ν} {k : κ} {v : ν}
    (h : m.get? k = some v) : m.values.Perm (v :: (m.erase k).values) := by
  have hmem (e : κ × ν) : e ∈ (m.erase k).entries ↔ e.1 ≠ k ∧ e ∈ m.entries := by
    rw [← get?_eq_some_iff, ← get?_eq_some_iff, get?_erase]
    split <;> simp_all
  have hentries : m.entries.Perm ((k, v) :: (m.erase k).entries) := by
    have hnew : (k, v) ∉ (m.erase k).entries := fun he => ((hmem _).1 he).1 rfl
    refine (List.perm_ext_iff_of_nodup (.of_map _ m.nodup_keys)
      (List.nodup_cons.2 ⟨hnew, .of_map _ (m.erase k).nodup_keys⟩)).2 fun e => ?_
    rw [List.mem_cons, hmem]
    by_cases hk : e.1 = k
    · -- the one entry of the key
      have he : e ∈ m.entries ↔ e = (k, v) := by
        obtain ⟨j, w⟩ := e
        obtain rfl : j = k := hk
        rw [← get?_eq_some_iff, h, Option.some.injEq, Prod.mk.injEq, eq_comm]
        exact (and_iff_right rfl).symm
      simp [he, hk]
    · have hne : e ≠ (k, v) := fun he => hk (congrArg Prod.fst he)
      simp [hne, hk]
  exact hentries.map Prod.snd

end OrdMap

namespace QueryRegistry

variable {r : QueryRegistry}

/-- Releasing all ids in use leaves no name. -/
theorem Valid.remove_all (hr : r.Valid) {l : List QueryId}
    (hl : ∀ q ∈ r.names.keys, q ∈ l) : l.foldl (·.remove ·) r = ⟨r.capacity, ∅, ∅⟩ := by
  induction l generalizing r with
  | nil =>
      have hkeys (q : QueryId) : q ∉ r.names.keys := fun hq => List.not_mem_nil (hl q hq)
      have hnames : r.names = ∅ := by
        ext1 q
        exact Option.not_isSome_iff_eq_none.1 fun h => hkeys q (OrdMap.mem_keys_iff.2 h)
      have haliases : r.aliases = ∅ := by
        ext1 a
        cases ha : r.aliases.get? a with
        | none => rfl
        | some q => exact absurd (hr.targets a q ha) (hkeys q)
      obtain ⟨capacity, names, aliases⟩ := r
      exact congr (congrArg (QueryRegistry.mk capacity) hnames) haliases
  | cons q rest ih =>
      refine ih (hr.remove q) fun t ht => ?_
      obtain ⟨hne, ht⟩ := mem_keys_remove.1 ht
      exact (List.mem_cons.1 (hl t ht)).resolve_left hne

/-- Every active query has a name, and these are all names. -/
theorem Valid.exists_names (hr : r.Valid) {ids : List QueryId}
    (hids : ids.Perm r.active.toList) :
    ∃ names : List String, ids.map r.name? = names.map some ∧ names.Perm r.names.values := by
  have hkeys : ids.Perm r.names.keys :=
    hids.trans ((List.perm_ext_iff_of_nodup r.active.nodup_toList r.names.nodup_keys).2
      fun _ => hr.mem_active_iff)
  have hsome (q : QueryId) (hq : q ∈ ids) : ∃ name, r.name? q = some name :=
    Option.isSome_iff_exists.1 (OrdMap.mem_keys_iff.1 (hkeys.mem_iff.1 hq))
  choose! name hname using hsome
  have hvalues : r.names.keys.map name = r.names.values := by
    rw [OrdMap.keys, OrdMap.values, List.map_map]
    refine List.map_congr_left fun e he => ?_
    have hget : r.names.get? e.1 = some e.2 := OrdMap.get?_eq_some_iff.2 he
    have hmem : e.1 ∈ ids := hkeys.mem_iff.2 (List.mem_map_of_mem he)
    exact Option.some.inj ((hname e.1 hmem).symm.trans hget)
  refine ⟨ids.map name, ?_, hvalues ▸ hkeys.map name⟩
  rw [List.map_map]
  exact List.map_congr_left hname

end QueryRegistry

/-! ## Waypoints and graphs -/

namespace Waypoint

/-- Clearing forgets what deleting forgets. -/
theorem clear_deleteQuery (w : Waypoint) (q : QueryId) : (w.deleteQuery q).clear = w.clear := by
  obtain ⟨id, name, flows, role⟩ := w
  cases role <;> rfl

/-- A waypoint that keeps nothing for any query is clear. -/
theorem clear_eq_self {w : Waypoint} (h : ∀ q, q ∉ w.queries) : w.clear = w := by
  have htwice : w.clear.clear = w.clear := by
    obtain ⟨id, name, flows, role⟩ := w
    cases role <;> rfl
  refine eq_of_only fun q => ?_
  rw [only_clear, not_mem_queries_iff.1 (h q), htwice]

end Waypoint

namespace PlanGraph

variable {g : PlanGraph}

/-- Deleting a query first makes no difference to clearing. -/
theorem clearQueries_deleteQuery (g : PlanGraph) (q : QueryId) :
    (g.deleteQuery q).clearQueries = g.clearQueries := by
  have hwaypoints : (g.waypoints.map (·.deleteQuery q)).map (·.clear) =
      g.waypoints.map (·.clear) := by
    rw [List.map_map]
    exact List.map_congr_left fun w _ => w.clear_deleteQuery q
  exact congrArg (PlanGraph.mk · g.links ∅) hwaypoints

/-- Where no query occurs there is nothing to clear. -/
theorem clearQueries_eq_self (h : ∀ q, ¬g.Mentions q) : g.clearQueries = g := by
  have hwaypoints : g.waypoints.map (·.clear) = g.waypoints := by
    rw [List.map_congr_left fun w hw => Waypoint.clear_eq_self fun q hq => h q (.inl ⟨w, hw, hq⟩)]
    exact List.map_id' _
  have hroots : g.roots = ∅ := by
    ext1 q
    cases hq : g.roots.get? q with
    | none => rfl
    | some root => exact absurd (.inr ⟨root, hq⟩) (h q)
  obtain ⟨waypoints, links, roots⟩ := g
  exact congr (congrArg (PlanGraph.mk · links) hwaypoints) hroots.symm

end PlanGraph

/-! ## Plans under construction -/

namespace Workspace

variable {s : Workspace} {q : QueryId} {name : String}

/-- Clearing empties the graph and the registry. -/
theorem Tidy.clearQueries_eq (hs : s.Tidy) :
    s.clearQueries = { s with
      graph := s.graph.clearQueries, queries := ⟨s.queries.capacity, ∅, ∅⟩ } := by
  have hqueries := hs.queries.remove_all fun q hq => hs.queries.mem_active_iff.2 hq
  rw [Workspace.clearQueries, hqueries]

/-- Deleting a query first makes no difference to clearing. -/
theorem Tidy.clearQueries_deleteQuery (hs : s.Tidy) (name : String) :
    (s.deleteQuery name).2.clearQueries = s.clearQueries := by
  rw [(hs.deleteQuery name).clearQueries_eq, hs.clearQueries_eq, Workspace.deleteQuery]
  split
  · rfl
  · simp only [PlanGraph.clearQueries_deleteQuery]
    rfl

/-- Where no query is left there is nothing to clear. -/
theorem Tidy.clearQueries_eq_self (hs : s.Tidy) (h : s.queries.names = ∅) : s.clearQueries = s := by
  have hkeys (q : QueryId) : q ∉ s.queries.names.keys := by
    rw [h]
    exact List.not_mem_nil
  have hgraph : s.graph.clearQueries = s.graph :=
    PlanGraph.clearQueries_eq_self fun q hq => hkeys q (hs.graph.of_mentions hq)
  have hqueries : (⟨s.queries.capacity, ∅, ∅⟩ : QueryRegistry) = s.queries :=
    (hs.queries.remove_all (l := []) fun q hq => absurd hq (hkeys q)).symm
  rw [hs.clearQueries_eq, hgraph, hqueries]

/-- What a deletion by name leaves, if the name is that of a query in use. -/
theorem exists_deleteQuery (h : s.queries.names.get? q = some name) :
    ∃ t, s.queries.names.get? t = some name ∧ s.deleteQuery name = (true, { s with
      graph := s.graph.deleteQuery t, queries := s.queries.remove t }) := by
  obtain ⟨t, ht⟩ := QueryRegistry.exists_primary? h
  refine ⟨t, QueryRegistry.names_of_primary? ht, ?_⟩
  rw [deleteQuery, QueryRegistry.lookup, ht, Option.some_or]

/-- **Deleting by all names is clearing.** -/
theorem Tidy.deleteQueries (hs : s.Tidy) {names : List String}
    (hnames : names.Perm s.queries.names.values) :
    names.foldl (fun s name => (s.deleteQuery name).2) s = s.clearQueries := by
  induction names generalizing s with
  | nil =>
      have hempty : s.queries.names = ∅ := by
        ext1 q
        cases hq : s.queries.names.get? q with
        | none => rfl
        | some name =>
            have hmem := List.mem_map_of_mem (f := Prod.snd) (OrdMap.get?_eq_some_iff.1 hq)
            exact absurd (hnames.mem_iff.2 hmem) List.not_mem_nil
      exact (hs.clearQueries_eq_self hempty).symm
  | cons name rest ih =>
      obtain ⟨e, he, hname⟩ := List.mem_map.1 (hnames.mem_iff.1 List.mem_cons_self)
      have hq : s.queries.names.get? e.1 = some name := OrdMap.get?_eq_some_iff.2 (hname ▸ he)
      obtain ⟨t, ht, hdelete⟩ := exists_deleteQuery hq
      have hrest : rest.Perm (s.deleteQuery name).2.queries.names.values := by
        rw [hdelete]
        exact (hnames.trans (OrdMap.perm_values_erase ht)).cons_inv
      rw [List.foldl_cons, ih (hs.deleteQuery name) hrest, hs.clearQueries_deleteQuery]

end Workspace

/-! ## Planners -/

namespace Planner

variable {p : Planner}

theorem runAll_deleteQueries (names : List String) (p : Planner) :
    p.runAll (names.map .deleteQuery) = { p with
      workspace := names.foldl (fun s name => (s.deleteQuery name).2) p.workspace } := by
  induction names generalizing p with
  | nil => rfl
  | cons name rest ih => exact ih _

/-- **Clearing is deleting every query.**  Whatever a planner was called for, let its active
queries be listed in any order.  Each of them has a name, and deleting by these names one after
another leaves what clearing leaves: the same records on every waypoint, edges, roots and
registries.  Neither touches the snapshot that was published, the number of cycles or the
interned names. -/
theorem clear_deletes_all (hp : p.Fresh) (calls : List Call) {ids : List QueryId}
    (hids : ids.Perm (p.runAll calls).workspace.queries.active.toList) :
    ∃ names : List String,
      ids.map (p.runAll calls).workspace.queries.name? = names.map some ∧
      (p.runAll calls).runAll (names.map .deleteQuery) =
        ((p.runAll calls).perform .clearQueries).2 ∧
      ((p.runAll calls).perform .clearQueries).2.snapshot = (p.runAll calls).snapshot ∧
      ((p.runAll calls).perform .clearQueries).2.cycle = (p.runAll calls).cycle ∧
      ((p.runAll calls).perform .clearQueries).2.workspace.names =
        (p.runAll calls).workspace.names := by
  have htidy := tidy_runAll calls hp.tidy
  obtain ⟨names, hnames, hvalues⟩ := htidy.queries.exists_names hids
  refine ⟨names, hnames, ?_, rfl, rfl, rfl⟩
  rw [runAll_deleteQueries, htidy.deleteQueries hvalues]
  rfl

/-- Two queries on a scan, one of them with another name and without a root, so that the cycle
that is run breaks off. -/
def twoQueries : List Call :=
  .addQuery "q" :: scanAndPrint ++
    [.addQuery "r", .addAlias "s" ⟨1⟩ (by decide), .register (.scanner "scan" ["s"]), .compile]

/-- Deleting the two, the later one first, is clearing. -/
theorem clear_deletes_all_twoQueries :
    ∃ p, p = Planner.new .standard (.ofNames ["a"]) ∧
      (p.runAll twoQueries).workspace.graph.Mentions ⟨1⟩ ∧
      (p.runAll twoQueries).workspace.queries.active.toList = [⟨0⟩, ⟨1⟩] ∧
      (p.runAll twoQueries).runAll [.deleteQuery "r", .deleteQuery "q"] =
        ((p.runAll twoQueries).perform .clearQueries).2 := by
  obtain ⟨p, hp⟩ : ∃ p, p = Planner.new .standard (.ofNames ["a"]) := ⟨_, rfl⟩
  have hactive : (p.runAll twoQueries).workspace.queries.active.toList = [⟨0⟩, ⟨1⟩] := by
    rw [hp]
    decide +kernel
  have hnamed : [⟨1⟩, ⟨0⟩].map (p.runAll twoQueries).workspace.queries.name? =
      ["r", "q"].map some := by
    rw [hp]
    decide +kernel
  have hkept : ∃ w ∈ (p.runAll twoQueries).workspace.graph.waypoints, ⟨1⟩ ∈ w.queries := by
    rw [hp]
    decide +kernel
  have hids : [⟨1⟩, ⟨0⟩].Perm (p.runAll twoQueries).workspace.queries.active.toList := by
    rw [hactive]
    exact .swap _ _ _
  obtain ⟨names, hnames, hcleared, -⟩ :=
    clear_deletes_all (hp ▸ .new .standard (.ofNames ["a"])) twoQueries hids
  obtain rfl : names = ["r", "q"] :=
    List.map_injective_iff.2 (Option.some_injective _) (hnames.symm.trans hnamed)
  exact ⟨p, hp, .inl hkept, hactive, hcleared⟩

end Planner

end SharedPlan
