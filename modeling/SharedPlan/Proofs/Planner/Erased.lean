import SharedPlan.Proofs.Planner.Capped
import SharedPlan.Proofs.Planner.Tidy

/-!
# SharedPlan.Proofs.Planner.Erased

Deleting a query erases it.

While a query is registered, named and compiled, the plan it started from stays what the
deletion of the query would leave (`Workspace.Erases`), up to what cycles left on the
waypoints and edges to the top.  Neither shows in what a planner answers later
(`Even.perform`).  So after the query is deleted, whatever is called is answered as if it had
never been added (`delete_erases`).
-/

namespace SharedPlan

open Attempt (Keeps)

/-! ## Deleting what was written -/

namespace PlanGraph

variable {g h m t : PlanGraph} {q : QueryId} {id : WaypointId}

/-- Deleting a query that does not occur changes nothing. -/
theorem deleteQuery_eq_self (hq : ¬g.Mentions q) : g.deleteQuery q = g := by
  have hwaypoints : g.waypoints.map (·.deleteQuery q) = g.waypoints := by
    rw [List.map_congr_left fun w hw => Waypoint.deleteQuery_eq_self fun h => hq (.inl ⟨w, hw, h⟩)]
    exact List.map_id' _
  have hroots : g.roots.erase q = g.roots := by
    ext1 r
    rw [OrdMap.get?_erase]
    split
    · rename_i hr
      rw [hr]
      cases hroot : g.roots.get? q with
      | none => rfl
      | some root => exact absurd (.inr ⟨root, hroot⟩) hq
    · rfl
  obtain ⟨waypoints, links, roots⟩ := g
  exact congr (congrArg (fun ws => PlanGraph.mk ws links) hwaypoints) hroots

theorem erase_insert (roots : OrdMap QueryId WaypointId) (q : QueryId) (id : WaypointId) :
    (roots.insert q id).erase q = roots.erase q := by
  ext1 r
  simp only [OrdMap.get?_erase, OrdMap.get?_insert]
  split <;> rfl

/-- What a root adds is an edge to the top once the query is deleted. -/
theorem setRoot_deleteQuery (hs : g.setRoot q id = .ok h) :
    ∃ k, (g.deleteQuery q).setRoot q id = .ok k ∧ k.deleteQuery q = h.deleteQuery q := by
  have hids : (g.deleteQuery q).ids = g.ids := ids_mapWaypoints (f := (·.deleteQuery q))
    (fun _ => rfl) g
  have hcontains : (g.deleteQuery q).contains id = g.contains id := by
    rw [Bool.eq_iff_iff, contains_iff, contains_iff, hids]
  have houtputs : (g.deleteQuery q).outputs = g.outputs := outputs_congr hids rfl
  have hroots : ((g.roots.erase q).insert q id).erase q = (g.roots.insert q id).erase q := by
    rw [erase_insert, erase_insert]
    ext1 r
    simp only [OrdMap.get?_erase]
    split <;> rfl
  have htwice (w : Waypoint) : (w.deleteQuery q).deleteQuery q = w.deleteQuery q :=
    Waypoint.deleteQuery_eq_self fun h => (Waypoint.mem_queries_deleteQuery.1 h).1 rfl
  have hwaypoints : (g.waypoints.map (·.deleteQuery q)).map (·.deleteQuery q) =
      g.waypoints.map (·.deleteQuery q) := by
    rw [List.map_map]
    exact List.map_congr_left fun w _ => htwice w
  unfold setRoot at hs ⊢
  rw [hcontains, houtputs]
  split at hs
  · cases hs
  · obtain rfl := Except.ok.inj hs
    rename_i hid
    rw [if_neg hid]
    refine ⟨_, rfl, ?_⟩
    split <;>
      simp only [deleteQuery, mapWaypoints, PlanGraph.link, hwaypoints, hroots]

theorem Capped.refl (hg : g.WellFormed) : g.Capped g := ⟨rfl, rfl, rfl, hg.proper⟩

/-- Once a query is deleted, a graph begins a cycle like one that is equal to another but for
edges to the top. -/
structure Erases (q : QueryId) (t g : PlanGraph) : Prop where
  reachable : g.Reachable
  alike : ∃ m, (g.deleteQuery q).Alike m ∧ m.Capped t

theorem erases_self (ht : t.Reachable) (hq : ¬t.Mentions q) : t.Erases q t := by
  refine ⟨ht, t, ?_, .refl ht.wellFormed⟩
  rw [deleteQuery_eq_self hq]
  exact ⟨ht, ht, rfl⟩

/-- A graph that differs in what is kept for the query erases to the same. -/
theorem Erases.congr (H : t.Erases q g) (hh : h.Reachable)
    (hgh : (h.deleteQuery q).beginCycle = (g.deleteQuery q).beginCycle) : t.Erases q h := by
  obtain ⟨m, ⟨-, hm, halike⟩, hcapped⟩ := H.alike
  exact ⟨hh, m, ⟨hh.deleteQuery q, hm, hgh.trans halike⟩, hcapped⟩

theorem Erases.renews (H : t.Erases q g) (hgh : Renews g h) : t.Erases q h :=
  H.congr hgh.reachable <| by
    rw [beginCycle_deleteQuery, beginCycle_deleteQuery, hgh.beginCycle]

/-- A duty of the query goes with the query. -/
theorem Erases.enrol (H : t.Erases q g) {w : Waypoint} (hw : g.find? id = some w)
    {l : List QueryId} (hl : ∀ r ∈ l, r = q) (d : Duty) :
    t.Erases q (g.replace (l.foldl (·.enrol · d) w)) := by
  have hdelete (l : List QueryId) (hl : ∀ r ∈ l, r = q) (w : Waypoint) :
      (l.foldl (·.enrol · d) w).deleteQuery q = w.deleteQuery q := by
    induction l generalizing w with
    | nil => rfl
    | cons r rest ih =>
        obtain ⟨rfl, hrest⟩ := List.forall_mem_cons.1 hl
        exact (ih hrest _).trans (Waypoint.deleteQuery_enrol ..)
  refine H.congr (H.reachable.enrolAll hw l d) (congrArg PlanGraph.beginCycle ?_)
  have hid : (l.foldl (·.enrol · d) w).id = id := (id_enrolAll l d w).trans (id_of_find? hw)
  have hview := mapWaypoints_replace_eq (f := (·.deleteQuery q)) H.reachable.wellFormed.nodup
    (hid.symm ▸ hw) (hdelete l hl w)
  exact congrArg (fun k : PlanGraph => { k with roots := g.roots.erase q }) hview

/-- A root of the query goes with the query. -/
theorem Erases.setRoot (H : t.Erases q g) (ht : ¬t.Mentions q) (hs : g.setRoot q id = .ok h) :
    t.Erases q h := by
  obtain ⟨m, halike, hcapped⟩ := H.alike
  obtain ⟨k, hk, hkh⟩ := setRoot_deleteQuery hs
  refine ⟨H.reachable.setRoot hs, ?_⟩
  -- the same edge is placed on the other side, where the root is taken away again
  have hagree := halike.setRoot q id
  rw [hk] at hagree
  cases hm : m.setRoot q id with
  | error e =>
      rw [hm] at hagree
      cases hagree
  | ok l =>
      rw [hm] at hagree
      obtain ⟨hkl⟩ := hagree
      refine ⟨l.deleteQuery q, hkh ▸ hkl.deleteQuery q, ?_⟩
      have hrooted : l.Capped { t with roots := t.roots.insert q id } := by
        have hroots : m.roots.insert q id = t.roots.insert q id := by rw [hcapped.roots]
        rcases eq_of_setRoot hm with rfl | rfl
        · exact hcapped.withRoots hroots
        · exact (hcapped.link_left id .terminating).withRoots hroots
      have hdeleted : ({ t with roots := t.roots.insert q id } : PlanGraph).deleteQuery q = t := by
        refine Eq.trans ?_ (deleteQuery_eq_self ht)
        exact congrArg (PlanGraph.mk (t.waypoints.map (·.deleteQuery q)) t.links)
          (erase_insert t.roots q id)
      exact hdeleted ▸ respected_capped.deleteQuery q hrooted

theorem Erases.setRoots (H : t.Erases q g) (ht : ¬t.Mentions q) {l : List QueryId}
    (hl : ∀ r ∈ l, r = q) (hs : l.foldlM (·.setRoot · id) g = .ok h) : t.Erases q h := by
  induction l generalizing g with
  | nil => exact Except.ok.inj hs ▸ H
  | cons r rest ih =>
      obtain ⟨rfl, hrest⟩ := List.forall_mem_cons.1 hl
      rw [List.foldlM_cons] at hs
      obtain ⟨k, hk, hs⟩ := bind_eq_ok_iff.1 hs
      exact ih (H.setRoot ht hk) hrest hs

end PlanGraph

/-! ## Plans under construction -/

namespace Workspace

/-- A plan to which a query was added, and what it was before: once the query is deleted the
registries are the same, and so is the graph but for what does not show. -/
structure Erases (q : QueryId) (name : String) (t s : Workspace) : Prop where
  names : s.names = t.names
  queries : s.queries.remove q = t.queries
  primary : s.queries.names.get? q = some name
  attributes : s.attributes = t.attributes
  graph : t.graph.Erases q s.graph

variable {s s' t : Workspace} {q r : QueryId} {name n : String}

/-- A name that stood for nothing can only have become one of the query. -/
theorem Erases.eq_of_resolve (H : t.Erases q name s) (hn : t.queries.lookup n = none)
    (hr : s.queries.resolve n = .ok r) : r = q := by
  by_contra hne
  have hkept := QueryRegistry.lookup_remove (QueryRegistry.lookup_of_resolve hr) hne
  rw [H.queries, hn] at hkept
  cases hkept

/-- The name of the query finds it. -/
theorem Erases.lookup (H : t.Erases q name s) (hname : t.queries.lookup name = none) :
    s.queries.lookup name = some q := by
  obtain ⟨r, hr⟩ := QueryRegistry.exists_primary? H.primary
  have hlookup : s.queries.lookup name = some r := by rw [QueryRegistry.lookup, hr, Option.some_or]
  have hresolve : s.queries.resolve name = .ok r := by rw [QueryRegistry.resolve, hlookup]
  rw [hlookup, H.eq_of_resolve hname hresolve]

/-- A duty of the query goes with it, also when it was assigned by name. -/
theorem Erases.assign (H : t.Erases q name s) (ht : ¬t.graph.Mentions q) {waypoint : String}
    {l : List QueryId} (hl : ∀ r ∈ l, r = q) {d : Duty} (hs : s.assign waypoint l d = .ok s') :
    t.Erases q name s' := by
  obtain ⟨id, w, graph, hw, -, hgraph, rfl⟩ := eq_of_assign hs
  refine ⟨H.names, H.queries, H.primary, H.attributes, ?_⟩
  have henrolled := H.graph.enrol hw hl d
  split at hgraph
  · exact henrolled.setRoots ht hl hgraph
  · exact Except.ok.inj hgraph ▸ henrolled

theorem keeps_erases_returnAsState (ht : ¬t.graph.Mentions q) (waypoint : String)
    (hn : t.queries.lookup n = none) : Keeps (t.Erases q name) (returnAsState waypoint n) :=
  keeps_returnAsState fun H hl hs => H.assign ht (fun r hr => H.eq_of_resolve hn (hl r hr)) hs

theorem keeps_erases_register (ht : ¬t.graph.Mentions q) {reg : Registration}
    (hreg : ∀ n ∈ reg.queries, t.queries.lookup n = none) :
    Keeps (t.Erases q name) (register reg) := by
  refine keeps_register fun H hl hs => H.assign ht (fun r hr => ?_) hs
  obtain ⟨n, hn, hresolve⟩ := hl r hr
  exact H.eq_of_resolve (hreg n hn) hresolve

theorem keeps_erases_addAlias (n : String) : Keeps (t.Erases q name) (addAlias n q) := by
  refine keeps_update fun H hs => ?_
  obtain ⟨queries, ha, rfl⟩ := bind_pure_eq_ok_iff.1 hs
  have hremove := QueryRegistry.remove_of_addAlias ha
  obtain ⟨-, -, hqueries⟩ := QueryRegistry.eq_of_addAlias ha
  exact ⟨H.names, hremove.trans H.queries, by rw [hqueries]; exact H.primary, H.attributes,
    H.graph⟩

end Workspace

/-! ## Planners -/

namespace Planner

variable {p p' : Planner} {q : QueryId} {name n : String}

theorem Reply.Alike.trans {a b c : Reply} (hab : a.Alike b) (hbc : b.Alike c) : a.Alike c := by
  cases hab with
  | same => exact hbc
  | published hr hc hq =>
      cases hbc with
      | same => exact .published hr hc hq
      | published hr' hc' hq' => exact .published (hr.trans hr') (hc.trans hc') (hq.trans hq')

/-- A cycle comes to the same on graphs that are equal but for edges to the top. -/
theorem Over.compile_capped (h : Over PlanGraph.Capped p p') :
    (Reply.compiled (compile.outcome p).1).Alike (.compiled (compile.outcome p').1) ∧
      Over PlanGraph.Capped (compile.outcome p).2 (compile.outcome p').2 := by
  obtain ⟨hr, hafter⟩ := respects_analyzeAndRoute p'.workspace.queries.active p'.options _ _
    h.workspace.graph
  rw [compile_outcome, compile_outcome, h.options, h.workspace.queries]
  cases hg : (analyzeAndRoute p'.workspace.queries.active p'.options).outcome
      p.workspace.graph with
  | mk r g =>
      cases hh : (analyzeAndRoute p'.workspace.queries.active p'.options).outcome
          p'.workspace.graph with
      | mk r' k =>
          rw [hg, hh] at hr hafter
          obtain rfl : r = r' := hr
          have hcapped : g.Capped k := hafter
          have hworkspace : Workspace.Over PlanGraph.Capped { p.workspace with graph := g }
              { p'.workspace with graph := k } :=
            ⟨h.workspace.names, h.workspace.queries, h.workspace.attributes, hcapped⟩
          dsimp only
          cases r with
          | error e => exact ⟨.same _, rfl, hworkspace⟩
          | ok routing =>
              refine ⟨.published rfl ?_ rfl, rfl, hworkspace⟩
              rw [hcapped.waypoints]

/-- Planners whose graphs are equal but for edges to the top answer alike. -/
theorem Over.perform_capped (h : Over PlanGraph.Capped p p') (c : Call) :
    (p.perform c).1.Alike (p'.perform c).1 ∧
      Over PlanGraph.Capped (p.perform c).2 (p'.perform c).2 := by
  cases hc : c.isAttempt with
  | false =>
      obtain ⟨hreply, hafter⟩ := Over.perform PlanGraph.respected_capped h hc
      exact ⟨hreply ▸ .same _, hafter⟩
  | true =>
      rcases perform_attempt hc with hperform | hperform <;> rw [hperform, hperform]
      · exact h.compile_capped
      · exact ⟨.same _, h⟩

/-- Planners with the same registries, whose graphs differ in what cycles left on the
waypoints and in edges to the top. -/
def Even (p p' : Planner) : Prop := ∃ m, Alike p m ∧ Over PlanGraph.Capped m p'

/-- **What a deleted query leaves does not show**, whatever is called. -/
theorem Even.perform (h : Even p p') (c : Call) :
    (p.perform c).1.Alike (p'.perform c).1 ∧ Even (p.perform c).2 (p'.perform c).2 := by
  obtain ⟨m, halike, hcapped⟩ := h
  obtain ⟨hreply, halike⟩ := halike.perform c
  obtain ⟨hreply', hcapped⟩ := hcapped.perform_capped c
  exact ⟨hreply.trans hreply', _, halike, hcapped⟩

/-- Planners that are even stay so through every sequence of calls. -/
theorem Even.runAll (h : Even p p') (calls : List Call) :
    Even (p.runAll calls) (p'.runAll calls) := by
  induction calls generalizing p p' with
  | nil => exact h
  | cons c rest ih => exact ih (h.perform c).2

/-! ## The life of a query -/

/-- A call that registers a query or gives it another name, by names that stand for no other
query of a registry; or an attempt to compile in between. -/
inductive Call.Concerns (queries : QueryRegistry) (q : QueryId) : Call → Prop
  | register {r : Registration} :
      (∀ n ∈ r.queries, queries.lookup n = none) → Concerns queries q (.register r)
  | returnAsState (waypoint : String) {n : String} :
      queries.lookup n = none → Concerns queries q (.returnAsState waypoint n)
  | addAlias (n : String) (h : q ∈ QuerySet.ids) : Concerns queries q (.addAlias n q h)
  | attempt {c : Call} : c.isAttempt = true → Concerns queries q c

/-- A planner to which a query was added, and what it was before. -/
structure Erases (q : QueryId) (name : String) (p' p : Planner) : Prop where
  options : p.options = p'.options
  workspace : p'.workspace.Erases q name p.workspace

theorem Erases.build (H : p'.Erases q name p) {α : Type} {step : Attempt Workspace α}
    (hstep : Keeps (p'.workspace.Erases q name) step) (form : Except PlanError α → Reply) :
    p'.Erases q name (answer form (build step) p).2 :=
  ⟨H.options, hstep _ H.workspace⟩

/-- What concerns the query goes when it is deleted. -/
theorem Erases.perform (H : p'.Erases q name p) (hq : ¬p'.workspace.graph.Mentions q) {c : Call}
    (hc : c.Concerns p'.workspace.queries q) : p'.Erases q name (p.perform c).2 := by
  cases hc with
  | register hreg => exact H.build (Workspace.keeps_erases_register hq hreg) .done
  | returnAsState waypoint hn =>
      exact H.build (Workspace.keeps_erases_returnAsState hq waypoint hn) .done
  | addAlias n _ => exact H.build (Workspace.keeps_erases_addAlias n) .done
  | attempt hattempt =>
      obtain ⟨graph, hrenews, hoptions, hworkspace⟩ :=
        exists_renews_perform hattempt H.workspace.graph.reachable
      refine ⟨hoptions.trans H.options, ?_⟩
      rw [hworkspace]
      exact ⟨H.workspace.names, H.workspace.queries, H.workspace.primary, H.workspace.attributes,
        H.workspace.graph.renews hrenews⟩

/-- Calls that concern only the query are undone with it. -/
theorem Erases.runAll (H : p'.Erases q name p) (hq : ¬p'.workspace.graph.Mentions q)
    {calls : List Call} (hcalls : ∀ c ∈ calls, c.Concerns p'.workspace.queries q) :
    p'.Erases q name (p.runAll calls) := by
  induction calls generalizing p with
  | nil => exact H
  | cons c rest ih =>
      obtain ⟨hc, hrest⟩ := List.forall_mem_cons.1 hcalls
      exact ih (H.perform hq hc) hrest

/-- An id that is handed out was free: nothing was kept for it. -/
theorem erases_addQuery (hp : p.workspace.Tidy)
    (hgraph : p.workspace.graph.Reachable)
    (hadd : (p.perform (.addQuery name)).1 = .added (.ok q)) :
    p.workspace.queries.lookup name = none ∧ ¬p.workspace.graph.Mentions q ∧
      p.Erases q name (p.perform (.addQuery name)).2 := by
  obtain ⟨queries, hqueries, hafter⟩ := eq_of_addQuery hadd
  obtain ⟨hname, -, -, hregistry⟩ := QueryRegistry.eq_of_add hqueries
  have hfree : ¬p.workspace.graph.Mentions q := fun hq =>
    hp.queries.not_mem_of_add hqueries (hp.graph.of_mentions hq)
  refine ⟨hname, hfree, ?_⟩
  rw [hafter]
  refine ⟨rfl, rfl, hp.queries.remove_of_add hqueries, ?_, rfl,
    PlanGraph.erases_self hgraph hfree⟩
  rw [hregistry]
  exact OrdMap.get?_insert_self ..

/-- The deletion leaves what was there before, but for what does not show. -/
theorem Erases.deleteQuery (H : p'.Erases q name p)
    (hn : p.workspace.queries.lookup n = some q) : Even (p.perform (.deleteQuery n)).2 p' := by
  obtain ⟨m, halike, hcapped⟩ := H.workspace.graph.alike
  have hdeleted : (p.perform (.deleteQuery n)).2 = { p with workspace := { p.workspace with
      graph := p.workspace.graph.deleteQuery q, queries := p.workspace.queries.remove q } } := by
    simp only [Planner.perform, Planner.deleteQuery, Workspace.deleteQuery, hn]
  rw [hdeleted]
  exact ⟨{ p' with workspace := { p'.workspace with graph := m } },
    ⟨H.options, H.workspace.names, H.workspace.queries, H.workspace.attributes, halike⟩,
    ⟨rfl, rfl, rfl, rfl, hcapped⟩⟩

/-- **Deleting a query erases it.**  Let a query be added to a plan, registered on waypoints
and given other names in any way, whether that succeeds or fails, with compile attempts in
between, and deleted under one of its names.  Then every call from there on is answered as
if the query had never been added; a compile gets another number at most. -/
theorem delete_erases (hp : p.Fresh) (before : List Call)
    (hadd : ((p.runAll before).perform (.addQuery name)).1 = .added (.ok q))
    {calls : List Call}
    (hcalls : ∀ c ∈ calls, c.Concerns (p.runAll before).workspace.queries q)
    (hn : n = name ∨ (p.runAll (before ++ .addQuery name :: calls)).workspace.queries.lookup n =
      some q)
    (after : List Call) (c : Call) :
    ((p.runAll (before ++ .addQuery name :: calls ++ .deleteQuery n :: after)).perform c).1.Alike
      ((p.runAll (before ++ after)).perform c).1 := by
  have htidy := tidy_runAll before hp.tidy
  have hgraph := (hp.alike.runAll (.refl before)).workspace.graph.left
  obtain ⟨hname, hfree, herases⟩ := erases_addQuery htidy hgraph hadd
  have happend (l l' : List Call) (p : Planner) : p.runAll (l ++ l') = (p.runAll l).runAll l' :=
    List.foldl_append
  have hlife : (p.runAll before).Erases q name (p.runAll (before ++ .addQuery name :: calls)) := by
    rw [happend]
    exact herases.runAll hfree hcalls
  have hlookup : (p.runAll (before ++ .addQuery name :: calls)).workspace.queries.lookup n =
      some q := by
    rcases hn with rfl | hn
    · exact hlife.workspace.lookup hname
    · exact hn
  rw [happend _ (.deleteQuery n :: after), happend before after]
  exact (((hlife.deleteQuery hlookup).runAll after).perform c).1

/-- A query that is given another name, registered under both of them, once on a waypoint of
the wrong kind, and compiled. -/
def trial : List Call :=
  [.addAlias "p" ⟨0⟩ QuerySet.zero_mem_ids, .register (.scanner "scan" ["p"]),
    .register (.print "out" "q" ["a"] none), .register (.print "scan" "q" ["a"] none), .compile]

/-- A scan that was printed for a query is printed for the next of that name as if it were the
first. -/
theorem delete_erases_scan :
    ∃ p s t, p = Planner.new .standard (.ofNames ["a"]) ∧
      ((p.runAll (scanAndPrint.take 3)).perform (.addQuery "q")).1 = .added (.ok ⟨0⟩) ∧
      ((p.runAll (scanAndPrint.take 3 ++ .addQuery "q" :: trial ++
        .deleteQuery "q" :: .addQuery "q" :: scanAndPrint.drop 3)).perform
          .compile).1.published? = some s ∧
      ((p.runAll (scanAndPrint.take 3 ++ .addQuery "q" :: scanAndPrint.drop 3)).perform
        .compile).1.published? = some t ∧
      s.cycle = 2 ∧ t.cycle = 1 ∧
      s.routing = t.routing ∧ s.configs = t.configs ∧ s.queries = t.queries := by
  obtain ⟨p, hp⟩ : ∃ p, p = Planner.new .standard (.ofNames ["a"]) := ⟨_, rfl⟩
  have hadd : ((p.runAll (scanAndPrint.take 3)).perform (.addQuery "q")).1 =
      .added (.ok ⟨0⟩) := by
    rw [hp]
    decide +kernel
  have hfree : ∀ n ∈ ["p", "q"],
      (p.runAll (scanAndPrint.take 3)).workspace.queries.lookup n = none := by
    rw [hp]
    decide +kernel
  obtain ⟨hfreeAlias, hfreeName⟩ := List.forall_mem_cons.1 hfree
  have htrial : ∀ c ∈ trial,
      c.Concerns (p.runAll (scanAndPrint.take 3)).workspace.queries ⟨0⟩ := by
    rw [trial]
    simp only [List.forall_mem_cons]
    exact ⟨.addAlias _ _, .register (List.forall_mem_singleton.2 hfreeAlias), .register hfreeName,
      .register hfreeName, .attempt rfl, fun _ h => absurd h List.not_mem_nil⟩
  have hagain : ((p.runAll (scanAndPrint.take 3 ++ .addQuery "q" :: trial ++
      .deleteQuery "q" :: .addQuery "q" :: scanAndPrint.drop 3)).perform
        .compile).1.published?.map (·.cycle) = some 2 := by
    rw [hp]
    decide +kernel
  have hfirst : ((p.runAll (scanAndPrint.take 3 ++ .addQuery "q" :: scanAndPrint.drop 3)).perform
      .compile).1.published?.map (·.cycle) = some 1 := by
    rw [hp]
    decide +kernel
  obtain ⟨s, hs, htwo⟩ := Option.map_eq_some_iff.1 hagain
  obtain ⟨t, ht, hone⟩ := Option.map_eq_some_iff.1 hfirst
  have hfresh : p.Fresh := hp ▸ .new .standard (.ofNames ["a"])
  have hreplies := delete_erases hfresh _ hadd htrial (.inl rfl)
    (.addQuery "q" :: scanAndPrint.drop 3) .compile
  exact ⟨p, s, t, hp, hadd, hs, ht, htwo, hone, hreplies.of_published? hs ht⟩

end Planner

end SharedPlan
