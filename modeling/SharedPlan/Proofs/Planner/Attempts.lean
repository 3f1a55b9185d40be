import SharedPlan.Planner
import SharedPlan.Proofs.Planner.Alike

/-!
# SharedPlan.Proofs.Planner.Attempts

Compile attempts leave no trace on later ones.

A planner is driven by a sequence of calls (`Planner.Call`), some of which are compile
attempts.  `Planner.Padded` relates sequences of which the second has further attempts
in between.  After the two of them planners are alike (`Alike.runAll`), as an attempt leaves
a plan on which the next cycle begins as before; so whatever is called next is answered
alike.  The snapshot is at any moment the one that the last successful attempt published.
The two together are `attempts_leave_no_trace`.
-/

namespace SharedPlan

namespace Planner

open Attempt (Respects)

/-! ## Calls -/

/-- What can be asked of a planner.  An id that is handed in is one of the universe: the word of
active queries has no bit for another. -/
inductive Call where
  | create (spec : WaypointSpec)
  | connect (sender receiver : String) (kind : EdgeKind)
  | register (r : Registration)
  | returnAsState (waypoint query : String)
  | apply (d : PlanDocument)
  | addQuery (name : String)
  | addAlias (name : String) (q : QueryId) (h : q ∈ QuerySet.ids)
  | deleteQuery (name : String)
  | clearQueries
  | compile
  | tryCompile (inFlight : Bool)

/-- What a planner answers. -/
inductive Reply where
  | done (r : Except PlanError Unit)
  | created (r : Except PlanError WaypointId)
  | added (r : Except PlanError QueryId)
  | deleted (found : Bool)
  | compiled (r : Except PlanError Snapshot)
  deriving DecidableEq

/-- Whether a call is an attempt to compile. -/
def Call.isAttempt : Call → Bool
  | compile | tryCompile _ => true
  | _ => false

/-- Take a step, and answer its outcome in some form. -/
def answer {α : Type} (form : Except PlanError α → Reply) (step : Attempt Planner α) (p : Planner) :
    Reply × Planner :=
  (form (step.outcome p).1, (step.outcome p).2)

/-- What a planner does when it is called. -/
def perform (p : Planner) : Call → Reply × Planner
  | .create spec => answer .created (build (Workspace.create spec)) p
  | .connect sender receiver kind => answer .done (build (Workspace.connect sender receiver kind)) p
  | .register r => answer .done (build (Workspace.register r)) p
  | .returnAsState waypoint query => answer .done (build (Workspace.returnAsState waypoint query)) p
  | .apply d => answer .done (build (Workspace.apply d)) p
  | .addQuery name => answer .added (build (Workspace.addQuery name)) p
  | .addAlias name q _ => answer .done (build (Workspace.addAlias name q)) p
  | .deleteQuery name => (.deleted (p.deleteQuery name).1, (p.deleteQuery name).2)
  | .clearQueries => (.done (.ok ()), p.clearQueries)
  | .compile => answer .compiled Planner.compile p
  | .tryCompile inFlight => answer .compiled (Planner.tryCompile inFlight) p

/-- The planner after a sequence of calls. -/
def runAll (calls : List Call) (p : Planner) : Planner :=
  calls.foldl (fun p c => (p.perform c).2) p

/-- The snapshot that a reply publishes. -/
def Reply.published? : Reply → Option Snapshot
  | .compiled (.ok s) => some s
  | _ => none

/-- The snapshots that a sequence of calls publishes, in order. -/
def published : List Call → Planner → List Snapshot
  | [], _ => []
  | c :: rest, p => (p.perform c).1.published?.toList ++ published rest (p.perform c).2

/-- Replies are alike when they are equal, but for the numbers of the cycles that were
published. -/
inductive Reply.Alike : Reply → Reply → Prop
  | same (r : Reply) : Alike r r
  | published {s t : Snapshot} :
      s.routing = t.routing → s.configs = t.configs → s.queries = t.queries →
        Alike (.compiled (.ok s)) (.compiled (.ok t))

theorem Reply.eq_of_published? {r : Reply} {s : Snapshot} (h : r.published? = some s) :
    r = .compiled (.ok s) := by
  unfold published? at h
  split at h
  · rw [Option.some.inj h]
  · cases h

/-- Alike replies that publish, publish the same. -/
theorem Reply.Alike.of_published? {r r' : Reply} (h : r.Alike r') {s t : Snapshot}
    (hs : r.published? = some s) (ht : r'.published? = some t) :
    s.routing = t.routing ∧ s.configs = t.configs ∧ s.queries = t.queries := by
  obtain rfl := eq_of_published? hs
  obtain rfl := eq_of_published? ht
  cases h with
  | same => exact ⟨rfl, rfl, rfl⟩
  | published hrouting hconfigs hqueries => exact ⟨hrouting, hconfigs, hqueries⟩

/-- The second sequence is the first with further compile attempts in between. -/
inductive Padded : List Call → List Call → Prop
  | nil : Padded [] []
  | call (c : Call) {calls calls' : List Call} :
      Padded calls calls' → Padded (c :: calls) (c :: calls')
  | attempt {c : Call} {calls calls' : List Call} :
      c.isAttempt = true → Padded calls calls' → Padded calls (c :: calls')

theorem Padded.refl (calls : List Call) : Padded calls calls := by
  induction calls with
  | nil => exact .nil
  | cons c rest ih => exact .call c ih

/-- The planners that a program begins with. -/
inductive Fresh : Planner → Prop
  | new (options : PlannerOptions) (attributes : Attributes) : Fresh (.new options attributes)
  | document {options : PlannerOptions} {d : PlanDocument} {p : Planner} :
      ofDocument options d = .ok p → Fresh p

/-! ## Alike planners -/

/-- Planners with the same settings and registries, whose graphs are related. -/
structure Over (G : PlanGraph → PlanGraph → Prop) (p p' : Planner) : Prop where
  options : p.options = p'.options
  workspace : p.workspace.Over G p'.workspace

/-- Planners with the same settings whose plans are alike. -/
abbrev Alike : Planner → Planner → Prop := Over PlanGraph.Alike

variable {p p' : Planner} {G : PlanGraph → PlanGraph → Prop}

theorem Over.build (h : Over G p p') {α : Type} {step : Attempt Workspace α}
    (hstep : Respects (Workspace.Over G) step) (form : Except PlanError α → Reply) :
    (answer form (build step) p).1 = (answer form (build step) p').1 ∧
      Over G (answer form (build step) p).2 (answer form (build step) p').2 := by
  obtain ⟨hr, hafter⟩ := hstep p.workspace p'.workspace h.workspace
  simp only [answer, Planner.build, Attempt.outcome_within, hr]
  exact ⟨trivial, h.options, hafter⟩

/-- A call that is not an attempt is answered the same on related graphs, and leaves related
graphs. -/
theorem Over.perform (hG : PlanGraph.Respected G) (h : Over G p p') {c : Call}
    (hc : c.isAttempt = false) :
    (p.perform c).1 = (p'.perform c).1 ∧ Over G (p.perform c).2 (p'.perform c).2 := by
  cases c with
  | create spec => exact h.build (Workspace.respects_create hG spec) .created
  | connect sender receiver kind =>
      exact h.build (Workspace.respects_connect hG sender receiver kind) .done
  | register r => exact h.build (Workspace.respects_register hG r) .done
  | returnAsState waypoint query =>
      exact h.build (Workspace.respects_returnAsState hG waypoint query) .done
  | apply d => exact h.build (Workspace.respects_apply hG d) .done
  | addQuery name => exact h.build (Workspace.respects_addQuery name) .added
  | addAlias name q _ => exact h.build (Workspace.respects_addAlias name q) .done
  | deleteQuery name =>
      obtain ⟨hfound, hafter⟩ := h.workspace.deleteQuery hG name
      exact ⟨congrArg Reply.deleted hfound, h.options, hafter⟩
  | clearQueries => exact ⟨rfl, h.options, h.workspace.clearQueries hG⟩
  | compile | tryCompile => cases hc

/-! ## Attempts -/

theorem analyzeAndRoute_outcome (active : QuerySet) (options : PlannerOptions) (g : PlanGraph) :
    (analyzeAndRoute active options).outcome g =
      match (PlanGraph.analyze active options).outcome g with
      | (.ok _, h) => (h.routing, h)
      | (.error e, h) => (.error e, h) := by
  rw [analyzeAndRoute, Attempt.outcome_bind]
  cases (PlanGraph.analyze active options).outcome g with
  | mk r h => cases r <;> rfl

/-- On graphs that begin a cycle alike the outcome is the same, and so is the graph that is
left if it is a success. -/
theorem analyzeAndRoute_congr {g h : PlanGraph} (hgh : g.beginCycle = h.beginCycle)
    (active : QuerySet) (options : PlannerOptions) :
    (∃ o, (analyzeAndRoute active options).outcome g = o ∧
      (analyzeAndRoute active options).outcome h = o) ∨
    ∃ e g' h', (analyzeAndRoute active options).outcome g = (.error e, g') ∧
      (analyzeAndRoute active options).outcome h = (.error e, h') := by
  obtain ⟨hsame, hok⟩ := PlanGraph.analyze_congr hgh active options
  rw [analyzeAndRoute_outcome, analyzeAndRoute_outcome]
  cases hg : (PlanGraph.analyze active options).outcome g with
  | mk r g' =>
      rw [hg] at hsame hok
      cases r with
      | error e =>
          cases hh : (PlanGraph.analyze active options).outcome h with
          | mk r' h' =>
              rw [hh] at hsame
              obtain rfl : .error e = r' := hsame
              exact .inr ⟨e, g', h', rfl, rfl⟩
      | ok report =>
          rw [← hok report rfl]
          exact .inl ⟨_, rfl, rfl⟩

theorem renews_analyzeAndRoute {g : PlanGraph} (hg : g.Reachable) (active : QuerySet)
    (options : PlannerOptions) :
    PlanGraph.Renews g ((analyzeAndRoute active options).outcome g).2 := by
  have hrenews := PlanGraph.renews_analyze hg active options
  rw [analyzeAndRoute_outcome]
  cases hr : (PlanGraph.analyze active options).outcome g with
  | mk r h =>
      rw [hr] at hrenews
      cases r <;> exact hrenews

/-- A cycle, taken apart: it fails and leaves the graph that it got to, or publishes what it
compiled. -/
theorem compile_outcome (p : Planner) :
    compile.outcome p =
      match (analyzeAndRoute p.workspace.queries.active p.options).outcome p.workspace.graph with
      | (.error e, graph) => (.error e, { p with workspace := { p.workspace with graph } })
      | (.ok routing, graph) =>
        let snapshot :=
          ⟨p.cycle + 1, routing, graph.waypoints.map (·.config), p.workspace.queries.active⟩
        (.ok snapshot,
          { p with workspace := { p.workspace with graph }, cycle := p.cycle + 1, snapshot }) := by
  rw [compile, Attempt.outcome_ofOutcome]
  dsimp only
  cases (analyzeAndRoute p.workspace.queries.active p.options).outcome p.workspace.graph with
  | mk r graph => cases r <;> rfl

/-- An attempt runs a cycle, or is turned down and does nothing. -/
theorem perform_attempt {c : Call} (hc : c.isAttempt = true) :
    (∀ p : Planner, p.perform c = answer .compiled compile p) ∨
      ∀ p : Planner, p.perform c = (.compiled (.error .compileInFlight), p) := by
  cases c with
  | compile => exact .inl fun _ => rfl
  | tryCompile inFlight =>
      cases inFlight with
      | true => exact .inr fun _ => rfl
      | false => exact .inl fun _ => rfl
  | _ => cases hc

/-- An attempt changes nothing but the graph of the plan, on which the next cycle begins as
before. -/
theorem exists_renews_perform {c : Call} (hc : c.isAttempt = true)
    (hp : p.workspace.graph.Reachable) :
    ∃ graph, p.workspace.graph.Renews graph ∧ (p.perform c).2.options = p.options ∧
      (p.perform c).2.workspace = { p.workspace with graph } := by
  rcases perform_attempt hc with hperform | hperform
  · refine ⟨_, renews_analyzeAndRoute hp p.workspace.queries.active p.options, ?_⟩
    rw [hperform, answer, compile_outcome]
    cases (analyzeAndRoute p.workspace.queries.active p.options).outcome p.workspace.graph with
    | mk r graph => cases r <;> exact ⟨rfl, rfl⟩
  · rw [hperform]
    exact ⟨p.workspace.graph, .refl hp, rfl, rfl⟩

/-- An attempt on one of two planners leaves them alike. -/
theorem Alike.attempt_right (h : Alike p p') {c : Call} (hc : c.isAttempt = true) :
    Alike p (p'.perform c).2 := by
  obtain ⟨graph, hrenews, hoptions, hworkspace⟩ :=
    exists_renews_perform hc h.workspace.graph.right
  refine ⟨h.options.trans hoptions.symm, ?_⟩
  rw [hworkspace]
  exact ⟨h.workspace.names, h.workspace.queries, h.workspace.attributes,
    PlanGraph.Renews.alike h.workspace.graph (.refl h.workspace.graph.left) hrenews⟩

theorem Alike.symm (h : Alike p p') : Alike p' p :=
  ⟨h.options.symm, h.workspace.names.symm, h.workspace.queries.symm, h.workspace.attributes.symm,
    h.workspace.graph.right, h.workspace.graph.left, h.workspace.graph.beginCycle.symm⟩

/-- Alike planners publish the same, but for the numbers of the cycles, or fail with the same
error. -/
theorem Alike.reply_compile (h : Alike p p') :
    (Reply.compiled (compile.outcome p).1).Alike (.compiled (compile.outcome p').1) := by
  rw [compile_outcome, compile_outcome, h.options, h.workspace.queries]
  rcases analyzeAndRoute_congr h.workspace.graph.beginCycle p'.workspace.queries.active p'.options
    with ⟨⟨r, graph⟩, hg, hh⟩ | ⟨e, g', h', hg, hh⟩
  · rw [hg, hh]
    cases r with
    | error e => exact .same _
    | ok routing => exact .published rfl rfl rfl
  · rw [hg, hh]
    exact .same _

/-! ## Sequences of calls -/

/-- **Alike planners answer alike** and stay alike, whatever they are called for. -/
theorem Alike.perform (h : Alike p p') (c : Call) :
    (p.perform c).1.Alike (p'.perform c).1 ∧ Alike (p.perform c).2 (p'.perform c).2 := by
  cases hc : c.isAttempt with
  | false =>
      obtain ⟨hreply, hafter⟩ := Over.perform PlanGraph.respected_alike h hc
      exact ⟨hreply ▸ .same _, hafter⟩
  | true =>
      refine ⟨?_, ((h.symm.attempt_right hc).symm).attempt_right hc⟩
      rcases perform_attempt hc with hperform | hperform <;> rw [hperform, hperform]
      · exact h.reply_compile
      · exact .same _

/-- Further attempts in between leave planners alike. -/
theorem Alike.runAll {calls calls' : List Call} (hpad : Padded calls calls') (h : Alike p p') :
    Alike (p.runAll calls) (p'.runAll calls') := by
  induction hpad generalizing p p' with
  | nil => exact h
  | call c _ ih => exact ih (h.perform c).2
  | attempt hc _ ih => exact ih (h.attempt_right hc)

theorem outcome_of_ofDocument {options : PlannerOptions} {d : PlanDocument}
    (h : ofDocument options d = .ok p) :
    (build (Workspace.apply d)).outcome (.new options d.attributeRegistry) = (.ok (), p) := by
  unfold ofDocument at h
  split at h
  · rename_i p' ho
    rw [ho, Except.ok.inj h]
  · cases h

theorem Fresh.alike (hp : p.Fresh) : Alike p p := by
  have hnew (options : PlannerOptions) (attributes : Attributes) :
      Alike (.new options attributes) (.new options attributes) :=
    ⟨rfl, rfl, rfl, rfl, .empty, .empty, rfl⟩
  cases hp with
  | new options attributes => exact hnew options attributes
  | @document options d _ h =>
      have hbuilt := (hnew options d.attributeRegistry).build
        (Workspace.respects_apply PlanGraph.respected_alike d) .done
      rw [answer, outcome_of_ofDocument h] at hbuilt
      exact hbuilt.2

/-! ## What is published -/

/-- A call publishes a snapshot under the next number, or leaves the snapshot and the number
alone. -/
theorem published_perform (p : Planner) (c : Call) :
    (∃ s, (p.perform c).1.published? = some s ∧ (p.perform c).2.snapshot = s ∧
      s.cycle = p.cycle + 1 ∧ (p.perform c).2.cycle = p.cycle + 1) ∨
    (p.perform c).1.published? = none ∧ (p.perform c).2.snapshot = p.snapshot ∧
      (p.perform c).2.cycle = p.cycle := by
  have hbuild {α : Type} (form : Except PlanError α → Reply) (step : Attempt Workspace α)
      (hform : ∀ r, (form r).published? = none) :
      (answer form (build step) p).1.published? = none ∧
        (answer form (build step) p).2.snapshot = p.snapshot ∧
        (answer form (build step) p).2.cycle = p.cycle :=
    ⟨hform _, rfl, rfl⟩
  have hcompile : (∃ s, (p.perform .compile).1.published? = some s ∧
        (p.perform .compile).2.snapshot = s ∧ s.cycle = p.cycle + 1 ∧
        (p.perform .compile).2.cycle = p.cycle + 1) ∨
      (p.perform .compile).1.published? = none ∧ (p.perform .compile).2.snapshot = p.snapshot ∧
        (p.perform .compile).2.cycle = p.cycle := by
    simp only [perform, answer, compile_outcome]
    cases (analyzeAndRoute p.workspace.queries.active p.options).outcome p.workspace.graph with
    | mk r graph =>
        cases r with
        | error e => exact .inr ⟨rfl, rfl, rfl⟩
        | ok routing => exact .inl ⟨_, rfl, rfl, rfl, rfl⟩
  cases c with
  | create | connect | register | returnAsState | apply | addQuery | addAlias =>
      exact .inr (hbuild _ _ fun _ => rfl)
  | deleteQuery name =>
      refine .inr ⟨rfl, ?_, ?_⟩ <;> rfl
  | clearQueries => exact .inr ⟨rfl, rfl, rfl⟩
  | compile => exact hcompile
  | tryCompile inFlight =>
      cases inFlight with
      | true => exact .inr ⟨rfl, rfl, rfl⟩
      | false => exact hcompile

/-- The snapshot is the one published last, if any was, and the counter counts those that were
published. -/
theorem snapshot_runAll (calls : List Call) (p : Planner) :
    (p.runAll calls).snapshot = (published calls p).getLast?.getD p.snapshot ∧
      (p.runAll calls).cycle = p.cycle + (published calls p).length.toUInt64 := by
  induction calls generalizing p with
  | nil => exact ⟨rfl, (UInt64.add_zero p.cycle).symm⟩
  | cons c rest ih =>
      obtain ⟨hsnapshot, hcycle⟩ := ih (p.perform c).2
      have hrun : p.runAll (c :: rest) = (p.perform c).2.runAll rest := rfl
      rw [hrun, hsnapshot, hcycle, published]
      rcases published_perform p c with ⟨s, hs, hafter, -, hnumber⟩ | ⟨hnone, hafter, hnumber⟩
      · rw [hs, hafter, hnumber, Option.toList_some, List.singleton_append, List.getLast?_cons,
          List.length_cons]
        have hsucc : ((published rest (p.perform c).2).length + 1).toUInt64 =
            (published rest (p.perform c).2).length.toUInt64 + 1 := UInt64.ofNat_add _ _
        exact ⟨rfl, by grind⟩
      · rw [hnone, hafter, hnumber, Option.toList_none, List.nil_append]
        exact ⟨rfl, rfl⟩

/-- The snapshot carries the number that the counter stands at. -/
theorem cycle_snapshot_runAll (calls : List Call) (h : p.snapshot.cycle = p.cycle) :
    (p.runAll calls).snapshot.cycle = (p.runAll calls).cycle := by
  induction calls generalizing p with
  | nil => exact h
  | cons c rest ih =>
      refine ih ?_
      rcases published_perform p c with ⟨s, -, rfl, hs, hnumber⟩ | ⟨-, hafter, hnumber⟩
      · rw [hs, hnumber]
      · rw [hafter, hnumber, h]

theorem Fresh.initial (hp : p.Fresh) : p.snapshot = .initial ∧ p.cycle = 0 := by
  cases hp with
  | new options attributes => exact ⟨rfl, rfl⟩
  | @document options d _ h =>
      have hafter := congrArg Prod.snd (outcome_of_ofDocument h)
      rw [build, Attempt.outcome_within] at hafter
      exact ⟨(congrArg Planner.snapshot hafter).symm, (congrArg Planner.cycle hafter).symm⟩

/-- **Compile attempts leave no trace on later ones.**  Further attempts between the calls of a
sequence, whether they succeed or fail, do not change how any later call is answered: a
compile fails with the same error, or publishes the same routing, records and queries.
At any moment the snapshot is the one that the last successful attempt published and
carries the number of successful attempts so far, in a word, which holds `2 ^ 64` of them;
one that fails changes neither. -/
theorem attempts_leave_no_trace (hp : p.Fresh) :
    (∀ calls calls', Padded calls calls' → ∀ c,
      ((p.runAll calls).perform c).1.Alike ((p.runAll calls').perform c).1) ∧
    ∀ calls,
      (p.runAll calls).snapshot = (published calls p).getLast?.getD .initial ∧
      (p.runAll calls).snapshot.cycle = (published calls p).length.toUInt64 ∧
      ((published calls p).length < UInt64.size →
        (p.runAll calls).snapshot.cycle.toNat = (published calls p).length) ∧
      ∀ c e, c.isAttempt = true → ((p.runAll calls).perform c).1 = .compiled (.error e) →
        ((p.runAll calls).perform c).2.snapshot = (p.runAll calls).snapshot ∧
          ((p.runAll calls).perform c).2.cycle = (p.runAll calls).cycle := by
  obtain ⟨hsnapshot, hcycle⟩ := hp.initial
  refine ⟨fun calls calls' hpad c => ((hp.alike.runAll hpad).perform c).1, fun calls => ?_⟩
  obtain ⟨hlast, hcount⟩ := snapshot_runAll calls p
  have hnumber : (p.runAll calls).snapshot.cycle = (p.runAll calls).cycle :=
    cycle_snapshot_runAll calls (by rw [hsnapshot, hcycle]; rfl)
  have hword : (p.runAll calls).snapshot.cycle = (published calls p).length.toUInt64 := by
    rw [hnumber, hcount, hcycle, UInt64.zero_add]
  refine ⟨hlast.trans (by rw [hsnapshot]), hword, fun hlt => ?_, fun c e _ hfail => ?_⟩
  · rw [hword]
    exact Nat.mod_eq_of_lt hlt
  · rcases published_perform (p.runAll calls) c with ⟨s, hs, -⟩ | ⟨-, hafter⟩
    · rw [hfail] at hs
      cases hs
    · exact hafter

/-- A scan that is printed for a query. -/
def scanAndPrint : List Call :=
  [.create (.scanner "scan" "t" ["a"]), .create (.print "out"), .connect "scan" "out" .flowThrough,
    .register (.scanner "scan" ["q"]), .register (.print "out" "q" ["a"] none)]

/-- A compile that fails while the query has no root, and one that succeeds when it has one, do not
change what the next publishes, but for its number. -/
theorem attempts_leave_no_trace_scan :
    ∃ p s t, p = Planner.new .standard (.ofNames ["a"]) ∧
      ((p.runAll [.addQuery "q"]).perform .compile).1 = .compiled (.error (.missingRoot ⟨0⟩)) ∧
      ((p.runAll [.addQuery "q"]).perform .compile).2.snapshot = .initial ∧
      (p.runAll (.addQuery "q" :: .compile :: scanAndPrint ++ [.compile])).snapshot.cycle.toNat =
        1 ∧
      ((p.runAll (.addQuery "q" :: scanAndPrint)).perform .compile).1.published? = some s ∧
      ((p.runAll (.addQuery "q" :: .compile :: scanAndPrint ++ [.compile])).perform
        .compile).1.published? = some t ∧
      s.cycle = 1 ∧ t.cycle = 2 ∧
      s.routing = t.routing ∧ s.configs = t.configs ∧ s.queries = t.queries := by
  have hpad : Padded (.addQuery "q" :: scanAndPrint)
      (.addQuery "q" :: .compile :: scanAndPrint ++ [.compile]) :=
    .call _ (.attempt rfl (.call _ (.call _ (.call _ (.call _ (.call _ (.attempt rfl .nil)))))))
  -- under a name of its own the planner is not run but where a fact about it is decided
  obtain ⟨p, hp⟩ : ∃ p, p = Planner.new .standard (.ofNames ["a"]) := ⟨_, rfl⟩
  have hfail : ((p.runAll [.addQuery "q"]).perform .compile).1 =
      .compiled (.error (.missingRoot ⟨0⟩)) := by
    rw [hp]
    decide +kernel
  have hnone : published [.addQuery "q"] p = [] := by
    rw [hp]
    decide +kernel
  have hone : (published (.addQuery "q" :: .compile :: scanAndPrint ++ [.compile]) p).length =
      1 := by
    rw [hp]
    decide +kernel
  have hfirst : ((p.runAll (.addQuery "q" :: scanAndPrint)).perform
      .compile).1.published?.map (·.cycle) = some 1 := by
    rw [hp]
    decide +kernel
  have hthird : ((p.runAll (.addQuery "q" :: .compile :: scanAndPrint ++ [.compile])).perform
      .compile).1.published?.map (·.cycle) = some 2 := by
    rw [hp]
    decide +kernel
  obtain ⟨s, hs, hsnumber⟩ := Option.map_eq_some_iff.1 hfirst
  obtain ⟨t, ht, htnumber⟩ := Option.map_eq_some_iff.1 hthird
  have hfresh : p.Fresh := hp ▸ .new .standard (.ofNames ["a"])
  obtain ⟨hreplies, hsnapshots⟩ := attempts_leave_no_trace hfresh
  obtain ⟨hlast, -, -, hkeeps⟩ := hsnapshots [.addQuery "q"]
  rw [hnone] at hlast
  obtain ⟨-, -, hnumber, -⟩ :=
    hsnapshots (.addQuery "q" :: .compile :: scanAndPrint ++ [.compile])
  rw [hone] at hnumber
  exact ⟨p, s, t, hp, hfail, (hkeeps _ _ rfl hfail).1.trans hlast, hnumber (by decide), hs, ht,
    hsnumber, htnumber, (hreplies _ _ hpad .compile).of_published? hs ht⟩

end Planner

end SharedPlan
