import Mathlib.Logic.Relation
import SharedPlan.Proofs.Analysis.Lockstep

/-!
# SharedPlan.Proofs.Analysis.Spread

What all demands of a walk have in common, and how a walk fails.

A property of demands that accumulating and passing on keep (`Walk.Spreads`) holds of
everything that a walk ever asks (`Walk.Within`), if it holds of what the walk starts
with.  A walk that fails within its bound has therefore put a demand with that property
to a waypoint that is not in the graph or that refuses it (`Walk.Within.run_error`).
-/

namespace SharedPlan

namespace Walk

variable {q : QueryId}

/-! ## One visit after another -/

/-- The next visit is walked and succeeds. -/
def Next (q : QueryId) (s t : Walk) : Prop :=
  ∃ v rest, s.stack = v :: rest ∧ visit q v { s with stack := rest } = (.ok (), t)

/-- A walk in one state comes to another. -/
def Goes (q : QueryId) : Walk → Walk → Prop := Relation.ReflTransGen (Next q)

theorem Runs.goes {n : Nat} {s u : Walk} (h : Runs q n s u) : Goes q s u := by
  induction h with
  | done _ => exact .refl
  | step hs hv _ ih => exact ih.head ⟨_, _, hs, hv⟩

/-- A walk that comes to an end comes there from every state on its way. -/
theorem Runs.of_goes {n : Nat} {s t u : Walk} (h : Runs q n s u) (hst : Goes q s t) :
    ∃ m, Runs q m t u := by
  induction hst using Relation.ReflTransGen.head_induction_on generalizing n with
  | refl => exact ⟨n, h⟩
  | head hnext _ ih =>
      obtain ⟨v, rest, hs, hv⟩ := hnext
      cases h with
      | done hempty =>
          rw [hs] at hempty
          cases hempty
      | step hs' hv' hrun =>
          obtain ⟨rfl, rfl⟩ := List.cons.inj (hs.symm.trans hs')
          obtain rfl := (Prod.mk.inj (hv.symm.trans hv')).2
          exact ih hrun

/-! ## Failing steps -/

/-- Why a demand at an arrival cannot be passed on: the waypoint is not there, or it takes
part and refuses the demand over one of its input edges. -/
inductive Refuses (g : PlanGraph) (q : QueryId) (a : Arrival) (S : SlotSet) : PlanError → Prop
  | unknown : g.find? a.waypoint = none → Refuses g q a S (.unknownId a.waypoint)
  | refused {w : Waypoint} {e : Edge} :
      g.find? a.waypoint = some w → w.covers q = true → e ∈ g.inputs a.waypoint →
        ¬w.Grants e.kind q S →
        Refuses g q a S (.demandNotSatisfied w.name q (S \ (w.flow q).produced))

theorem cross_eq_error {a : Arrival} {needed : SlotSet} {e : Edge} {s : Walk} {err : PlanError}
    (h : cross q a needed e s = .error err) :
    (s.graph.find? a.waypoint = none ∧ err = .unknownId a.waypoint) ∨
      ∃ w, s.graph.find? a.waypoint = some w ∧ ¬w.Grants e.kind q needed ∧
        err = .demandNotSatisfied w.name q (needed \ (w.flow q).produced) := by
  cases hw : s.graph.find? a.waypoint with
  | none =>
      simp only [cross, PlanGraph.waypoint_of_find?_eq_none hw, bind, Except.bind,
        Except.error.injEq] at h
      exact .inl ⟨rfl, h.symm⟩
  | some w =>
      simp only [cross, PlanGraph.waypoint_eq_ok_iff.2 hw, bind, Except.bind, Waypoint.ask_eq] at h
      by_cases hg : w.Grants e.kind q needed
      · simp [hg, pure, Except.pure] at h
      · simp only [hg, if_false, Except.error.injEq] at h
        exact .inr ⟨w, rfl, hg, h.symm⟩

/-- Crossing edges fails at the first edge over which it fails. -/
theorem crossAll_eq_error {a : Arrival} {needed : SlotSet} {l : List Edge} {s t : Walk}
    {err : PlanError} (h : crossAll q a needed l s = (.error err, t)) :
    ∃ before e after, l = before ++ e :: after ∧
      crossAll q a needed before s = (.ok (), t) ∧ cross q a needed e t = .error err := by
  induction l generalizing s with
  | nil => cases h
  | cons e rest ih =>
      rw [crossAll] at h
      cases hc : cross q a needed e s with
      | error err' =>
          rw [hc] at h
          obtain ⟨herr, rfl⟩ := Prod.mk.inj h
          obtain rfl := Except.error.inj herr
          exact ⟨[], e, rest, rfl, rfl, hc⟩
      | ok u =>
          rw [hc] at h
          obtain ⟨before, e', after, rfl, hbefore, hfail⟩ := ih h
          refine ⟨e :: before, e', after, rfl, ?_, hfail⟩
          rw [crossAll, hc]
          exact hbefore

theorem visit_eq_error {v : Visit} {s t : Walk} {err : PlanError}
    (h : visit q v s = (.error err, t)) :
    (s.graph.find? v.arrival.waypoint = none ∧ err = .unknownId v.arrival.waypoint) ∨
      ∃ w needed, s.graph.find? v.arrival.waypoint = some w ∧ w.covers q = true ∧
        s.demandAt v = some needed ∧
        crossAll q v.arrival needed (s.graph.inputs v.arrival.waypoint)
          (s.entering v.arrival needed) = (.error err, t) := by
  cases hw : s.graph.find? v.arrival.waypoint with
  | none =>
      simp only [visit, PlanGraph.waypoint_of_find?_eq_none hw, Prod.mk.injEq,
        Except.error.injEq] at h
      exact .inl ⟨rfl, h.1.symm⟩
  | some w =>
      simp only [visit, PlanGraph.waypoint_eq_ok_iff.2 hw] at h
      cases hc : w.covers q with
      | false => simp [hc] at h
      | true =>
          cases hd : s.demandAt v with
          | none => simp [hc, hd] at h
          | some needed =>
              simp only [hc, hd, if_true] at h
              exact .inr ⟨w, needed, rfl, hc, rfl, h⟩

/-- A walk fails at its bound, or at a visit that it comes to. -/
theorem run_eq_error {limit remaining : Nat} {s : Walk} {err : PlanError} {k : PlanGraph}
    (h : run q limit remaining s = (.error err, k)) :
    err = .walkLimit q limit ∨ ∃ t v rest u, Goes q s t ∧ t.stack = v :: rest ∧
      visit q v { t with stack := rest } = (.error err, u) := by
  induction remaining generalizing s with
  | zero =>
      cases hs : s.stack with
      | nil =>
          rw [run_nil hs] at h
          cases h
      | cons v rest =>
          rw [run_zero hs] at h
          exact .inl (Except.error.inj (Prod.mk.inj h).1).symm
  | succ remaining ih =>
      cases hs : s.stack with
      | nil =>
          rw [run_nil hs] at h
          cases h
      | cons v rest =>
          rw [run_succ hs] at h
          cases hv : visit q v { s with stack := rest } with
          | mk r u =>
              rw [hv] at h
              cases r with
              | error err' =>
                  obtain rfl := Except.error.inj (Prod.mk.inj h).1
                  exact .inr ⟨s, v, rest, u, .refl, hs, hv⟩
              | ok _ =>
                  refine (ih h).imp_right ?_
                  rintro ⟨t, v', rest', u', hgoes, hfail⟩
                  exact ⟨t, v', rest', u', hgoes.head ⟨v, rest, hs, hv⟩, hfail⟩

/-- A demand that a walk has refused is one of its own query. -/
theorem query_of_demandNotSatisfied {limit remaining : Nat} {s : Walk} {name : String}
    {r : QueryId} {missing : SlotSet} {k : PlanGraph}
    (h : run q limit remaining s = (.error (.demandNotSatisfied name r missing), k)) : r = q := by
  obtain hlimit | ⟨t, v, rest, u, -, -, hv⟩ := run_eq_error h
  · cases hlimit
  obtain ⟨-, hunknown⟩ | ⟨w, needed, -, -, -, hcross⟩ := visit_eq_error hv
  · cases hunknown
  obtain ⟨_, _, _, -, -, hfail⟩ := crossAll_eq_error hcross
  obtain ⟨-, hunknown⟩ | ⟨w, -, -, hrefused⟩ := cross_eq_error hfail
  · cases hunknown
  · cases hrefused
    rfl

/-! ## What all demands have in common -/

/-- A property of demands that goes on to what is asked below: demands at one arrival may
be put together, and a waypoint that grants a demand hands on a demand alike. -/
structure Spreads (g : PlanGraph) (q : QueryId) (P : Arrival → SlotSet → Prop) : Prop where
  union : ∀ {a S T}, P a S → P a T → P a (S ∪ T)
  below : ∀ {a S w e}, P a S → g.find? a.waypoint = some w → w.covers q = true →
    e ∈ g.inputs a.waypoint → w.Grants e.kind q S → w.carries e.kind q = true →
    e.sender.isSentinel = false →
    P ⟨e.sender, exitOver a e.kind⟩ (w.below e.kind q S)

/-- All that a walk from a graph has asked and is still to ask has a property. -/
structure Within (g : PlanGraph) (q : QueryId) (P : Arrival → SlotSet → Prop) (s : Walk) :
    Prop where
  /-- Nothing but answers has changed. -/
  graph : s.graph.mapWaypoints Waypoint.unasked = g.mapWaypoints Waypoint.unasked
  /-- Exits are held where the query is carried on over an edge. -/
  exits : ∀ {n w k x}, s.graph.find? n = some w → w.holdsExit k ⟨q, x⟩ = true →
    w.carries k q = true ∧ ∃ e ∈ g.inputs n, e.kind = k
  stacked : ∀ {v}, v ∈ s.stack → P v.arrival v.needed
  asked : ∀ {a S}, s.asked.get? a = some S → P a S

variable {g : PlanGraph} {P : Arrival → SlotSet → Prop} {s : Walk}

/-- Before the first step, on a graph that has recorded no exit of the query. -/
theorem Within.start {k : PlanGraph} {root : WaypointId}
    (hview : k.mapWaypoints Waypoint.unasked = g.mapWaypoints Waypoint.unasked)
    (hquiet : ∀ {n w kind x}, k.find? n = some w → w.holdsExit kind ⟨q, x⟩ = false)
    (hroot : P ⟨root, root⟩ ∅) : Within g q P (Walk.start k root) where
  graph := hview
  exits hw hx := by
    rw [hquiet hw] at hx
    cases hx
  stacked hv := by
    obtain rfl := List.mem_singleton.1 hv
    exact hroot
  asked ha := by cases ha

namespace Within

/-- The waypoint that a walk finds answers as the one it started from. -/
theorem find? (h : Within g q P s) {n : WaypointId} {w : Waypoint}
    (hw : s.graph.find? n = some w) : ∃ w₀, g.find? n = some w₀ ∧ w₀.unasked = w.unasked :=
  PlanGraph.exists_find?_of_view Waypoint.id_unasked h.graph hw

theorem find?_eq_none (h : Within g q P s) {n : WaypointId} (hn : s.graph.find? n = none) :
    g.find? n = none := by
  have hview := PlanGraph.find?_map_eq_of_view Waypoint.id_unasked h.graph n
  rw [hn, Option.map_none] at hview
  exact Option.map_eq_none_iff.1 hview.symm

theorem inputs (h : Within g q P s) : s.graph.inputs = g.inputs :=
  PlanGraph.inputs_congr (PlanGraph.ids_eq_of_view Waypoint.id_unasked h.graph)
    (PlanGraph.links_eq_of_view h.graph)

/-- The waypoint holds the exit afterwards exactly when it carries the query on. -/
theorem holdsExit_answered (h : Within g q P s) {n : WaypointId} {w : Waypoint}
    (hw : s.graph.find? n = some w) (kind : EdgeKind) (needed : SlotSet) (x : WaypointId) :
    (w.answered kind q needed ⟨q, x⟩).holdsExit kind ⟨q, x⟩ = w.carries kind q := by
  rw [Bool.eq_iff_iff, Waypoint.holdsExit_answered]
  refine ⟨fun hx => hx.elim (fun hold => (h.exits hw hold).1) fun hnew => hnew.1, fun hc => ?_⟩
  exact .inr ⟨hc, rfl, rfl⟩

theorem stack_crossed (h : Within g q P s) {a : Arrival} {needed : SlotSet} {e : Edge}
    {w : Waypoint} (hw : s.graph.find? a.waypoint = some w) :
    (s.crossed q a needed e w).stack =
      if w.carries e.kind q && !e.sender.isSentinel then
        ⟨⟨e.sender, exitOver a e.kind⟩, w.below e.kind q needed⟩ :: s.stack
      else s.stack := by
  simp only [crossed, h.holdsExit_answered hw]

/-- Crossing an edge with a demand hands on a demand alike. -/
theorem crossed (hn : g.ids.Nodup) (hP : Spreads g q P) (h : Within g q P s) {a : Arrival}
    {needed : SlotSet} {e : Edge} {w : Waypoint} (hw : s.graph.find? a.waypoint = some w)
    (ha : P a needed) (hc : w.covers q = true) (he : e ∈ g.inputs a.waypoint)
    (hg : w.Grants e.kind q needed) : Within g q P (s.crossed q a needed e w) where
  graph := by
    have hids : s.graph.ids.Nodup := PlanGraph.ids_eq_of_view Waypoint.id_unasked h.graph ▸ hn
    exact (view_crossed (fun _ _ _ _ => Waypoint.unasked_answered ..) hids hw).trans h.graph
  exits {n v k x} hv hx := by
    rw [find?_crossed hw] at hv
    split at hv
    · rename_i hn
      obtain rfl := Option.some.inj hv
      rw [Waypoint.carries_answered, hn]
      rcases (Waypoint.holdsExit_answered ..).1 hx with hold | ⟨hcarries, rfl, -⟩
      · exact h.exits hw hold
      · exact ⟨hcarries, e, he, rfl⟩
    · exact h.exits hv hx
  stacked {v} hv := by
    rw [h.stack_crossed hw] at hv
    split at hv
    · rename_i hpush
      rcases List.mem_cons.1 hv with rfl | hv
      · obtain ⟨hcarries, hproper⟩ := Bool.and_eq_true_iff.1 hpush
        obtain ⟨w₀, hw₀, hview⟩ := h.find? hw
        rw [← Waypoint.covers_eq_of_unasked hview] at hc
        rw [← Waypoint.carries_eq_of_unasked hview] at hcarries
        rw [← Waypoint.grants_iff_of_unasked hview] at hg
        rw [← Waypoint.below_eq_of_unasked hview]
        exact hP.below ha hw₀ hc he hg hcarries (by simpa using hproper)
      · exact h.stacked hv
    · exact h.stacked hv
  asked ha := h.asked ha

/-- What is asked altogether has the property that each demand has. -/
theorem demandAt (hP : Spreads g q P) (h : Within g q P s) {v : Visit} (hv : P v.arrival v.needed)
    {needed : SlotSet} (hd : s.demandAt v = some needed) : P v.arrival needed := by
  obtain ⟨-, rfl⟩ | ⟨seen, hseen, -, rfl⟩ := eq_of_demandAt hd
  · exact hv
  · exact hP.union (h.asked hseen) hv

theorem entering (h : Within g q P s) {a : Arrival} {needed : SlotSet} (ha : P a needed) :
    Within g q P (s.entering a needed) where
  graph := h.graph
  exits := h.exits
  stacked := h.stacked
  asked {b S} hb := by
    rw [Walk.entering, OrdMap.get?_insert] at hb
    split at hb
    · rename_i hba
      obtain rfl := Option.some.inj hb
      exact hba ▸ ha
    · exact h.asked hb

theorem crossAll (hn : g.ids.Nodup) (hP : Spreads g q P) {a : Arrival} {needed : SlotSet}
    (ha : P a needed) {w : Waypoint} (hw : g.find? a.waypoint = some w) (hc : w.covers q = true)
    {l : List Edge} (hl : ∀ e ∈ l, e ∈ g.inputs a.waypoint) {t : Walk} (h : Within g q P s)
    (hcross : Walk.crossAll q a needed l s = (.ok (), t)) : Within g q P t := by
  have hfinal := crossAll_induction
    (P := fun l u => (∀ e ∈ l, e ∈ g.inputs a.waypoint) ∧ Within g q P u)
    (fun {e rest u v} hu hv hg => by
      obtain ⟨hedges, hu⟩ := hu
      obtain ⟨w₀, hw₀, hview⟩ := hu.find? hv
      obtain rfl := Option.some.inj (hw.symm.trans hw₀)
      have hcovers : v.covers q = true := by
        rw [← Waypoint.covers_eq_of_unasked hview, hc]
      exact ⟨fun x hx => hedges x (List.mem_cons_of_mem _ hx),
        hu.crossed hn hP hv ha hcovers (hedges e List.mem_cons_self) hg⟩)
    hcross ⟨hl, h⟩
  exact hfinal.2

theorem pop (h : Within g q P s) {v : Visit} {rest : List Visit} (hs : s.stack = v :: rest) :
    P v.arrival v.needed ∧ Within g q P { s with stack := rest } :=
  ⟨h.stacked (hs ▸ List.mem_cons_self),
    ⟨h.graph, h.exits, fun hx => h.stacked (hs ▸ List.mem_cons_of_mem _ hx), h.asked⟩⟩

/-- A visit asks for nothing that has not the property. -/
theorem next (hn : g.ids.Nodup) (hP : Spreads g q P) {t : Walk} (h : Within g q P s)
    (hst : Next q s t) : Within g q P t := by
  obtain ⟨v, rest, hs, hv⟩ := hst
  obtain ⟨hneeded, hpop⟩ := h.pop hs
  obtain ⟨w, hw, ⟨-, rfl⟩ | ⟨hc, needed, hd, hcross⟩⟩ := visit_eq_ok_iff.1 hv
  · exact hpop
  · obtain ⟨w₀, hw₀, hview⟩ := h.find? hw
    have hcovers : w₀.covers q = true := by
      rw [Waypoint.covers_eq_of_unasked hview, hc]
    have hP' := hpop.demandAt hP hneeded hd
    refine (hpop.entering hP').crossAll hn hP hP' hw₀ hcovers (fun e he => ?_) hcross
    rwa [← hpop.inputs]

/-- **Everything that a walk asks has the property** that its first demand has. -/
theorem goes (hn : g.ids.Nodup) (hP : Spreads g q P) {t : Walk} (h : Within g q P s)
    (hst : Goes q s t) : Within g q P t := by
  induction hst with
  | refl => exact h
  | tail _ hnext ih => exact ih.next hn hP hnext

/-- A visit fails because a demand with the property cannot be passed on. -/
theorem visit_error (hn : g.ids.Nodup) (hP : Spreads g q P) (h : Within g q P s) {v : Visit}
    {rest : List Visit} (hs : s.stack = v :: rest) {err : PlanError} {t : Walk}
    (hv : visit q v { s with stack := rest } = (.error err, t)) :
    ∃ S, P v.arrival S ∧ Refuses g q v.arrival S err := by
  obtain ⟨hneeded, hpop⟩ := h.pop hs
  obtain ⟨hnone, rfl⟩ | ⟨w, needed, hw, hc, hd, hcross⟩ := visit_eq_error hv
  · exact ⟨v.needed, hneeded, .unknown (h.find?_eq_none hnone)⟩
  · obtain ⟨before, e, after, hl, hbefore, hfail⟩ := crossAll_eq_error hcross
    obtain ⟨w₀, hw₀, hview⟩ := h.find? hw
    have hcovers : w₀.covers q = true := by
      rw [Waypoint.covers_eq_of_unasked hview, hc]
    have hP' := hpop.demandAt hP hneeded hd
    have hl' : g.inputs v.arrival.waypoint = before ++ e :: after := by
      rw [← hpop.inputs]
      exact hl
    have ht : Within g q P t := by
      refine (hpop.entering hP').crossAll hn hP hP' hw₀ hcovers (fun e' he' => ?_) hbefore
      rw [hl']
      exact List.mem_append_left _ he'
    refine ⟨needed, hP', ?_⟩
    obtain ⟨hnone, -⟩ | ⟨u, hu, hg, rfl⟩ := cross_eq_error hfail
    · rw [ht.find?_eq_none hnone] at hw₀
      cases hw₀
    · obtain ⟨u₀, hu₀, hview'⟩ := ht.find? hu
      obtain rfl := Option.some.inj (hw₀.symm.trans hu₀)
      rw [← Waypoint.grants_iff_of_unasked hview'] at hg
      rw [← Waypoint.name_eq_of_unasked hview', ← Waypoint.produced_eq_of_unasked hview']
      refine .refused hw₀ hcovers ?_ hg
      rw [hl']
      exact List.mem_append_right _ List.mem_cons_self

/-- **A walk that fails within its bound** has come to a demand with the property that
cannot be passed on. -/
theorem run_error (hn : g.ids.Nodup) (hP : Spreads g q P) (h : Within g q P s)
    {limit remaining : Nat} {err : PlanError} {k : PlanGraph}
    (hr : run q limit remaining s = (.error err, k)) :
    err = .walkLimit q limit ∨ ∃ a S, P a S ∧ Refuses g q a S err := by
  refine (run_eq_error hr).imp_right ?_
  rintro ⟨t, v, rest, u, hgoes, hs, hv⟩
  obtain ⟨S, hS, hrefused⟩ := (h.goes hn hP hgoes).visit_error hn hP hs hv
  exact ⟨v.arrival, S, hS, hrefused⟩

end Within

end Walk

end SharedPlan
