import SharedPlan.Analysis.Demand
import SharedPlan.Proofs.Analysis.Supplied

/-!
# SharedPlan.Proofs.Analysis.Walked

The demand walk of one query: what a step does, and on what it depends.

`Walk.Runs` is the walk as a relation, one visit after another until none is left;
`run_eq_ok_iff` says that the bounded walk succeeds exactly when there is such a run
that is short enough.  A walk leaves alone whatever answering leaves alone
(`Runs.view_eq`), and so what belongs to other queries (`Runs.only_eq`).
-/

namespace SharedPlan

namespace Walk

variable {q : QueryId}

/-! ## Crossing an edge -/

/-- The walk once a waypoint has answered over an edge. -/
def crossed (q : QueryId) (a : Arrival) (needed : SlotSet) (e : Edge) (w : Waypoint) (s : Walk) :
    Walk :=
  let v := w.answered e.kind q needed ⟨q, exitOver a e.kind⟩
  { s with
    graph := s.graph.replace v
    stack :=
      if v.holdsExit e.kind ⟨q, exitOver a e.kind⟩ && !e.sender.isSentinel then
        ⟨⟨e.sender, exitOver a e.kind⟩, w.below e.kind q needed⟩ :: s.stack
      else s.stack }

theorem cross_eq_ok_iff {a : Arrival} {needed : SlotSet} {e : Edge} {s t : Walk} :
    cross q a needed e s = .ok t ↔
      ∃ w, s.graph.find? a.waypoint = some w ∧ w.Grants e.kind q needed ∧
        s.crossed q a needed e w = t := by
  cases hw : s.graph.find? a.waypoint with
  | none =>
      simp [cross, PlanGraph.waypoint_of_find?_eq_none hw, bind, Except.bind]
  | some w =>
      simp only [cross, PlanGraph.waypoint_eq_ok_iff.2 hw, bind, Except.bind, Waypoint.ask_eq,
        Option.some.injEq, exists_eq_left', crossed]
      by_cases hg : w.Grants e.kind q needed
      · simp [hg, pure, Except.pure]
      · simp [hg]

theorem find?_crossed {s : Walk} {a : Arrival} {needed : SlotSet} {e : Edge} {w : Waypoint}
    (hw : s.graph.find? a.waypoint = some w) (id : WaypointId) :
    (s.crossed q a needed e w).graph.find? id =
      if id = a.waypoint then some (w.answered e.kind q needed ⟨q, exitOver a e.kind⟩)
      else s.graph.find? id := by
  show (s.graph.replace _).find? id = _
  rw [PlanGraph.find?_replace, Waypoint.id_answered, PlanGraph.id_of_find? hw]
  by_cases h : id = a.waypoint
  · rw [if_pos h, if_pos h, h, hw, Option.map_some]
  · rw [if_neg h, if_neg h]

/-- What every crossing keeps, with one edge less to cross, holds at the end. -/
theorem crossAll_induction {a : Arrival} {needed : SlotSet} {P : List Edge → Walk → Prop}
    (hstep : ∀ {e rest s w}, P (e :: rest) s → s.graph.find? a.waypoint = some w →
      w.Grants e.kind q needed → P rest (s.crossed q a needed e w))
    {l : List Edge} {s t : Walk} (h : crossAll q a needed l s = (.ok (), t)) (hs : P l s) :
    P [] t := by
  induction l generalizing s with
  | nil => exact (Prod.mk.inj h).2 ▸ hs
  | cons e rest ih =>
      rw [crossAll] at h
      cases hc : cross q a needed e s with
      | error e => simp [hc] at h
      | ok s' =>
          obtain ⟨w, hw, hg, rfl⟩ := cross_eq_ok_iff.1 hc
          rw [hc] at h
          exact ih h (hstep hs hw hg)

/-! ## Visits -/

/-- The walk once a demand at an arrival is written down. -/
def entering (a : Arrival) (needed : SlotSet) (s : Walk) : Walk :=
  { s with asked := s.asked.insert a needed, entered := s.entered.insert a.waypoint }

/-- A visit either stays where it is, as nothing new is asked of a waypoint that
takes part, or crosses every input edge of the waypoint. -/
theorem visit_eq_ok_iff {v : Visit} {s t : Walk} :
    visit q v s = (.ok (), t) ↔
      ∃ w, s.graph.find? v.arrival.waypoint = some w ∧
        ((w.covers q = false ∨ s.demandAt v = none) ∧ s = t ∨
          w.covers q = true ∧ ∃ needed, s.demandAt v = some needed ∧
            crossAll q v.arrival needed (s.graph.inputs v.arrival.waypoint)
              (s.entering v.arrival needed) = (.ok (), t)) := by
  cases hw : s.graph.find? v.arrival.waypoint with
  | none =>
      simp [visit, PlanGraph.waypoint_of_find?_eq_none hw]
  | some w =>
      simp only [visit, PlanGraph.waypoint_eq_ok_iff.2 hw, Option.some.injEq, exists_eq_left']
      cases hc : w.covers q with
      | false => simp
      | true =>
          cases hd : s.demandAt v with
          | none => simp
          | some needed => simp [entering]

/-- What every crossing of a visit keeps, its demand being written down, holds once all of
its edges are crossed. -/
theorem crossAll_entering_induction {a : Arrival} {needed : SlotSet} {edges : List Edge}
    {s t : Walk} {P : List Edge → Walk → Prop}
    (h : crossAll q a needed edges (s.entering a needed) = (.ok (), t))
    (hs : P edges (s.entering a needed))
    (hstep : ∀ {e rest u w}, e ∈ edges → u.asked.get? a = some needed → P (e :: rest) u →
      u.graph.find? a.waypoint = some w → w.Grants e.kind q needed →
        P rest (u.crossed q a needed e w)) : P [] t := by
  have hfinal := crossAll_induction
    (P := fun l u => l ⊆ edges ∧ u.asked.get? a = some needed ∧ P l u)
    (fun hu hw hg => ⟨fun x hx => hu.1 (List.mem_cons_of_mem _ hx), hu.2.1,
      hstep (hu.1 List.mem_cons_self) hu.2.1 hu.2.2 hw hg⟩)
    h ⟨fun _ hx => hx, OrdMap.get?_insert_self .., hs⟩
  exact hfinal.2.2

/-! ## The walk as a relation -/

/-- Visits from one state to another in which none is left. -/
inductive Runs (q : QueryId) : Nat → Walk → Walk → Prop
  | done {s : Walk} : s.stack = [] → Runs q 0 s s
  | step {n : Nat} {s t u : Walk} {v : Visit} {rest : List Visit} :
      s.stack = v :: rest → visit q v { s with stack := rest } = (.ok (), t) → Runs q n t u →
        Runs q (n + 1) s u

theorem run_nil {s : Walk} (h : s.stack = []) (limit remaining : Nat) :
    run q limit remaining s = (.ok ⟨limit - remaining, s.entered⟩, s.graph) := by
  cases remaining <;> rw [run.eq_def] <;> simp only [h]

theorem run_zero {s : Walk} {v : Visit} {rest : List Visit} (h : s.stack = v :: rest)
    (limit : Nat) : run q limit 0 s = (.error (.walkLimit q limit), s.graph) := by
  rw [run.eq_def]
  simp only [h]

theorem run_succ {s : Walk} {v : Visit} {rest : List Visit} (h : s.stack = v :: rest)
    (limit remaining : Nat) :
    run q limit (remaining + 1) s =
      match visit q v { s with stack := rest } with
      | (.ok (), s) => run q limit remaining s
      | (.error e, s) => (.error e, s.graph) := by
  have hrun := run.eq_def q limit (remaining + 1) s
  simp only [h] at hrun
  exact hrun

/-- A run within the bound is what the walk does. -/
theorem Runs.run_eq {n : Nat} {s u : Walk} (h : Runs q n s u) {limit remaining : Nat}
    (hn : n ≤ remaining) :
    run q limit remaining s = (.ok ⟨limit - (remaining - n), u.entered⟩, u.graph) := by
  induction h generalizing remaining with
  | done hs => exact run_nil hs limit remaining
  | step hs hv _ ih =>
      cases remaining with
      | zero => omega
      | succ remaining =>
          rw [run_succ hs, hv]
          simp only
          rw [ih (by omega), Nat.add_sub_add_right]

/-- A walk that succeeds is a run within the bound. -/
theorem runs_of_run {limit remaining : Nat} {s : Walk} {r : WalkReport} {h : PlanGraph}
    (hr : run q limit remaining s = (.ok r, h)) :
    ∃ n u, Runs q n s u ∧ n ≤ remaining ∧ r = ⟨limit - (remaining - n), u.entered⟩ ∧
      h = u.graph := by
  induction remaining generalizing s with
  | zero =>
      cases hs : s.stack with
      | nil =>
          obtain ⟨hok, rfl⟩ := Prod.mk.inj ((run_nil hs ..).symm.trans hr)
          exact ⟨0, s, .done hs, Nat.le_refl 0, (Except.ok.inj hok).symm, rfl⟩
      | cons v rest =>
          rw [run_zero hs] at hr
          cases hr
  | succ remaining ih =>
      cases hs : s.stack with
      | nil =>
          obtain ⟨hok, rfl⟩ := Prod.mk.inj ((run_nil hs ..).symm.trans hr)
          exact ⟨0, s, .done hs, Nat.zero_le _, (Except.ok.inj hok).symm, rfl⟩
      | cons v rest =>
          rw [run_succ hs] at hr
          cases hv : visit q v { s with stack := rest } with
          | mk o t =>
              rw [hv] at hr
              cases o with
              | error e => cases hr
              | ok x =>
                  obtain ⟨n, u, hrun, hn, rfl, rfl⟩ := ih hr
                  refine ⟨n + 1, u, .step hs hv hrun, by omega, ?_, rfl⟩
                  rw [Nat.add_sub_add_right]

/-- **The bounded walk** succeeds exactly when a run within the bound does. -/
theorem run_eq_ok_iff {limit remaining : Nat} {s : Walk} {r : WalkReport} {h : PlanGraph} :
    run q limit remaining s = (.ok r, h) ↔
      ∃ n u, Runs q n s u ∧ n ≤ remaining ∧ r = ⟨limit - (remaining - n), u.entered⟩ ∧
        h = u.graph := by
  refine ⟨runs_of_run, ?_⟩
  rintro ⟨n, u, hrun, hn, rfl, rfl⟩
  exact hrun.run_eq hn

/-! ## What a walk keeps -/

/-- What every answer keeps holds of every waypoint after a walk. -/
theorem Runs.forall_find? {P : Waypoint → Prop}
    (hP : ∀ {w kind needed x}, P w → w.Grants kind q needed →
      P (w.answered kind q needed ⟨q, x⟩))
    {n : Nat} {s u : Walk} (h : Runs q n s u) (hs : ∀ {id w}, s.graph.find? id = some w → P w)
    {id : WaypointId} {w : Waypoint} (hw : u.graph.find? id = some w) : P w := by
  induction h with
  | done _ => exact hs hw
  | step _ hv _ ih =>
      refine ih (fun {id w} hw => ?_) hw
      obtain ⟨_, -, ⟨-, rfl⟩ | ⟨-, needed, -, hc⟩⟩ := visit_eq_ok_iff.1 hv
      · exact hs hw
      · refine crossAll_induction (P := fun _ t => ∀ {id w}, t.graph.find? id = some w → P w)
          ?_ hc hs hw
        intro e rest t v ht hv hg id w hw
        rw [find?_crossed hv] at hw
        split at hw
        · obtain rfl := Option.some.inj hw
          exact hP (ht hv) hg
        · exact ht hw

/-! ## What a walk leaves alone -/

section View

variable {f : Waypoint → Waypoint} (hid : ∀ w, (f w).id = w.id)
  (hf : ∀ w kind needed x, f (w.answered kind q needed ⟨q, x⟩) = f w)

include hf

theorem view_crossed {a : Arrival} {needed : SlotSet} {e : Edge} {s : Walk} {w : Waypoint}
    (hs : s.graph.ids.Nodup) (hw : s.graph.find? a.waypoint = some w) :
    (s.crossed q a needed e w).graph.mapWaypoints f = s.graph.mapWaypoints f := by
  refine PlanGraph.mapWaypoints_replace_eq hs ?_ (hf ..)
  rw [Waypoint.id_answered, PlanGraph.id_of_find? hw, hw]

include hid

theorem view_visit {v : Visit} {s t : Walk} (hs : s.graph.ids.Nodup)
    (h : visit q v s = (.ok (), t)) : t.graph.mapWaypoints f = s.graph.mapWaypoints f := by
  obtain ⟨w, -, ⟨-, rfl⟩ | ⟨-, needed, -, hc⟩⟩ := visit_eq_ok_iff.1 h
  · rfl
  · refine crossAll_induction
      (P := fun _ u => u.graph.mapWaypoints f = s.graph.mapWaypoints f) ?_ hc rfl
    intro e rest u w hu hw _
    have hids := PlanGraph.ids_eq_of_view hid hu
    exact (view_crossed hf (hids ▸ hs) hw).trans hu

/-- What answering does not change, a whole walk does not change. -/
theorem Runs.view_eq {n : Nat} {s u : Walk} (h : Runs q n s u) (hs : s.graph.ids.Nodup) :
    u.graph.mapWaypoints f = s.graph.mapWaypoints f := by
  induction h with
  | done _ => rfl
  | step _ hv _ ih =>
      have hvisit := view_visit hid hf (by exact hs) hv
      have hids := PlanGraph.ids_eq_of_view hid hvisit
      exact (ih (hids ▸ hs)).trans hvisit

end View

/-- A walk leaves the waypoints as if they had never been asked. -/
theorem Runs.unasked_eq {n : Nat} {s u : Walk} (h : Runs q n s u) (hs : s.graph.ids.Nodup) :
    u.graph.mapWaypoints Waypoint.unasked = s.graph.mapWaypoints Waypoint.unasked :=
  h.view_eq Waypoint.id_unasked (fun _ _ _ _ => Waypoint.unasked_answered ..) hs

/-- A walk changes nothing that belongs to another query. -/
theorem Runs.only_eq {n : Nat} {s u : Walk} {r : QueryId} (h : Runs q n s u)
    (hs : s.graph.ids.Nodup) (hr : q ≠ r) : u.graph.only r = s.graph.only r :=
  h.view_eq (Waypoint.id_only r) (fun _ _ _ _ => Waypoint.only_answered_of_ne hr ..) hs

end Walk

end SharedPlan
