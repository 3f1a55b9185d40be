import SharedPlan.Proofs.Analysis.Alone
import SharedPlan.Proofs.Analysis.Renewed

/-!
# SharedPlan.Proofs.Analysis.Failing

The errors with which the passes of an analysis fail.

A result `FailsOnly` with errors of a kind.  What kinds of errors a pass fails with follows
from what it calls; the bottom-up pass and the audit are taken apart here for any kind
(`failsOnly_supplyPass`, `failsOnly_audit`).  Besides the errors that are their own they
fail where a waypoint is not found, which whoever uses these lemmas allows or excludes.
-/

namespace SharedPlan

/-- If a result is a failure, its error is of a kind. -/
def FailsOnly {α : Type} (E : PlanError → Prop) (r : Except PlanError α) : Prop :=
  ∀ e, r = .error e → E e

variable {E : PlanError → Prop}

section Except

variable {α β : Type}

theorem failsOnly_ok (x : α) : FailsOnly E (.ok x : Except PlanError α) := by
  intro e h
  cases h

/-- An error of the kind may be raised. -/
theorem failsOnly_error {e : PlanError} (he : E e) :
    FailsOnly E (.error e : Except PlanError α) := by
  intro e' h
  cases h
  exact he

/-- Two computations in a row fail only as either of them does. -/
theorem FailsOnly.bind {r : Except PlanError α} {f : α → Except PlanError β} (hr : FailsOnly E r)
    (hf : ∀ x, FailsOnly E (f x)) : FailsOnly E (r >>= f) := by
  cases r with
  | error e => exact failsOnly_error (hr e rfl)
  | ok x => exact hf x

/-- So do checks over a list. -/
theorem failsOnly_forM {l : List α} {f : α → Except PlanError Unit}
    (h : ∀ x ∈ l, FailsOnly E (f x)) : FailsOnly E (l.forM f) := by
  induction l with
  | nil => exact failsOnly_ok ()
  | cons x rest ih =>
      have hx := h x List.mem_cons_self
      exact hx.bind fun _ => ih fun y hy => h y (List.mem_cons_of_mem x hy)

theorem failsOnly_mapM {l : List α} {f : α → Except PlanError β}
    (h : ∀ x ∈ l, FailsOnly E (f x)) : FailsOnly E (l.mapM f) := by
  induction l with
  | nil => exact failsOnly_ok []
  | cons x rest ih =>
      have hx := h x List.mem_cons_self
      have hrest := ih fun y hy => h y (List.mem_cons_of_mem x hy)
      rw [List.mapM_cons]
      exact hx.bind fun _ => hrest.bind fun _ => failsOnly_ok _

end Except

namespace Attempt

variable {σ α β : Type} {P : σ → Prop}

/-- Steps in a row fail with the error of the first that fails. -/
theorem bind_eq_error_iff {a : Attempt σ α} {f : α → Attempt σ β} {s t : σ} {e : PlanError} :
    (a >>= f).outcome s = (.error e, t) ↔
      a.outcome s = (.error e, t) ∨
        ∃ x s', a.outcome s = (.ok x, s') ∧ (f x).outcome s' = (.error e, t) := by
  rw [outcome_bind]
  rcases a.outcome s with ⟨_ | x, s'⟩
  · simp
  · simp

/-- From states with a property a step fails only with errors of a kind, and the property
stays. -/
structure FailsOnly (E : PlanError → Prop) (P : σ → Prop) (a : Attempt σ α) : Prop where
  error : ∀ s, P s → SharedPlan.FailsOnly E (a.outcome s).1
  keeps : Keeps P a

theorem failsOnly_pure (x : α) : FailsOnly E P (pure x : Attempt σ α) :=
  ⟨fun _ _ => failsOnly_ok x, keeps_pure x⟩

theorem FailsOnly.bind {a : Attempt σ α} {f : α → Attempt σ β} (ha : FailsOnly E P a)
    (hf : ∀ x, FailsOnly E P (f x)) : FailsOnly E P (a >>= f) := by
  refine ⟨fun s hs e h => ?_, ha.keeps.bind fun x => (hf x).keeps⟩
  rcases bind_eq_error_iff.1 (Prod.ext h rfl) with h | ⟨x, s', ha', h⟩
  · exact ha.error s hs e (congrArg Prod.fst h)
  · have hs' : P s' := by
      have := ha.keeps s hs
      rwa [ha'] at this
    exact (hf x).error s' hs' e (congrArg Prod.fst h)

/-- A step that looks at the state knows the property of what it sees. -/
theorem failsOnly_get_bind {f : σ → Attempt σ β} (hf : ∀ s, P s → FailsOnly E P (f s)) :
    FailsOnly E P (get >>= f) := by
  refine ⟨fun s hs => ?_, fun s hs => ?_⟩ <;> rw [outcome_bind, outcome_get]
  · exact (hf s hs).error s hs
  · exact (hf s hs).keeps s hs

theorem failsOnly_forM {l : List α} {f : α → Attempt σ Unit} (h : ∀ x ∈ l, FailsOnly E P (f x)) :
    FailsOnly E P (l.forM f) := by
  induction l with
  | nil => exact failsOnly_pure ()
  | cons x rest ih =>
      have hx := h x List.mem_cons_self
      exact hx.bind fun _ => ih fun y hy => h y (List.mem_cons_of_mem x hy)

end Attempt

/-! ## Emitting -/

namespace Waypoint

variable {w : Waypoint} (hused : ∀ name q missing, E (.usedNotProduced name q missing))

include hused

/-- A check of what is used fails only with what is missing. -/
theorem failsOnly_checkUsed (q : QueryId) (required available : SlotSet) :
    FailsOnly E (w.checkUsed q required available) := by
  rw [checkUsed_eq]
  split
  · exact failsOnly_ok ()
  · exact failsOnly_error (hused ..)

/-- Emitting fails only by such a check. -/
theorem failsOnly_emission (q : QueryId) : FailsOnly E (w.emission q) := by
  have hcheck (required available : SlotSet) (s : SlotSet) :
      FailsOnly E (do w.checkUsed q required available; return s) :=
    (failsOnly_checkUsed hused q required available).bind fun _ => failsOnly_ok s
  cases hr : w.role with
  | scanner _ _ _ | textLoader _ _ | ingest _ _ | iterative _ =>
      simp only [emission, hr]
      exact failsOnly_ok _
  | aggregate _ | print _ | cluster _ _ =>
      simp only [emission, hr]
      exact hcheck _ _ _
  | selection _ | transform _ | cache _ | compact _ =>
      simp only [emission, hr]
      split
      · exact failsOnly_ok _
      · exact hcheck _ _ _
  | join _ _ _ =>
      simp only [emission, hr]
      split
      · exact failsOnly_ok _
      · exact (failsOnly_checkUsed hused q _ _).bind fun _ => hcheck _ _ _

/-- So does the check of what is written into a relation. -/
theorem failsOnly_checkWritten (q : QueryId) : FailsOnly E (w.checkWritten q) := by
  unfold checkWritten
  split
  · split
    · exact failsOnly_checkUsed hused q _ _
    · exact failsOnly_ok ()
  · exact failsOnly_ok ()

/-- So does emitting for a list of queries. -/
theorem failsOnly_emitEach (l : List QueryId) : FailsOnly E (w.emitEach l).2 := by
  induction l generalizing w with
  | nil => exact failsOnly_ok _
  | cons q rest ih =>
      have hq : FailsOnly E (w.emission q) := failsOnly_emission hused q
      rw [emitEach]
      cases he : w.emission q with
      | error e => exact failsOnly_error (hq e he)
      | ok slots => exact ih.bind fun m => failsOnly_ok (m.insert q slots)

/-- A waypoint refuses to emit only because something that it uses has not arrived. -/
theorem failsOnly_emit (active : QuerySet) : FailsOnly E (w.emit active).2 :=
  (failsOnly_emitEach hused _).bind fun _ =>
    (failsOnly_forM fun q _ => failsOnly_checkWritten hused q).bind fun _ => failsOnly_ok _

end Waypoint

namespace PlanGraph

open Attempt (Keeps)

variable {g : PlanGraph} {active : QuerySet} {options : PlannerOptions}

/-! ## The passes -/

/-- A look-up fails only for an unknown id. -/
theorem failsOnly_waypoint {id : WaypointId} (h : g.find? id = none → E (.unknownId id)) :
    FailsOnly E (g.waypoint id) := by
  rw [waypoint]
  cases hw : g.find? id with
  | none => exact failsOnly_error (h hw)
  | some w => exact failsOnly_ok w

/-- Ordering the waypoints fails only on a cycle. -/
theorem failsOnly_topologicalOrder (hcycle : ∀ name, E (.cycleDetected name)) :
    FailsOnly E g.topologicalOrder := by
  simp only [topologicalOrder]
  split
  · exact failsOnly_error (hcycle _)
  · exact failsOnly_ok _

/-- Looking the roots up fails only for a query without one. -/
theorem failsOnly_activeRoots (hroot : ∀ q, E (.missingRoot q)) :
    FailsOnly E (g.activeRoots active) := by
  refine failsOnly_mapM fun q _ => ?_
  rw [rootOf]
  cases g.root? q with
  | none => exact failsOnly_error (hroot q)
  | some root => exact failsOnly_ok _

/-- **The bottom-up pass** fails where something used has not arrived, or where a waypoint is
looked up that is not found: one of the order, or the receiver of an edge. -/
theorem failsOnly_supplyPass {P : PlanGraph → Prop} {K : WaypointId → Prop}
    (hemit : ∀ {s id w}, P s → s.find? id = some w → P (s.replace (w.emit active).1))
    (hreceive : ∀ {s id w kind m}, P s → s.find? id = some w → P (s.replace (w.receive kind m)))
    (hused : ∀ name q missing, E (.usedNotProduced name q missing))
    (hlookup : ∀ {s id}, P s → K id → s.find? id = none → E (.unknownId id))
    (hreceiver : ∀ {s id e}, P s → e ∈ s.outputs id → e.receiver.isSentinel = false → K e.receiver)
    {order : List WaypointId} (horder : ∀ id ∈ order, K id) :
    (supplyPass order active).FailsOnly E P := by
  have hemitAt {id : WaypointId} (hid : K id) : (emitAt id active).FailsOnly E P := by
    refine ⟨fun s hs => ?_, keeps_emitAt hemit id⟩
    have hfound := failsOnly_waypoint (hlookup hs hid)
    rw [emitAt, Attempt.outcome_ofOutcome]
    cases hw : s.waypoint id with
    | error e => exact failsOnly_error (hfound e hw)
    | ok w => exact w.failsOnly_emit hused active
  have hdeliver (m : QuerySlots) {e : Edge} (he : K e.receiver) :
      (deliver m e).FailsOnly E P := by
    refine ⟨fun s hs => ?_, keeps_deliver hreceive m e⟩
    have hfound := failsOnly_waypoint (hlookup hs he)
    rw [deliver, Attempt.outcome_update]
    cases hw : s.waypoint e.receiver with
    | error e => exact failsOnly_error (hfound e hw)
    | ok w => exact failsOnly_ok ()
  refine Attempt.failsOnly_forM fun id hid => (hemitAt (horder id hid)).bind fun m => ?_
  refine Attempt.failsOnly_get_bind fun s hs => Attempt.failsOnly_forM fun e he => ?_
  cases hproper : e.receiver.isSentinel with
  | true => exact Attempt.failsOnly_pure ()
  | false => exact hdeliver m (hreceiver hs he hproper)

/-- **The audit** fails where a waypoint that was entered holds no exit or is not found. -/
theorem failsOnly_audit (hexit : ∀ name q, E (.missingExit name q))
    {walks : List (QueryId × WalkReport)}
    (hlookup : ∀ r ∈ walks, ∀ id ∈ r.2.entered, g.find? id = none → E (.unknownId id)) :
    FailsOnly E (g.audit options walks) := by
  have hexits {r : QueryId × WalkReport} (hr : r ∈ walks) :
      FailsOnly E (g.checkExits r.1 r.2.entered) := by
    refine failsOnly_forM fun id hid => ?_
    refine (failsOnly_waypoint (hlookup r hr id hid)).bind fun w => ?_
    split
    · exact failsOnly_ok ()
    · exact failsOnly_error (hexit w.name r.1)
  refine (failsOnly_mapM fun r hr => ?_).bind fun strays => failsOnly_ok _
  cases options.verifyExits with
  | false => split <;> exact failsOnly_ok _
  | true => split <;> exact (hexits hr).bind fun _ => failsOnly_ok _

end PlanGraph

end SharedPlan
