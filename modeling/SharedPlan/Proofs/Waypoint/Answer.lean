import SharedPlan.Proofs.Waypoint.Only
import SharedPlan.Waypoint.Demand

/-!
# SharedPlan.Proofs.Waypoint.Answer

What a waypoint can do when it is asked.  `Waypoint.ask` is taken apart into four
functions, each one table over the roles:

* `guards` -- whether it compares the demand with what it emits;
* `carries` -- whether it passes the query on, and so records the exit;
* `below` -- what it needs in turn;
* `note` -- what its role writes down.

`ask_eq` puts them together.  All but the last two of the fields that a waypoint
keeps stay as they are when it answers, so none of the four changes in the course
of a walk.
-/

namespace SharedPlan

namespace Waypoint

/-! ## The four tables -/

/-- Whether a waypoint that is asked over edges of a kind compares the demand
with what it emits. -/
def guards (w : Waypoint) (kind : EdgeKind) (q : QueryId) : Bool :=
  match w.role, kind with
  | .scanner _ _ shares, .flowThrough => (shares.get q).reads
  | .scanner .., .terminating => false
  | .join .., .terminating => !(w.flow q).bypassed
  | .textLoader .., _ | .ingest .., _ => (w.flow q).covered
  | .print _, _ | .cluster .., _ => false
  | _, _ => true

/-- Whether a waypoint carries a query on over its input edges of a kind.  A
scanner does so for its readers over the one kind and for its writers over the
other; a join that a query bypasses has no right input for it. -/
def carries (w : Waypoint) (kind : EdgeKind) (q : QueryId) : Bool :=
  match w.role, kind with
  | .scanner _ _ shares, .flowThrough => (shares.get q).reads
  | .scanner _ _ shares, .terminating => (shares.get q).writes.isSome
  | .join .., .terminating => !(w.flow q).bypassed
  | _, _ => true

/-- What a waypoint needs over an input edge of a kind when it is asked for
some attributes. -/
def below (w : Waypoint) (kind : EdgeKind) (q : QueryId) (needed : SlotSet) : SlotSet :=
  let f := w.flow q
  match w.role, kind with
  | .scanner .., .flowThrough => ∅
  | .scanner _ _ shares, .terminating => (shares.get q).writes.getD ∅
  | .join columns _ _, .flowThrough => if f.bypassed then needed else columns ∪ (needed ∩ f.down)
  | .join _ _ shares, .terminating =>
    if f.bypassed then ∅
    else (shares.get q).rhs.getD ∅ ∪
      (if (shares.get q).joinKind.forwardsRight then needed ∩ (shares.get q).arrived else ∅)
  | .textLoader .., _ | .ingest .., _ | .iterative _, _ => ∅
  | .selection _, _ => if f.bypassed then needed else f.forward needed
  | .aggregate _, _ | .print _, _ | .cluster .., _ => f.used
  | .transform _, _ | .cache _, _ | .compact _, _ => f.forward needed

/-- What the role of a waypoint writes down when it carries a demand on. -/
def note (w : Waypoint) (kind : EdgeKind) (q : QueryId) (needed : SlotSet) : Waypoint :=
  let f := w.flow q
  match w.role, kind with
  | .scanner relation columns shares, .flowThrough =>
    { w with
      role := .scanner relation columns (shares.modify q fun s =>
        { s with
          projected := some ((shares.get q).projected.getD ∅ ∪ needed)
          dropped := some (f.used \ ((shares.get q).projected.getD ∅ ∪ needed)) }) }
  | .join columns keys shares, .flowThrough =>
    if f.bypassed then w
    else
      { w with
        role := .join columns keys (shares.modify q fun s =>
          { s with lhsCopy := mergeSlots s.lhsCopy (needed ∩ f.down) }) }
  | .join columns keys shares, .terminating =>
    if f.bypassed then w
    else
      { w with
        role := .join columns keys (shares.modify q fun s =>
          { s with
            rhsCopy := mergeSlots s.rhsCopy
              (if (shares.get q).joinKind.forwardsRight then needed ∩ (shares.get q).arrived
                else ∅) }) }
  | .transform shares, _ =>
    { w with
      role := .transform (shares.modify q fun s =>
        { s with passThrough := mergeSlots s.passThrough (needed \ f.synthesized) }) }
  | _, _ => w

/-- The waypoint once it has answered. -/
def answered (w : Waypoint) (kind : EdgeKind) (q : QueryId) (needed : SlotSet) (exit : QueryExit) :
    Waypoint :=
  if w.carries kind q then (w.note kind q needed).recordExit kind exit else w

/-- The demand is refused only where it is compared and goes beyond what is emitted. -/
def Grants (w : Waypoint) (kind : EdgeKind) (q : QueryId) (needed : SlotSet) : Prop :=
  w.guards kind q = true → needed ⊆ (w.flow q).produced

instance (w : Waypoint) (kind : EdgeKind) (q : QueryId) (needed : SlotSet) :
    Decidable (w.Grants kind q needed) :=
  inferInstanceAs (Decidable (_ → _))

/-! ## Asking -/

/-- A demand passes exactly when it is emitted; the error tells what is missing. -/
theorem checkDemand_eq (w : Waypoint) (q : QueryId) (needed : SlotSet) :
    w.checkDemand q needed =
      if needed ⊆ (w.flow q).produced then .ok ()
      else .error (.demandNotSatisfied w.name q (needed \ (w.flow q).produced)) := by
  have h : (needed \ (w.flow q).produced).isEmpty = true ↔ needed ⊆ (w.flow q).produced := by
    rw [OrdSet.isEmpty_iff, OrdSet.subset_def]
    refine forall_congr' fun a => ?_
    rw [OrdSet.mem_sdiff, not_and, Decidable.not_not]
  simp only [checkDemand, h]

/-- What comes behind the check of a demand is reached exactly when it passes. -/
theorem checkDemand_bind {α : Type} (w : Waypoint) (q : QueryId) (needed : SlotSet)
    (k : Except PlanError α) :
    (do w.checkDemand q needed; k) =
      if needed ⊆ (w.flow q).produced then k
      else .error (.demandNotSatisfied w.name q (needed \ (w.flow q).produced)) := by
  rw [checkDemand_eq]
  split <;> rfl

/-- **Asking, in one equation**: a demand that the waypoint grants is answered
with what it needs below, any other is refused. -/
theorem ask_eq (w : Waypoint) (kind : EdgeKind) (q : QueryId) (needed : SlotSet)
    (exit : QueryExit) :
    w.ask kind q needed exit =
      if w.Grants kind q needed then .ok (w.below kind q needed, w.answered kind q needed exit)
      else .error (.demandNotSatisfied w.name q (needed \ (w.flow q).produced)) := by
  cases hr : w.role with
  | scanner relation columns shares =>
      cases kind with
      | flowThrough =>
          by_cases h : (shares.get q).reads = true
          · simp only [ask, hr, askScan, h, checkDemand_bind, Grants, guards, below, answered,
              carries, note, if_true, forall_const]
            rfl
          · simp [ask, hr, askScan, h, Grants, guards, below, answered, carries]
      | terminating =>
          cases h : (shares.get q).writes with
          | none => simp [ask, hr, h, Grants, guards, below, answered, carries]
          | some slots => simp [ask, hr, h, Grants, guards, below, answered, carries, note]
  | join columns keys shares =>
      cases kind with
      | flowThrough =>
          simp only [ask, hr, askLeft, checkDemand_bind, Grants, guards, below, answered, carries,
            note, if_true, forall_const]
          cases (w.flow q).bypassed <;> rfl
      | terminating =>
          cases h : (w.flow q).bypassed with
          | false =>
              simp only [ask, hr, askRight, h, checkDemand_bind, Grants, guards, below, answered,
                carries, note, Bool.not_false, Bool.false_eq_true, if_true, if_false, forall_const]
              rfl
          | true => simp [ask, hr, askRight, h, Grants, guards, below, answered, carries]
  | textLoader _ _ | ingest _ _ =>
      cases h : (w.flow q).covered with
      | false =>
          simp only [ask, hr, h, Grants, guards, below, answered, carries, note, Bool.false_eq_true,
            false_implies, if_true, if_false]
          rfl
      | true =>
          simp only [ask, hr, h, checkDemand_bind, Grants, guards, below, answered, carries, note,
            if_true, forall_const]
          rfl
  | selection _ | aggregate _ | transform _ | iterative _ | cache _ | compact _ =>
      simp only [ask, hr, checkDemand_bind, Grants, guards, below, answered, carries, note, if_true,
        forall_const]
      rfl
  | print _ | cluster _ _ => simp [ask, hr, Grants, guards, below, answered, carries, note]

/-- A waypoint that answers was granted the demand, and answers from the tables. -/
theorem ask_eq_ok_iff {w v : Waypoint} {kind : EdgeKind} {q : QueryId} {needed s : SlotSet}
    {exit : QueryExit} :
    w.ask kind q needed exit = .ok (s, v) ↔
      w.Grants kind q needed ∧ w.below kind q needed = s ∧ w.answered kind q needed exit = v := by
  rw [ask_eq]
  by_cases h : w.Grants kind q needed <;> simp [h]

end Waypoint

/-! ## The recorded exits -/

namespace Waypoint

/-- A waypoint has an exit for a query when it holds one of either kind. -/
theorem hasExit_iff {w : Waypoint} {q : QueryId} :
    (w.flow q).hasExit = true ↔ ∃ kind x, w.holdsExit kind ⟨q, x⟩ = true := by
  have some_iff (s : OrdSet WaypointId) : (!s.isEmpty) = true ↔ ∃ x, x ∈ s := by
    rw [Bool.not_eq_true', ← Bool.not_eq_true, OrdSet.isEmpty_iff]
    exact Classical.not_forall_not
  rw [Flow.hasExit, Bool.or_eq_true, some_iff, some_iff]
  constructor
  · rintro (⟨x, hx⟩ | ⟨x, hx⟩)
    · exact ⟨.flowThrough, x, decide_eq_true hx⟩
    · exact ⟨.terminating, x, decide_eq_true hx⟩
  · rintro ⟨kind, x, hx⟩
    cases kind with
    | flowThrough => exact .inl ⟨x, of_decide_eq_true hx⟩
    | terminating => exact .inr ⟨x, of_decide_eq_true hx⟩

/-- Recording an exit adds it and no other. -/
theorem holdsExit_recordExit (w : Waypoint) (kind k : EdgeKind) (exit e : QueryExit) :
    (w.recordExit kind exit).holdsExit k e = true ↔
      w.holdsExit k e = true ∨ (k = kind ∧ e = exit) := by
  obtain ⟨q, x⟩ := exit
  obtain ⟨r, y⟩ := e
  by_cases h : r = q
  · subst h
    cases kind <;> cases k <;> simp [recordExit, holdsExit, flow_modifyFlow, or_comm]
  · cases kind <;> cases k <;> simp [recordExit, holdsExit, flow_modifyFlow, h]

/-- What a role writes down leaves the common records alone. -/
@[simp] theorem flow_note (w : Waypoint) (kind : EdgeKind) (q r : QueryId) (needed : SlotSet) :
    (w.note kind q needed).flow r = w.flow r := by
  cases hr : w.role <;> cases kind <;> simp only [note, hr] <;> first | rfl | (split <;> rfl)

/-- Answering records the one exit, where the query is carried on, and no other. -/
theorem holdsExit_answered (w : Waypoint) (kind k : EdgeKind) (q : QueryId) (needed : SlotSet)
    (exit e : QueryExit) :
    (w.answered kind q needed exit).holdsExit k e = true ↔
      w.holdsExit k e = true ∨ (w.carries kind q = true ∧ k = kind ∧ e = exit) := by
  have hnote : (w.note kind q needed).holdsExit k e = w.holdsExit k e := by
    cases k <;> simp [holdsExit]
  by_cases hc : w.carries kind q = true
  · rw [answered, if_pos hc, holdsExit_recordExit, hnote]
    simp [hc]
  · rw [answered, if_neg hc]
    simp [hc]

end Waypoint

/-! ## One query at a time

What a waypoint answers for a query depends on what belongs to the query, and
changes nothing else. -/

namespace Waypoint

/-- The tables are read at the query that is asked for. -/
@[simp] theorem carries_only (w : Waypoint) (kind : EdgeKind) (q : QueryId) :
    (w.only q).carries kind q = w.carries kind q := by
  cases hr : w.role <;> cases kind <;> simp [carries, hr, Role.only]

@[simp] theorem guards_only (w : Waypoint) (kind : EdgeKind) (q : QueryId) :
    (w.only q).guards kind q = w.guards kind q := by
  cases hr : w.role <;> cases kind <;> simp [guards, hr, Role.only]

@[simp] theorem below_only (w : Waypoint) (kind : EdgeKind) (q : QueryId) (needed : SlotSet) :
    (w.only q).below kind q needed = w.below kind q needed := by
  cases hr : w.role <;> cases kind <;> simp only [below, role_only, hr, Role.only, flow_only,
    QueryTable.get_only_self]

/-- So are the recorded exits. -/
@[simp] theorem holdsExit_only (w : Waypoint) (kind : EdgeKind) (q : QueryId) (x : WaypointId) :
    (w.only q).holdsExit kind ⟨q, x⟩ = w.holdsExit kind ⟨q, x⟩ := by
  cases kind <;> simp [holdsExit]

/-- Whether a demand is granted depends on what belongs to its query. -/
@[simp] theorem grants_only (w : Waypoint) (kind : EdgeKind) (q : QueryId) (needed : SlotSet) :
    (w.only q).Grants kind q needed ↔ w.Grants kind q needed := by
  simp only [Grants, guards_only, flow_only]

/-- What is written down for a query belongs to it. -/
theorem only_note (w : Waypoint) (kind : EdgeKind) (q : QueryId) (needed : SlotSet) :
    (w.note kind q needed).only q = (w.only q).note kind q needed := by
  cases hr : w.role with
  | join _ _ _ =>
      cases kind <;>
        simp only [note, hr, role_only, Role.only, flow_only, QueryTable.get_only_self] <;>
        cases (w.flow q).bypassed <;>
        simp [only, hr, Role.only, QueryTable.only_modify]
  | _ =>
      cases kind <;>
        simp only [note, hr, role_only, Role.only, flow_only, QueryTable.get_only_self] <;>
        simp [only, hr, Role.only, QueryTable.only_modify]

/-- For another query nothing is written down. -/
theorem only_note_of_ne {q r : QueryId} (h : r ≠ q) (w : Waypoint) (kind : EdgeKind)
    (needed : SlotSet) : (w.note kind r needed).only q = w.only q := by
  cases hr : w.role with
  | join _ _ _ =>
      cases hb : (w.flow r).bypassed <;> cases kind <;>
        simp [note, hr, hb, only, Role.only, QueryTable.only_modify_of_ne h]
  | _ => cases kind <;> simp [note, hr, only, Role.only, QueryTable.only_modify_of_ne h]

/-- Restricted to the query that asks, the answer is the answer of the restricted waypoint. -/
theorem only_answered (w : Waypoint) (kind : EdgeKind) (q : QueryId) (needed : SlotSet)
    (x : WaypointId) :
    (w.answered kind q needed ⟨q, x⟩).only q = (w.only q).answered kind q needed ⟨q, x⟩ := by
  simp only [answered, carries_only]
  split
  · rw [recordExit, only_modifyFlow, only_note, recordExit]
  · rfl

/-- Restricted to another query, nothing has been answered. -/
theorem only_answered_of_ne {q r : QueryId} (h : r ≠ q) (w : Waypoint) (kind : EdgeKind)
    (needed : SlotSet) (x : WaypointId) :
    (w.answered kind r needed ⟨r, x⟩).only q = w.only q := by
  simp only [answered]
  split
  · rw [recordExit, only_modifyFlow_of_ne h, only_note_of_ne h]
  · rfl

end Waypoint

/-! ## What answering leaves alone

Answering writes exits into the flow record and, on some roles, the demand into
the share.  `Waypoint.unasked` wipes out exactly that, so waypoints that agree
after it behave alike. -/

namespace QueryTable

variable {β : Type} [Inhabited β] [DecidableEq β]

/-- A change that a map wipes out need not be made before it. -/
theorem mapAll_modify {f g : β → β} (hg : g default = default) (t : QueryTable β) (q : QueryId)
    (h : g (f (t.get q)) = g (t.get q)) : (t.modify q f).mapAll g = t.mapAll g := by
  ext r
  rw [get_mapAll hg, get_mapAll hg, get_modify]
  by_cases hr : r = q
  · rw [if_pos hr, h, hr]
  · rw [if_neg hr]

end QueryTable

/-- The record without exits. -/
def Flow.unasked (f : Flow) : Flow := { f with exits := ∅, terminatingExits := ∅ }

/-- The share without what was demanded. -/
def ScannerShare.unasked (s : ScannerShare) : ScannerShare :=
  { s with projected := none, dropped := none }

/-- The share without what was carried. -/
def JoinShare.unasked (s : JoinShare) : JoinShare := { s with lhsCopy := none, rhsCopy := none }

/-- The share without what was copied. -/
def TransformShare.unasked (s : TransformShare) : TransformShare := { s with passThrough := none }

@[simp] theorem ScannerShare.get_unasked (t : QueryTable ScannerShare) (q : QueryId) :
    (t.mapAll unasked).get q = (t.get q).unasked :=
  QueryTable.get_mapAll rfl t q

@[simp] theorem JoinShare.get_unasked (t : QueryTable JoinShare) (q : QueryId) :
    (t.mapAll unasked).get q = (t.get q).unasked :=
  QueryTable.get_mapAll rfl t q

namespace Role

/-- The role without what it wrote down in answering. -/
def unasked : Role → Role
  | scanner r c s => scanner r c (s.mapAll ScannerShare.unasked)
  | join c k s => join c k (s.mapAll JoinShare.unasked)
  | transform s => transform (s.mapAll TransformShare.unasked)
  | r => r

/-- Forgetting what answers left does not change the kind. -/
@[simp] theorem kind_unasked (r : Role) : r.unasked.kind = r.kind := by
  cases r <;> rfl

end Role

namespace Waypoint

/-- The waypoint as if it had never been asked. -/
def unasked (w : Waypoint) : Waypoint :=
  { w with flows := w.flows.mapAll Flow.unasked, role := w.role.unasked }

@[simp] theorem id_unasked (w : Waypoint) : w.unasked.id = w.id := rfl

@[simp] theorem role_unasked (w : Waypoint) : w.unasked.role = w.role.unasked := rfl

@[simp] theorem kind_unasked (w : Waypoint) : w.unasked.kind = w.kind :=
  Role.kind_unasked w.role

/-- The common record forgets its exits and nothing else. -/
@[simp] theorem flow_unasked (w : Waypoint) (q : QueryId) :
    w.unasked.flow q = (w.flow q).unasked :=
  QueryTable.get_mapAll rfl _ _

/-- Answers do not change which queries are registered. -/
@[simp] theorem covers_unasked (w : Waypoint) (q : QueryId) :
    w.unasked.covers q = w.covers q := by
  simp [covers, Flow.unasked]

/-- Nor do they change which queries are carried on. -/
@[simp] theorem carries_unasked (w : Waypoint) (kind : EdgeKind) (q : QueryId) :
    w.unasked.carries kind q = w.carries kind q := by
  cases hr : w.role <;> cases kind <;>
    simp [carries, hr, Role.unasked, Flow.unasked, ScannerShare.unasked]

/-- Nor which demands are compared with what is emitted. -/
@[simp] theorem guards_unasked (w : Waypoint) (kind : EdgeKind) (q : QueryId) :
    w.unasked.guards kind q = w.guards kind q := by
  cases hr : w.role <;> cases kind <;>
    simp [guards, hr, Role.unasked, Flow.unasked, ScannerShare.unasked]

/-- Nor what is needed in turn. -/
@[simp] theorem below_unasked (w : Waypoint) (kind : EdgeKind) (q : QueryId) (needed : SlotSet) :
    w.unasked.below kind q needed = w.below kind q needed := by
  cases hr : w.role with
  | join _ _ shares =>
      cases kind <;>
        simp only [below, role_unasked, hr, Role.unasked, flow_unasked, JoinShare.get_unasked] <;>
        rfl
  | _ =>
      cases kind <;>
        simp [below, hr, Role.unasked, Flow.unasked, Flow.forward, ScannerShare.unasked]

/-- So whether a demand is granted does not depend on the answers before it. -/
@[simp] theorem grants_unasked (w : Waypoint) (kind : EdgeKind) (q : QueryId)
    (needed : SlotSet) : w.unasked.Grants kind q needed ↔ w.Grants kind q needed := by
  simp only [Grants, guards_unasked, flow_unasked, Flow.unasked]

/-- A recorded exit is what answers leave. -/
theorem unasked_recordExit (w : Waypoint) (kind : EdgeKind) (exit : QueryExit) :
    (w.recordExit kind exit).unasked = w.unasked := by
  cases kind <;>
    simp only [unasked, recordExit, modifyFlow] <;>
    congr 1 <;>
    exact QueryTable.mapAll_modify rfl _ _ rfl

/-- So is what the role writes down. -/
theorem unasked_note (w : Waypoint) (kind : EdgeKind) (q : QueryId) (needed : SlotSet) :
    (w.note kind q needed).unasked = w.unasked := by
  cases hr : w.role with
  | scanner _ _ _ =>
      cases kind with
      | flowThrough =>
          simp only [note, hr, unasked, Role.unasked]
          rw [QueryTable.mapAll_modify (g := ScannerShare.unasked) rfl]
          rfl
      | terminating => simp [note, hr]
  | transform _ =>
      simp only [note, hr, unasked, Role.unasked]
      rw [QueryTable.mapAll_modify (g := TransformShare.unasked) rfl]
      rfl
  | join _ _ _ =>
      cases hb : (w.flow q).bypassed with
      | true => cases kind <;> simp [note, hr, hb]
      | false =>
          cases kind <;>
            simp only [note, hr, hb, unasked, Role.unasked, Bool.false_eq_true, if_false] <;>
            rw [QueryTable.mapAll_modify (g := JoinShare.unasked) rfl] <;>
            rfl
  | _ => simp [note, hr]

/-- **An answer changes only what answers leave.** -/
theorem unasked_answered (w : Waypoint) (kind : EdgeKind) (q : QueryId) (needed : SlotSet)
    (exit : QueryExit) : (w.answered kind q needed exit).unasked = w.unasked := by
  unfold answered
  split
  · rw [unasked_recordExit, unasked_note]
  · rfl

/-- A waypoint keeps its id when it answers. -/
theorem id_answered (w : Waypoint) (kind : EdgeKind) (q : QueryId) (needed : SlotSet)
    (exit : QueryExit) : (w.answered kind q needed exit).id = w.id := by
  rw [← id_unasked, unasked_answered, id_unasked]

/-! ### What an answer leaves alone -/

section Answered

variable (w : Waypoint) (kind k : EdgeKind) (q : QueryId) (needed S : SlotSet) (exit : QueryExit)

@[simp] theorem covers_answered : (w.answered kind q needed exit).covers q = w.covers q := by
  rw [← covers_unasked, unasked_answered, covers_unasked]

@[simp] theorem carries_answered : (w.answered kind q needed exit).carries k q = w.carries k q := by
  rw [← carries_unasked, unasked_answered, carries_unasked]

@[simp] theorem below_answered :
    (w.answered kind q needed exit).below k q S = w.below k q S := by
  rw [← below_unasked, unasked_answered, below_unasked]

/-- What is granted before an answer is granted after it. -/
@[simp] theorem grants_answered :
    (w.answered kind q needed exit).Grants k q S ↔ w.Grants k q S := by
  rw [← grants_unasked, unasked_answered, grants_unasked]

end Answered

/-! ### What waypoints have in common that differ in answers only -/

section Unasked

variable {v w : Waypoint} (h : v.unasked = w.unasked)

include h

/-- Waypoints equal but for what answers leave have one name. -/
theorem name_eq_of_unasked : v.name = w.name := by
  have hname : v.unasked.name = w.unasked.name := by rw [h]
  exact hname

/-- They emit the same. -/
theorem produced_eq_of_unasked (q : QueryId) : (v.flow q).produced = (w.flow q).produced := by
  have hflow : (v.unasked.flow q).produced = (w.unasked.flow q).produced := by rw [h]
  rw [flow_unasked, flow_unasked] at hflow
  exact hflow

/-- The same queries are registered on them. -/
theorem covers_eq_of_unasked (q : QueryId) : v.covers q = w.covers q := by
  rw [← covers_unasked, h, covers_unasked]

/-- They carry the same queries on. -/
theorem carries_eq_of_unasked (kind : EdgeKind) (q : QueryId) :
    v.carries kind q = w.carries kind q := by
  rw [← carries_unasked, h, carries_unasked]

/-- They need the same in turn. -/
theorem below_eq_of_unasked (kind : EdgeKind) (q : QueryId) (S : SlotSet) :
    v.below kind q S = w.below kind q S := by
  rw [← below_unasked, h, below_unasked]

/-- They grant the same demands. -/
theorem grants_iff_of_unasked (kind : EdgeKind) (q : QueryId) (S : SlotSet) :
    v.Grants kind q S ↔ w.Grants kind q S := by
  rw [← grants_unasked, h, grants_unasked]

end Unasked

end Waypoint

end SharedPlan
