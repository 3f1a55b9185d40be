import SharedPlan.Proofs.Waypoint.Step

/-!
# SharedPlan.Proofs.Waypoint.Renewal

What beginning a cycle forgets.

`Waypoint.beginCycle` wipes out whatever the passes of an earlier cycle wrote, whether or
not that cycle came to its end (`beginCycle_emit`, `beginCycle_receive`,
`beginCycle_of_ask`), and whatever registration and deletion write does not depend on it:
waypoints that begin a cycle alike still do so after a query is registered or deleted on
both (`beginCycle_enrol_congr`, `beginCycle_deleteQuery`, `clear_beginCycle`).
-/

namespace SharedPlan

namespace QueryTable

variable {β : Type} [Inhabited β] [DecidableEq β]

/-- A change before which a map makes no difference to what the map shows after it. -/
theorem mapAll_modify_mapAll {f g : β → β} (hf : f default = default)
    (hidem : ∀ b, f (f b) = f b) (hg : ∀ b, f (g (f b)) = f (g b)) (t : QueryTable β)
    (q : QueryId) : ((t.mapAll f).modify q g).mapAll f = (t.modify q g).mapAll f := by
  ext r
  rw [get_mapAll hf, get_mapAll hf, get_modify, get_modify, get_mapAll hf, get_mapAll hf]
  by_cases hr : r = q
  · rw [if_pos hr, if_pos hr, hg]
  · rw [if_neg hr, if_neg hr, hidem]

theorem mapAll_forget {f : β → β} (hf : f default = default) (t : QueryTable β) (q : QueryId) :
    (t.forget q).mapAll f = (t.mapAll f).forget q := by
  ext r
  rw [get_mapAll hf, get_forget, get_forget, get_mapAll hf]
  by_cases hr : r = q
  · rw [if_pos hr, if_pos hr, hf]
  · rw [if_neg hr, if_neg hr]

end QueryTable

/-- A record that has begun a cycle begins it as it is. -/
theorem Flow.beginCycle_beginCycle (f : Flow) : f.beginCycle.beginCycle = f.beginCycle := by
  have (s : SlotSet) : s ∪ ∅ = s := by ext; simp
  simp [Flow.beginCycle, this]

namespace Waypoint

/-! ## What is kept and what is forgotten -/

@[simp] theorem id_beginCycle (w : Waypoint) : w.beginCycle.id = w.id := rfl

@[simp] theorem covers_beginCycle (w : Waypoint) (q : QueryId) :
    w.beginCycle.covers q = w.covers q := by
  simp [covers, Flow.beginCycle]

@[simp] theorem carries_beginCycle (w : Waypoint) (kind : EdgeKind) (q : QueryId) :
    w.beginCycle.carries kind q = w.carries kind q := by
  have hrole : w.beginCycle.role = w.role.beginCycle := rfl
  cases hr : w.role with
  | scanner _ _ shares =>
      cases kind <;>
        simp only [carries, hrole, hr, Role.beginCycle] <;>
        rw [QueryTable.get_mapAll] <;>
        rfl
  | _ => cases kind <;> simp [carries, hrole, hr, Role.beginCycle, Flow.beginCycle]

/-- Beginning a cycle wipes out what answering wrote. -/
theorem beginCycle_unasked (w : Waypoint) : w.unasked.beginCycle = w.beginCycle := by
  have hflows : (w.flows.mapAll Flow.unasked).mapAll Flow.beginCycle =
      w.flows.mapAll Flow.beginCycle :=
    QueryTable.mapAll_mapAll rfl rfl (fun _ => rfl) _
  have hrole : w.role.unasked.beginCycle = w.role.beginCycle := by
    cases w.role with
    | scanner _ _ _ =>
        exact congrArg (Role.scanner _ _) (QueryTable.mapAll_mapAll rfl rfl (fun _ => rfl) _)
    | join _ _ _ =>
        exact congrArg (Role.join _ _) (QueryTable.mapAll_mapAll rfl rfl (fun _ => rfl) _)
    | transform _ =>
        exact congrArg Role.transform (QueryTable.mapAll_mapAll rfl rfl (fun _ => rfl) _)
    | _ => rfl
  simp only [beginCycle, unasked, hflows, hrole]

/-- Beginning a cycle wipes out what the bottom-up pass wrote. -/
theorem beginCycle_unsupplied (w : Waypoint) : w.unsupplied.beginCycle = w.beginCycle := by
  have hflows : (w.flows.mapAll Flow.unsupplied).mapAll Flow.beginCycle =
      w.flows.mapAll Flow.beginCycle :=
    QueryTable.mapAll_mapAll rfl rfl (fun _ => rfl) _
  have hrole : w.role.unsupplied.beginCycle = w.role.beginCycle := by
    cases w.role with
    | scanner _ _ _ =>
        exact congrArg (Role.scanner _ _) (QueryTable.mapAll_mapAll rfl rfl (fun _ => rfl) _)
    | join _ _ _ =>
        exact congrArg (Role.join _ _) (QueryTable.mapAll_mapAll rfl rfl (fun _ => rfl) _)
    | _ => rfl
  simp only [beginCycle, unsupplied, hflows, hrole]

/-- A cycle that has begun begins as it is. -/
theorem beginCycle_beginCycle (w : Waypoint) : w.beginCycle.beginCycle = w.beginCycle := by
  have hflows : (w.flows.mapAll Flow.beginCycle).mapAll Flow.beginCycle =
      w.flows.mapAll Flow.beginCycle :=
    QueryTable.mapAll_mapAll Flow.beginCycle_default Flow.beginCycle_default
      Flow.beginCycle_beginCycle _
  have hrole : w.role.beginCycle.beginCycle = w.role.beginCycle := by
    cases w.role with
    | scanner _ _ _ =>
        exact congrArg (Role.scanner _ _) (QueryTable.mapAll_mapAll rfl rfl (fun _ => rfl) _)
    | join _ _ _ =>
        exact congrArg (Role.join _ _) (QueryTable.mapAll_mapAll rfl rfl (fun _ => rfl) _)
    | transform _ =>
        exact congrArg Role.transform (QueryTable.mapAll_mapAll rfl rfl (fun _ => rfl) _)
    | _ => rfl
  simp only [beginCycle, hflows, hrole]

/-- A new cycle starts without exits. -/
theorem holdsExit_beginCycle (w : Waypoint) (kind : EdgeKind) (e : QueryExit) :
    w.beginCycle.holdsExit kind e = false := by
  cases kind <;> simp [holdsExit, Flow.beginCycle]

/-- A new cycle starts with nothing supplied. -/
theorem inbox_beginCycle (w : Waypoint) (kind : EdgeKind) (q : QueryId) :
    w.beginCycle.inbox kind q = ∅ := by
  have hrole : w.beginCycle.role = w.role.beginCycle := rfl
  cases hr : w.role <;> cases kind <;> simp only [inbox, hrole, hr, Role.beginCycle] <;>
    first
      | (rw [QueryTable.get_mapAll] <;> rfl)
      | simp [Flow.beginCycle]

/-- Whatever the passes of a cycle do to a waypoint, the next cycle begins as before. -/
theorem beginCycle_emit (w : Waypoint) (active : QuerySet) :
    (w.emit active).1.beginCycle = w.beginCycle := by
  rw [← beginCycle_unsupplied, unsupplied_emit, beginCycle_unsupplied]

/-- What a waypoint receives does not outlast the cycle. -/
theorem beginCycle_receive (w : Waypoint) (kind : EdgeKind) (m : QuerySlots) :
    (w.receive kind m).beginCycle = w.beginCycle := by
  rw [← beginCycle_unsupplied, unsupplied_receive, beginCycle_unsupplied]

/-- What a waypoint is asked does not outlast the cycle. -/
theorem beginCycle_of_ask {w v : Waypoint} {kind : EdgeKind} {q : QueryId}
    {needed below : SlotSet} {exit : QueryExit} (h : w.ask kind q needed exit = .ok (below, v)) :
    v.beginCycle = w.beginCycle := by
  obtain ⟨-, -, rfl⟩ := ask_eq_ok_iff.1 h
  rw [← beginCycle_unasked, unasked_answered, beginCycle_unasked]

/-! ## Registration and deletion -/

@[simp] theorem role_beginCycle (w : Waypoint) : w.beginCycle.role = w.role.beginCycle := rfl

/-- Registration writes what it writes wherever a cycle has begun in between. -/
theorem beginCycle_enrolWith (w : Waypoint) (q : QueryId) {role role' : Role} {f : Flow → Flow}
    (hrole : role'.beginCycle = role.beginCycle)
    (hf : ∀ x : Flow, (f x.beginCycle).beginCycle = (f x).beginCycle) :
    (w.beginCycle.enrolWith q role' f).beginCycle = (w.enrolWith q role f).beginCycle := by
  have hflows : ((w.flows.mapAll Flow.beginCycle).modify q f).mapAll Flow.beginCycle =
      (w.flows.modify q f).mapAll Flow.beginCycle :=
    QueryTable.mapAll_modify_mapAll Flow.beginCycle_default Flow.beginCycle_beginCycle hf _ q
  simp only [beginCycle, enrolWith, hflows, hrole]

end Waypoint

namespace Flow

variable (f : Flow) (s t : SlotSet)

theorem beginCycle_cover : f.beginCycle.cover.beginCycle = f.cover.beginCycle := by
  have (s : SlotSet) : s ∪ ∅ = s := by ext; simp
  simp [Flow.beginCycle, cover, this]

theorem beginCycle_bypass : f.beginCycle.bypass.beginCycle = f.bypass.beginCycle := by
  have (s : SlotSet) : s ∪ ∅ = s := by ext; simp
  simp [Flow.beginCycle, bypass, this]

theorem beginCycle_require :
    (f.beginCycle.require s).beginCycle = (f.require s).beginCycle := by
  have : f.used ∪ f.pending ∪ (∅ ∪ s) = f.used ∪ (f.pending ∪ s) := by
    ext x
    simp [or_assoc]
  simp [Flow.beginCycle, require, this]

theorem beginCycle_synthesize :
    (f.beginCycle.synthesize s).beginCycle = (f.synthesize s).beginCycle := by
  have (s : SlotSet) : s ∪ ∅ = s := by ext; simp
  simp [Flow.beginCycle, synthesize, this]

theorem beginCycle_require_synthesize :
    ((f.beginCycle.require s).synthesize t).beginCycle =
      ((f.require s).synthesize t).beginCycle := by
  rw [← beginCycle_synthesize, beginCycle_require, beginCycle_synthesize]

end Flow

namespace Waypoint

/-- On a role that a cycle leaves alone, a query is registered alike whether or not one has
begun since. -/
theorem beginCycle_enrol_of_role {w : Waypoint} (hw : w.role.beginCycle = w.role) (q : QueryId)
    (d : Duty) : (w.beginCycle.enrol q d).beginCycle = (w.enrol q d).beginCycle := by
  have hwith (role : Role) {f : Flow → Flow}
      (hf : ∀ x : Flow, (f x.beginCycle).beginCycle = (f x).beginCycle) :
      (w.beginCycle.enrolWith q role f).beginCycle = (w.enrolWith q role f).beginCycle :=
    w.beginCycle_enrolWith q rfl hf
  have hflow {f : Flow → Flow}
      (hf : ∀ x : Flow, (f x.beginCycle).beginCycle = (f x).beginCycle) :
      (w.beginCycle.modifyFlow q f).beginCycle = (w.modifyFlow q f).beginCycle :=
    w.beginCycle_enrolWith q (congrArg Role.beginCycle hw) hf
  have hrole : w.beginCycle.role = w.role := hw
  have hflows : w.beginCycle.beginCycle.flows = w.beginCycle.flows :=
    congrArg (·.flows) w.beginCycle_beginCycle
  unfold enrol
  rw [hrole]
  split
  case h_1 | h_6 | h_10 | h_15 => exact hwith _ (·.beginCycle_require _)
  case h_2 | h_12 | h_16 | h_17 => exact hwith _ Flow.beginCycle_cover
  case h_3 => exact congrArg (fun flows => Waypoint.mk w.id w.name flows _) hflows
  case h_4 | h_5 | h_18 => exact hflow (·.beginCycle_require _)
  case h_7 | h_11 | h_13 => exact hwith _ (·.beginCycle_require_synthesize _ _)
  case h_8 | h_9 => exact hflow Flow.beginCycle_bypass
  case h_14 => exact hwith _ (·.beginCycle_synthesize _)
  case h_19 => exact w.beginCycle_beginCycle

/-- A query is registered alike whether or not a cycle has begun since. -/
theorem beginCycle_enrol (w : Waypoint) (q : QueryId) (d : Duty) :
    (w.beginCycle.enrol q d).beginCycle = (w.enrol q d).beginCycle := by
  cases hr : w.role with
  | scanner r c s =>
      have hrole (f : ScannerShare → ScannerShare) (hf : ∀ b, _) :=
        congrArg (Role.scanner r c) (QueryTable.mapAll_modify_mapAll
          (f := fun b => { b with projected := none, dropped := none, loaded := none })
          (g := f) rfl (fun _ => rfl) hf s q)
      cases d with
      | scan =>
          simp only [enrol, role_beginCycle, hr, Role.beginCycle]
          exact w.beginCycle_enrolWith q (hrole _ fun _ => rfl) (·.beginCycle_require c)
      | write slots =>
          simp only [enrol, role_beginCycle, hr, Role.beginCycle]
          exact w.beginCycle_enrolWith q (hrole _ fun _ => rfl) Flow.beginCycle_cover
      | scanRange range =>
          have hflows : w.beginCycle.beginCycle.flows = w.beginCycle.flows :=
            congrArg (·.flows) w.beginCycle_beginCycle
          have hrole := hrole ({ · with range := some range }) fun _ => rfl
          simp only [enrol, role_beginCycle, hr, Role.beginCycle]
          exact (congrArg (fun flows => Waypoint.mk w.id w.name flows _) hflows).trans
            (congrArg (Waypoint.mk w.id w.name _) hrole)
      | _ =>
          simp only [enrol, role_beginCycle, hr, Role.beginCycle]
          exact w.beginCycle_beginCycle
  | join c k s =>
      cases d with
      | bypass =>
          simp only [enrol, role_beginCycle, hr, Role.beginCycle]
          exact w.beginCycle_enrolWith q (congrArg (·.role) w.beginCycle_beginCycle)
            Flow.beginCycle_bypass
      | join rhs keys kind =>
          have hrole := congrArg (Role.join c k) (QueryTable.mapAll_modify_mapAll
            (f := fun b => { b with arrived := ∅, lhsCopy := none, rhsCopy := none })
            (g := fun b =>
              { b with rhs := mergeSlots b.rhs rhs, keys := some keys, kind := some kind })
            rfl (fun _ => rfl) (fun _ => rfl) s q)
          simp only [enrol, role_beginCycle, hr, Role.beginCycle]
          exact w.beginCycle_enrolWith q hrole (·.beginCycle_require rhs)
      | _ =>
          simp only [enrol, role_beginCycle, hr, Role.beginCycle]
          exact w.beginCycle_beginCycle
  | transform s =>
      cases d with
      | transform outputs inputs states =>
          have hrole := congrArg Role.transform (QueryTable.mapAll_modify_mapAll
            (f := fun b => { b with passThrough := none })
            (g := fun b =>
              { b with
                inputs := mergeSlots b.inputs inputs, states := some (b.states.getD [] ++ states) })
            rfl (fun _ => rfl) (fun _ => rfl) s q)
          simp only [enrol, role_beginCycle, hr, Role.beginCycle]
          exact w.beginCycle_enrolWith q hrole (·.beginCycle_require_synthesize inputs outputs)
      | _ =>
          simp only [enrol, role_beginCycle, hr, Role.beginCycle]
          exact w.beginCycle_beginCycle
  | _ => exact beginCycle_enrol_of_role (by rw [hr]; rfl) q d

theorem beginCycle_enrol_congr {v w : Waypoint} (h : v.beginCycle = w.beginCycle) (q : QueryId)
    (d : Duty) : (v.enrol q d).beginCycle = (w.enrol q d).beginCycle := by
  rw [← beginCycle_enrol v, h, beginCycle_enrol]

/-- A query is deleted alike whether or not a cycle has begun since. -/
theorem beginCycle_deleteQuery (w : Waypoint) (q : QueryId) :
    (w.deleteQuery q).beginCycle = w.beginCycle.deleteQuery q := by
  have hrole : (w.role.forget q).beginCycle = w.role.beginCycle.forget q := by
    cases w.role with
    | scanner r c s => exact congrArg (Role.scanner r c) (QueryTable.mapAll_forget rfl s q)
    | join c k s => exact congrArg (Role.join c k) (QueryTable.mapAll_forget rfl s q)
    | transform s => exact congrArg Role.transform (QueryTable.mapAll_forget rfl s q)
    | _ => rfl
  have hflows := QueryTable.mapAll_forget Flow.beginCycle_default w.flows q
  simp only [beginCycle, deleteQuery, hflows, hrole]

/-- Of a waypoint on which no query is left, nothing tells whether a cycle has begun. -/
theorem clear_beginCycle (w : Waypoint) : w.beginCycle.clear = w.clear := by
  have hrole : w.role.beginCycle.clear = w.role.clear := by
    cases w.role <;> rfl
  simp only [beginCycle, clear, hrole]

end Waypoint

end SharedPlan
