import SharedPlan.Proofs.Waypoint.Intake
import SharedPlan.Waypoint.Duty

/-!
# SharedPlan.Proofs.Waypoint.Step

Everything that can happen to a waypoint in its life, and what holds all along.

Registration, deletion and the steps of a compile cycle are the constructors of
`Waypoint.Step`; a waypoint is `Made` when such steps lead to it from a fresh one.
No step changes the id or the kind, and every step keeps a waypoint `Sound`: what
its role wrote down for a query agrees with the common record of that query.
-/

namespace SharedPlan

namespace QueryTable

variable {β : Type} [Inhabited β] [DecidableEq β]

theorem mapAll_mapAll {f g h : β → β} (hf : f default = default) (hg : g default = default)
    (e : ∀ b, g (f b) = h b) (t : QueryTable β) : (t.mapAll f).mapAll g = t.mapAll h := by
  have hh : h default = default := by rw [← e, hf, hg]
  ext q
  rw [get_mapAll hg, get_mapAll hf, get_mapAll hh, e]

end QueryTable

namespace Waypoint

/-! ## Steps -/

/-- What can happen to a waypoint.  An upward step that fails keeps what it stored
before; a downward step that fails changes nothing. -/
inductive Step (w : Waypoint) : Waypoint → Prop
  | enrol (q : QueryId) (d : Duty) : Step w (w.enrol q d)
  | deleteQuery (q : QueryId) : Step w (w.deleteQuery q)
  | clear : Step w w.clear
  | beginCycle : Step w w.beginCycle
  | emit (active : QuerySet) : Step w (w.emit active).1
  | receive (kind : EdgeKind) (m : QuerySlots) : Step w (w.receive kind m)
  | ask {v : Waypoint} {kind : EdgeKind} {q : QueryId} {needed below : SlotSet}
      {exit : QueryExit} : w.ask kind q needed exit = .ok (below, v) → Step w v

/-- The waypoints that steps lead to from a fresh one, whose role keeps nothing
for any query. -/
inductive Made : Waypoint → Prop
  | fresh (id : WaypointId) (name : String) {role : Role} :
      role.clear = role → Made (.fresh id name role)
  | step {w v : Waypoint} : Made w → Step w v → Made v

/-! ## Soundness -/

/-- What a role keeps for a query agrees with the common record.  Readers and
writers of a relation are registered, a join uses what it joins against, and only a
selection or a join is bypassed. -/
def Agrees (f : Flow) (q : QueryId) : Role → Prop
  | .scanner _ _ s =>
    f.bypassed = false ∧
      ((s.get q).reads = true ∨ (s.get q).writes.isSome = true → f.covered = true)
  | .join _ _ s => f.declared ⊆ (s.get q).rhs.getD ∅
  | .selection _ => True
  | _ => f.bypassed = false

/-- The role agrees with the common record of every query. -/
def Sound (w : Waypoint) : Prop := ∀ q, Agrees (w.flow q) q w.role

theorem sound_unsupplied {w : Waypoint} : w.unsupplied.Sound ↔ w.Sound := by
  refine forall_congr' fun q => ?_
  cases hr : w.role <;>
    simp [Agrees, hr, Role.unsupplied, Flow.unsupplied, Flow.declared, ScannerShare.unsupplied,
      JoinShare.unsupplied]

theorem sound_unasked {w : Waypoint} : w.unasked.Sound ↔ w.Sound := by
  refine forall_congr' fun q => ?_
  cases hr : w.role <;>
    simp [Agrees, hr, Role.unasked, Flow.unasked, Flow.declared, ScannerShare.unasked,
      JoinShare.unasked]

/-- Nothing kept for a query agrees with nothing registered. -/
theorem agrees_clear (q : QueryId) (role : Role) : Agrees default q role.clear := by
  cases role with
  | scanner _ _ _ =>
      refine ⟨rfl, fun h => ?_⟩
      rcases h with h | h <;> cases h
  | join _ _ _ => exact OrdSet.empty_subset _
  | selection _ => trivial
  | _ => rfl

/-- The records of the other queries agree as before, and the deleted one has none. -/
theorem Sound.deleteQuery {w : Waypoint} (h : w.Sound) (q : QueryId) :
    (w.deleteQuery q).Sound := by
  intro r
  have hr := h r
  rw [flow_deleteQuery]
  show Agrees _ r (w.role.forget q)
  by_cases hrq : r = q
  · have := agrees_clear r w.role
    cases hrole : w.role <;> simp_all [Agrees, Role.forget, Role.clear, QueryTable.get_forget]
  · cases hrole : w.role <;> simp_all [Agrees, Role.forget, QueryTable.get_forget]

theorem declared_beginCycle (f : Flow) : f.beginCycle.declared = f.declared := by
  ext x
  simp [Flow.declared, Flow.beginCycle]

/-- What a cycle resets is not what has to agree. -/
theorem Sound.beginCycle {w : Waypoint} (h : w.Sound) : w.beginCycle.Sound := by
  intro q
  have hq := h q
  rw [flow_beginCycle]
  show Agrees _ q w.role.beginCycle
  cases hr : w.role with
  | scanner _ _ _ =>
      simp only [hr, Agrees, Role.beginCycle] at hq ⊢
      rw [QueryTable.get_mapAll]
      · exact hq
      · rfl
  | join _ _ _ =>
      simp only [hr, Agrees, Role.beginCycle, declared_beginCycle] at hq ⊢
      rw [QueryTable.get_mapAll]
      · exact hq
      · rfl
  | _ =>
      simp only [hr, Agrees, Role.beginCycle] at hq ⊢
      try exact hq

/-- A required attribute counts as declared. -/
theorem declared_require (f : Flow) (s : SlotSet) :
    (f.require s).declared = f.declared ∪ s := by
  ext x
  simp [Flow.declared, Flow.require, or_assoc]

/-- An enrolled duty declares what it reads, so the records still agree. -/
theorem Sound.enrol {w : Waypoint} (h : w.Sound) (q : QueryId) (d : Duty) :
    (w.enrol q d).Sound := by
  intro r
  have hr := h r
  have join {f : Flow} {o : Option SlotSet} (s : SlotSet) (ho : f.declared ⊆ o.getD ∅) :
      (f.require s).declared ⊆ (mergeSlots o s).getD ∅ := by
    intro x hx
    rw [declared_require] at hx
    rcases OrdSet.mem_union.1 hx with hx | hx
    · exact OrdSet.mem_union.2 (.inl (ho x hx))
    · exact OrdSet.mem_union.2 (.inr hx)
  unfold Waypoint.enrol
  split <;>
    simp_all only [Agrees, enrolWith, modifyFlow, flow, QueryTable.get_modify] <;>
    by_cases hrq : r = q <;>
    simp_all [Flow.cover, Flow.synthesize, Flow.bypass] <;>
    first
      | exact join _ hr
      | exact hr
      | simp_all [Flow.require]

/-- No step changes the id. -/
theorem Step.id_eq {w v : Waypoint} (h : Step w v) : v.id = w.id := by
  cases h with
  | enrol q d => unfold Waypoint.enrol; split <;> rfl
  | deleteQuery _ | clear | beginCycle => rfl
  | emit active => exact id_emit w active
  | receive kind m => exact id_receive w kind m
  | ask h =>
      obtain ⟨-, -, rfl⟩ := ask_eq_ok_iff.1 h
      exact id_answered ..

/-- No step changes the kind. -/
theorem Step.kind_eq {w v : Waypoint} (h : Step w v) : v.kind = w.kind := by
  cases h with
  | enrol q d =>
      unfold Waypoint.enrol
      split <;> simp_all [kind, Role.kind, enrolWith, modifyFlow]
  | deleteQuery q => exact Role.kind_forget q w.role
  | clear => exact Role.kind_clear w.role
  | beginCycle => exact Role.kind_beginCycle w.role
  | emit active => rw [← kind_unsupplied, unsupplied_emit, kind_unsupplied]
  | receive kind m => rw [← kind_unsupplied, unsupplied_receive, kind_unsupplied]
  | ask h =>
      obtain ⟨-, -, rfl⟩ := ask_eq_ok_iff.1 h
      rw [← kind_unasked, unasked_answered, kind_unasked]

/-- Every step keeps a waypoint sound. -/
theorem Step.sound {w v : Waypoint} (h : Step w v) (hw : w.Sound) : v.Sound := by
  cases h with
  | enrol q d => exact hw.enrol q d
  | deleteQuery q => exact hw.deleteQuery q
  | clear => exact fun q => agrees_clear q w.role
  | beginCycle => exact hw.beginCycle
  | emit active =>
      rw [← sound_unsupplied, unsupplied_emit, sound_unsupplied]
      exact hw
  | receive kind m =>
      rw [← sound_unsupplied, unsupplied_receive, sound_unsupplied]
      exact hw
  | ask h =>
      obtain ⟨-, -, rfl⟩ := ask_eq_ok_iff.1 h
      rw [← sound_unasked, unasked_answered, sound_unasked]
      exact hw

/-- However a waypoint was made, its records agree. -/
theorem Made.sound {w : Waypoint} (h : Made w) : w.Sound := by
  induction h with
  | fresh id name hrole => exact fun q => hrole ▸ agrees_clear q _
  | step _ hstep ih => exact hstep.sound ih

end Waypoint

end SharedPlan
