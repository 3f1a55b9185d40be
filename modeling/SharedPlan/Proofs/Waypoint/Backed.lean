import SharedPlan.Proofs.Waypoint.Balance

/-!
# SharedPlan.Proofs.Waypoint.Backed

Every demand on a waypoint that it can meet asks below for what has arrived there.

A waypoint that is fed and emits what is asked of it asks over each edge for part of the
inbox of that edge (`Sound.below_subset_inbox`).  For the right input of a join this takes
one more fact about waypoints that are made: a join joins against nothing but what it uses
(`Made.joins`).
-/

namespace SharedPlan

namespace Waypoint

/-! ## What a join joins against -/

/-- The attributes that a join needs from its right input, whatever is asked of it. -/
def against (w : Waypoint) (q : QueryId) : SlotSet :=
  match w.role with
  | .join _ _ shares => (shares.get q).rhs.getD ∅
  | _ => ∅

/-- A join joins against nothing that it was not registered as using. -/
def Joins (w : Waypoint) : Prop := ∀ q, w.against q ⊆ (w.flow q).declared

@[simp] theorem against_unsupplied (w : Waypoint) (q : QueryId) :
    w.unsupplied.against q = w.against q := by
  cases hr : w.role <;> simp [against, hr, Role.unsupplied, JoinShare.unsupplied]

@[simp] theorem against_unasked (w : Waypoint) (q : QueryId) :
    w.unasked.against q = w.against q := by
  cases hr : w.role <;> simp [against, hr, Role.unasked, JoinShare.unasked]

@[simp] theorem against_beginCycle (w : Waypoint) (q : QueryId) :
    w.beginCycle.against q = w.against q := by
  cases hr : w.role with
  | join _ _ _ =>
      simp only [against, beginCycle, hr, Role.beginCycle]
      rw [QueryTable.get_mapAll]
      rfl
  | _ => simp [against, beginCycle, hr, Role.beginCycle]

theorem joins_unsupplied {w : Waypoint} : w.unsupplied.Joins ↔ w.Joins := by
  simp [Joins, Flow.unsupplied, Flow.declared]

theorem joins_unasked {w : Waypoint} : w.unasked.Joins ↔ w.Joins := by
  simp [Joins, Flow.unasked, Flow.declared]

/-- A deleted query is joined against nothing, the others as before. -/
theorem against_deleteQuery (w : Waypoint) (q r : QueryId) :
    (w.deleteQuery q).against r = if r = q then ∅ else w.against r := by
  cases hr : w.role with
  | join _ _ _ =>
      simp only [against, deleteQuery, hr, Role.forget, QueryTable.get_forget]
      split <;> rfl
  | _ => simp [against, deleteQuery, hr, Role.forget]

theorem against_clear (w : Waypoint) (q : QueryId) : w.clear.against q = ∅ := by
  cases hr : w.role <;> simp only [against, clear, hr, Role.clear]
  rfl

/-- A duty that joins is registered as using what it joins against. -/
theorem Joins.enrol {w : Waypoint} (h : w.Joins) (q : QueryId) (d : Duty) :
    (w.enrol q d).Joins := by
  intro r
  have hr := h r
  have join {f : Flow} {o : Option SlotSet} (s : SlotSet) (ho : o.getD ∅ ⊆ f.declared) :
      (mergeSlots o s).getD ∅ ⊆ (f.require s).declared := by
    intro x hx
    rw [declared_require]
    exact (OrdSet.mem_union.1 hx).elim (fun hx => OrdSet.mem_union.2 (.inl (ho x hx)))
      fun hx => OrdSet.mem_union.2 (.inr hx)
  unfold Waypoint.enrol
  split <;>
    simp_all only [against, enrolWith, modifyFlow, flow, QueryTable.get_modify] <;>
    by_cases hrq : r = q <;>
    simp_all [Flow.declared, Flow.bypass]

/-- Every step keeps what a join joins against within what it uses. -/
theorem Step.joins {w v : Waypoint} (h : Step w v) (hw : w.Joins) : v.Joins := by
  cases h with
  | enrol q d => exact hw.enrol q d
  | deleteQuery q =>
      intro r
      rw [flow_deleteQuery, against_deleteQuery]
      split
      · exact OrdSet.empty_subset _
      · exact hw r
  | clear =>
      intro q
      rw [against_clear]
      exact OrdSet.empty_subset _
  | beginCycle =>
      intro q
      rw [flow_beginCycle, declared_beginCycle, against_beginCycle]
      exact hw q
  | emit active =>
      rw [← joins_unsupplied, unsupplied_emit, joins_unsupplied]
      exact hw
  | receive kind m =>
      rw [← joins_unsupplied, unsupplied_receive, joins_unsupplied]
      exact hw
  | ask h =>
      obtain ⟨-, -, rfl⟩ := ask_eq_ok_iff.1 h
      rw [← joins_unasked, unasked_answered, joins_unasked]
      exact hw

/-- However a waypoint was made, what it joins against is registered as used. -/
theorem Made.joins {w : Waypoint} (h : Made w) : w.Joins := by
  induction h with
  | fresh id name hrole =>
      intro q
      have hagainst : (Waypoint.fresh id name _).clear = Waypoint.fresh id name _ :=
        congrArg (Waypoint.fresh id name) hrole
      rw [← hagainst, against_clear]
      exact OrdSet.empty_subset _
  | step _ hstep ih => exact hstep.joins ih

/-! ## What is asked for below -/

variable {w : Waypoint} {q : QueryId} {kind : EdgeKind} {S : SlotSet}

/-- What a filtering waypoint hands on has arrived: what it uses must have, and of what is
wanted of it the rest is what it computes. -/
theorem forward_subset_inbox (hfed : w.Fed q) (hS : S ⊆ w.yield q)
    (hinbox : ∀ k, w.inbox k q = w.inbox kind q) (hreq : w.requires kind q = (w.flow q).used)
    (hown : w.own q = (w.flow q).synthesized) : (w.flow q).forward S ⊆ w.inbox kind q := by
  intro x hx
  obtain ⟨hx, hsyn⟩ := OrdSet.mem_sdiff.1 hx
  rcases OrdSet.mem_union.1 hx with hx | hx
  · rcases mem_yield.1 (hS x hx) with ⟨k, -, hk⟩ | hx
    · exact hinbox k ▸ hk
    · exact absurd (hown ▸ hx) hsyn
  · exact hfed kind x (hreq ▸ hx)

section Join

variable {columns : SlotSet} {keys : List SlotId} {shares : QueryTable JoinShare}
  (hr : w.role = .join columns keys shares)

include hr

/-- A join that a query passes untouched hands the demand down to the left, where what it
emits has arrived. -/
theorem below_subset_inbox_of_bypassed (hb : (w.flow q).bypassed = true) (hS : S ⊆ w.yield q) :
    w.below kind q S ⊆ w.inbox kind q := by
  cases kind with
  | flowThrough =>
      simp only [below, hr, hb, if_true]
      intro x hx
      rcases mem_yield.1 (hS x hx) with ⟨k, hp, hk⟩ | hown
      · cases k with
        | flowThrough => exact hk
        | terminating => simp [passes, hr, hb] at hp
      · simp [own, hr] at hown
  | terminating =>
      simp only [below, hr, hb, if_true]
      exact OrdSet.empty_subset _

/-- A join asks on each side for what it must find there, and for part of what arrived. -/
theorem below_subset_inbox_of_joins (hb : (w.flow q).bypassed = false) (hc : w.covers q = true)
    (hagainst : w.against q ⊆ (w.flow q).used) (hfed : w.Fed q) :
    w.below kind q S ⊆ w.inbox kind q := by
  have hcov : (w.flow q).covered = true := hc
  have hfed' := hfed kind
  rw [OrdSet.subset_def]
  intro x hx
  cases kind with
  | flowThrough =>
      simp only [requires, inbox, hr, hcov, hb, Bool.not_false, Bool.and_self, if_true] at hfed'
      simp only [below, hr, hb, Bool.false_eq_true, if_false, OrdSet.mem_union,
        OrdSet.mem_inter] at hx
      simp only [inbox, hr]
      exact hx.elim (hfed' x) And.right
  | terminating =>
      simp only [requires, inbox, hr, hcov, hb, Bool.not_false, Bool.and_self, if_true] at hfed'
      simp only [against, hr] at hagainst
      simp only [below, hr, hb, Bool.false_eq_true, if_false, OrdSet.mem_union] at hx
      simp only [inbox, hr]
      rcases hx with hx | hx
      · exact hfed' x (hagainst x hx)
      · split at hx
        · exact (OrdSet.mem_inter.1 hx).2
        · exact absurd hx (OrdSet.not_mem_empty x)

end Join

/-- **A waypoint that is fed asks for what has arrived**, as long as it is asked for what
it emits. -/
theorem Sound.below_subset_inbox (hw : w.Sound) (hagainst : w.against q ⊆ (w.flow q).used)
    (hc : w.covers q = true) (hfed : w.Fed q) (hS : S ⊆ w.yield q) :
    w.below kind q S ⊆ w.inbox kind q := by
  have hq := hw q
  have hcov : (w.flow q).covered = true := hc
  have hfed' := hfed kind
  cases hr : w.role with
  | textLoader _ _ | ingest _ _ | iterative _ =>
      simp only [below, hr]
      exact OrdSet.empty_subset _
  | scanner _ _ _ =>
      cases kind with
      | flowThrough =>
          simp only [below, hr]
          exact OrdSet.empty_subset _
      | terminating => simpa only [below, requires, hr] using hfed'
  | aggregate _ | print _ | cluster _ _ =>
      simpa only [below, requires, hr, hcov, if_true] using hfed'
  | selection _ =>
      cases hb : (w.flow q).bypassed with
      | true =>
          simp only [below, hr, hb, if_true]
          intro x hx
          rcases mem_yield.1 (hS x hx) with ⟨k, -, hk⟩ | hown
          · simpa only [inbox, hr] using hk
          · simp [own, hr, hb] at hown
      | false =>
          simp only [below, hr, hb, Bool.false_eq_true, if_false]
          exact forward_subset_inbox hfed hS (by simp [inbox, hr])
            (by simp [requires, hr, hcov, hb]) (by simp [own, hr, hb])
  | transform _ | cache _ | compact _ =>
      have hb : (w.flow q).bypassed = false := by simpa [hr, Agrees] using hq
      simp only [below, hr]
      exact forward_subset_inbox hfed hS (by simp [inbox, hr]) (by simp [requires, hr, hcov, hb])
        (by simp [own, hr, hb])
  | join _ _ _ =>
      cases hb : (w.flow q).bypassed with
      | true => exact below_subset_inbox_of_bypassed hr hb hS
      | false => exact below_subset_inbox_of_joins hr hb hc hagainst hfed

end Waypoint

end SharedPlan
