import SharedPlan.Proofs.Waypoint.Only
import SharedPlan.Waypoint.Supply

/-!
# SharedPlan.Proofs.Waypoint.Yield

What a waypoint does in the bottom-up pass, without the order of the checks.
What arrives over the edges of a kind is the `inbox` of that kind, and
`Waypoint.emission` is taken apart into tables over it:

* `requires` -- what a query must find in an inbox;
* `passes` -- whether an inbox goes into what is emitted;
* `own` -- what is emitted whatever arrived.

A waypoint is `Fed` for a query when every inbox holds what is required of it,
and then emits `yield`.  `emit_eq_ok_iff` puts this together: the upward step
succeeds exactly when every active query is fed, and what it then stores and hands
on are functions of the waypoint (`stored`, `emitted`).
-/

namespace SharedPlan

/-- A list of checks succeeds when every check does. -/
theorem forM_eq_ok_iff {α : Type} {l : List α} {f : α → Except PlanError Unit} :
    l.forM f = .ok () ↔ ∀ a ∈ l, f a = .ok () := by
  induction l with
  | nil => simp [List.forM, pure, Except.pure]
  | cons a rest ih =>
      rw [List.forall_mem_cons, ← ih]
      show (do f a; rest.forM f) = _ ↔ _
      cases f a with
      | error e => simp [bind, Except.bind]
      | ok u => exact ⟨fun h => ⟨rfl, h⟩, fun h => h.2⟩

/-- What comes behind a list of checks is reached when every check passes. -/
theorem forM_bind_eq_ok_iff {α β : Type} {l : List α} {f : α → Except PlanError Unit} {b c : β} :
    (do l.forM f; return b) = .ok c ↔ (∀ a ∈ l, f a = .ok ()) ∧ b = c := by
  rw [← forM_eq_ok_iff]
  cases l.forM f with
  | error e => simp [bind, Except.bind]
  | ok u => simp [bind, Except.bind, pure, Except.pure]

namespace Waypoint

/-! ## The tables -/

/-- What has arrived over the input edges of a kind.  A scanner and a join keep
their two inputs apart, any other waypoint merges them. -/
def inbox (w : Waypoint) (kind : EdgeKind) (q : QueryId) : SlotSet :=
  match w.role, kind with
  | .scanner _ _ shares, .flowThrough => (shares.get q).loaded.getD ∅
  | .join _ _ shares, .terminating => (shares.get q).arrived
  | _, _ => (w.flow q).down

/-- Whether two kinds of edges lead into the same inbox. -/
def sharesInbox (w : Waypoint) (kind k : EdgeKind) : Prop :=
  match w.role with
  | .scanner .. | .join .. => k = kind
  | _ => True

/-- What a query must find in the inbox of a kind. -/
def requires (w : Waypoint) (kind : EdgeKind) (q : QueryId) : SlotSet :=
  let f := w.flow q
  match w.role, kind with
  | .scanner _ _ shares, .terminating => (shares.get q).writes.getD ∅
  | .scanner .., .flowThrough | .textLoader .., _ | .ingest .., _ | .iterative _, _ => ∅
  | .selection _, _ | .transform _, _ | .cache _, _ | .compact _, _ | .join .., .terminating =>
    if f.covered && !f.bypassed then f.used else ∅
  | .join columns _ _, .flowThrough => if f.covered && !f.bypassed then columns else ∅
  | .aggregate _, _ | .print _, _ | .cluster .., _ => if f.covered then f.used else ∅

/-- Whether what is in the inbox of a kind is emitted. -/
def passes (w : Waypoint) (kind : EdgeKind) (q : QueryId) : Bool :=
  match w.role, kind with
  | .selection _, _ | .transform _, _ | .cache _, _ | .compact _, _ | .join .., .flowThrough => true
  | .join _ _ shares, .terminating =>
    !(w.flow q).bypassed && (shares.get q).joinKind.forwardsRight
  | _, _ => false

/-- What is emitted whatever arrived. -/
def own (w : Waypoint) (q : QueryId) : SlotSet :=
  let f := w.flow q
  match w.role with
  | .scanner .. => f.used
  | .textLoader .. | .ingest .. | .iterative _ => f.used ∪ f.synthesized
  | .selection _ | .transform _ | .cache _ | .compact _ => if f.bypassed then ∅ else f.synthesized
  | .aggregate _ => f.synthesized
  | .join .. | .print _ | .cluster .. => ∅

/-- What a waypoint emits for a query. -/
def yield (w : Waypoint) (q : QueryId) : SlotSet :=
  (if w.passes .flowThrough q then w.inbox .flowThrough q else ∅) ∪
    (if w.passes .terminating q then w.inbox .terminating q else ∅) ∪ w.own q

/-- Every inbox holds what the query must find there. -/
def Fed (w : Waypoint) (q : QueryId) : Prop := ∀ kind, w.requires kind q ⊆ w.inbox kind q

/-- What is emitted arrived and passes, or is computed here. -/
theorem mem_yield {w : Waypoint} {q : QueryId} {x : SlotId} :
    x ∈ w.yield q ↔ (∃ kind, w.passes kind q = true ∧ x ∈ w.inbox kind q) ∨ x ∈ w.own q := by
  have hif (b : Bool) (s : SlotSet) : (x ∈ if b then s else ∅) ↔ b = true ∧ x ∈ s := by
    cases b <;> simp
  simp only [yield, OrdSet.mem_union, hif]
  constructor
  · rintro ((h | h) | h)
    · exact .inl ⟨_, h⟩
    · exact .inl ⟨_, h⟩
    · exact .inr h
  · rintro (⟨kind, h⟩ | h)
    · cases kind with
      | flowThrough => exact .inl (.inl h)
      | terminating => exact .inl (.inr h)
    · exact .inr h

/-- A sink emits nothing. -/
theorem yield_eq_empty {w : Waypoint} {q : QueryId} (hp : w.passesOn = false) : w.yield q = ∅ := by
  ext x
  rw [mem_yield]
  cases hr : w.role with
  | print _ | cluster _ _ => simp [passes, own, hr]
  | _ => simp [passesOn, Waypoint.kind, hr, Role.kind, WaypointKind.isSink] at hp

/-! ## Emitting for one query -/

/-- A check passes exactly when nothing is missing; the error tells what is. -/
theorem checkUsed_eq (w : Waypoint) (q : QueryId) (required available : SlotSet) :
    w.checkUsed q required available =
      if required ⊆ available then .ok ()
      else .error (.usedNotProduced w.name q (required \ available)) := by
  have h : (required \ available).isEmpty = true ↔ required ⊆ available := by
    rw [OrdSet.isEmpty_iff, OrdSet.subset_def]
    refine forall_congr' fun a => ?_
    rw [OrdSet.mem_sdiff, not_and, Decidable.not_not]
  simp only [checkUsed, h]

/-- What comes behind a check is reached exactly when it passes. -/
theorem checkUsed_bind_eq_ok_iff {α : Type} {w : Waypoint} {q : QueryId}
    {required available : SlotSet} {k : Except PlanError α} {a : α} :
    (do w.checkUsed q required available; k) = .ok a ↔ required ⊆ available ∧ k = .ok a := by
  rw [checkUsed_eq]
  by_cases h : required ⊆ available
  · simp only [h, if_true, true_and]
    rfl
  · simp only [h, if_false, false_and, iff_false]
    intro h
    cases h

theorem forall_kind {p : EdgeKind → Prop} : (∀ kind, p kind) ↔ p .flowThrough ∧ p .terminating :=
  ⟨fun h => ⟨h _, h _⟩, fun h kind => by cases kind <;> simp [h]⟩

/-- A writer is fed when what it writes has arrived. -/
theorem checkWritten_eq_ok_iff {w : Waypoint} {q : QueryId} :
    w.checkWritten q = .ok () ↔
      match w.role with
      | .scanner _ _ shares => (shares.get q).writes.getD ∅ ⊆ (w.flow q).down
      | _ => True := by
  cases hr : w.role with
  | scanner _ _ shares =>
      cases hw : (shares.get q).writes with
      | none => simp [checkWritten, hr, hw]
      | some slots => simp [checkWritten, hr, hw, checkUsed_eq]
  | _ => simp [checkWritten, hr]

/-- Where a waypoint supplies a query, the rule of its role succeeds, and what is
written into a relation is there, exactly when the query is fed. -/
theorem emission_eq_ok_iff {w : Waypoint} {q : QueryId} {s : SlotSet}
    (hs : w.supplies q = true) :
    (w.emission q = .ok s ∧ w.checkWritten q = .ok ()) ↔ w.Fed q ∧ w.yield q = s := by
  have self_union (s t : SlotSet) : s ∪ s ∪ t = s ∪ t := by ext; simp
  have union_empty (s : SlotSet) : s ∪ ∅ = s := by ext; simp
  have empty_union (s : SlotSet) : ∅ ∪ s = s := by ext; simp
  rw [checkWritten_eq_ok_iff, Fed, forall_kind]
  cases hr : w.role with
  | scanner _ _ _ => simp [emission, hr, requires, inbox, yield, passes, own, empty_union, and_comm]
  | textLoader _ _ | ingest _ _ | iterative _ =>
      simp [emission, hr, requires, yield, passes, own, empty_union]
  | aggregate _ | print _ | cluster _ _ =>
      have hc : (w.flow q).covered = true := by simpa [supplies, hr, covers] using hs
      simp [emission, hr, requires, inbox, yield, passes, own, hc, checkUsed_bind_eq_ok_iff,
        empty_union, pure, Except.pure]
  | selection _ | transform _ | cache _ | compact _ =>
      have hc : (w.flow q).covered = true := by simpa [supplies, hr, covers] using hs
      cases hb : (w.flow q).bypassed with
      | true =>
          simp [emission, hr, requires, inbox, yield, passes, own, hb, self_union, union_empty]
      | false =>
          simp [emission, hr, requires, inbox, yield, passes, own, hb, hc,
            checkUsed_bind_eq_ok_iff, self_union, pure, Except.pure]
  | join _ _ shares =>
      have hc : (w.flow q).covered = true := by simpa [supplies, hr, covers] using hs
      cases hb : (w.flow q).bypassed with
      | true => simp [emission, hr, requires, inbox, yield, passes, own, hb, union_empty]
      | false =>
          simp only [emission, hr, requires, inbox, yield, passes, own, hb, hc, union_empty, pure,
            Except.pure]
          cases (shares.get q).joinKind.forwardsRight <;>
            simp [checkUsed_bind_eq_ok_iff, union_empty, and_left_comm, and_assoc]

/-- Where a waypoint does not supply a query, being fed is having what is written
into the relation. -/
theorem checkWritten_eq_ok_iff_fed {w : Waypoint} {q : QueryId} (hs : w.supplies q = false) :
    w.checkWritten q = .ok () ↔ w.Fed q := by
  rw [checkWritten_eq_ok_iff, Fed, forall_kind]
  cases hr : w.role with
  | scanner _ _ _ => simp [requires, inbox, hr]
  | _ => simp_all [requires, supplies, covers]

/-- Where a waypoint emits, it emits the yield. -/
theorem yield_eq_of_emission {w : Waypoint} {q : QueryId} {s : SlotSet}
    (hs : w.supplies q = true) (h : w.emission q = .ok s) : w.yield q = s := by
  cases hr : w.role with
  | scanner _ _ _ =>
      have hused : (w.flow q).used = s := by simpa [emission, hr] using h
      rw [← hused]
      ext x
      simp [mem_yield, passes, own, hr]
  | _ =>
      refine ((emission_eq_ok_iff hs).1 ⟨h, ?_⟩).2
      simp [checkWritten, hr]

/-! ## Emitting for every active query -/

/-- Storing a result changes what is stored as emitted, nothing else. -/
theorem flow_setProduced (w : Waypoint) (r q : QueryId) (s : SlotSet) :
    ∃ t, (w.setProduced r s).flow q = { w.flow q with produced := t } := by
  rw [setProduced, flow_modifyFlow]
  by_cases h : q = r
  · exact ⟨s, by rw [if_pos h, h]⟩
  · exact ⟨(w.flow q).produced, if_neg h⟩

@[simp] theorem role_setProduced (w : Waypoint) (r : QueryId) (s : SlotSet) :
    (w.setProduced r s).role = w.role := rfl

/-- What is emitted for a query does not depend on what is stored already. -/
@[simp] theorem emission_setProduced (w : Waypoint) (r q : QueryId) (s : SlotSet) :
    (w.setProduced r s).emission q = w.emission q := by
  obtain ⟨t, ht⟩ := flow_setProduced w r q s
  simp only [emission, role_setProduced, ht]
  cases w.role <;> rfl

@[simp] theorem checkWritten_setProduced (w : Waypoint) (r q : QueryId) (s : SlotSet) :
    (w.setProduced r s).checkWritten q = w.checkWritten q := by
  obtain ⟨t, ht⟩ := flow_setProduced w r q s
  simp only [checkWritten, role_setProduced, ht]
  cases w.role <;> rfl

@[simp] theorem yield_setProduced (w : Waypoint) (r q : QueryId) (s : SlotSet) :
    (w.setProduced r s).yield q = w.yield q := by
  obtain ⟨t, ht⟩ := flow_setProduced w r q s
  simp only [yield, passes, inbox, own, role_setProduced, ht]
  rfl

/-- Store what is emitted for each query of a list. -/
def storeEach (w : Waypoint) (l : List QueryId) : Waypoint :=
  l.foldl (fun w q => w.setProduced q (w.yield q)) w

/-- The waypoint once it has emitted for every active query. -/
def stored (active : QuerySet) (w : Waypoint) : Waypoint :=
  w.storeEach (active.toList.filter w.supplies)

/-- What goes on to the waypoints above. -/
def emitted (active : QuerySet) (w : Waypoint) : QuerySlots :=
  if w.passesOn then
    (active.toList.filter w.supplies).foldr (fun q m => m.insert q (w.yield q)) ∅
  else ∅

/-- Where every rule succeeds, every yield is stored and answered. -/
theorem emitEach_eq {l : List QueryId} {w : Waypoint}
    (h : ∀ q ∈ l, w.emission q = .ok (w.yield q)) :
    w.emitEach l = (w.storeEach l, .ok (l.foldr (fun q m => m.insert q (w.yield q)) ∅)) := by
  induction l generalizing w with
  | nil => rfl
  | cons q rest ih =>
      have hrest : ∀ r ∈ rest, (w.setProduced q (w.yield q)).emission r =
          .ok ((w.setProduced q (w.yield q)).yield r) := fun r hr => by
        rw [emission_setProduced, yield_setProduced]
        exact h r (List.mem_cons_of_mem _ hr)
      rw [emitEach, h q List.mem_cons_self]
      simp only [ih hrest, yield_setProduced]
      rfl

/-- Where all are emitted for, every rule succeeded. -/
theorem emission_of_emitEach {l : List QueryId} {w v : Waypoint} {m : QuerySlots}
    (h : w.emitEach l = (v, .ok m)) : ∀ q ∈ l, ∃ s, w.emission q = .ok s := by
  induction l generalizing w v m with
  | nil => simp
  | cons q rest ih =>
      cases he : w.emission q with
      | error e => simp [emitEach, he] at h
      | ok s =>
          rw [emitEach, he] at h
          obtain ⟨hv, hm⟩ := Prod.mk.inj h
          cases hr : (w.setProduced q s).emitEach rest with
          | mk u r =>
              rw [hr] at hm
              cases r with
              | error e => cases hm
              | ok m' =>
                  intro r hmem
                  rcases List.mem_cons.1 hmem with rfl | hmem
                  · exact ⟨s, he⟩
                  · simpa using ih hr r hmem

@[simp] theorem role_storeEach (w : Waypoint) (l : List QueryId) :
    (w.storeEach l).role = w.role := by
  induction l generalizing w with
  | nil => rfl
  | cons q rest ih => exact ih _

/-- Whether a writer is fed does not depend on what is stored as emitted. -/
theorem checkWritten_storeEach (w : Waypoint) (l : List QueryId) (q : QueryId) :
    (w.storeEach l).checkWritten q = w.checkWritten q := by
  induction l generalizing w with
  | nil => rfl
  | cons r rest ih => exact (ih _).trans (checkWritten_setProduced ..)

/-- Where every rule succeeds, only what is written into a relation is left to check. -/
theorem emit_eq {w : Waypoint} {active : QuerySet}
    (h : ∀ q ∈ active.toList, w.supplies q = true → w.emission q = .ok (w.yield q)) :
    w.emit active =
      (w.stored active, do active.toList.forM w.checkWritten; return w.emitted active) := by
  have he := emitEach_eq fun q (hq : q ∈ active.toList.filter w.supplies) =>
    h q (List.mem_filter.1 hq).1 (List.mem_filter.1 hq).2
  have hw : (w.stored active).checkWritten = w.checkWritten :=
    funext (checkWritten_storeEach w _)
  have hp : (w.stored active).passesOn = w.passesOn := by
    simp [passesOn, kind, stored]
  simp only [emit, he]
  exact Prod.ext rfl (by rw [← hw, emitted, ← hp]; rfl)

/-- **The upward step**: it succeeds exactly when every active query is fed. -/
theorem emit_eq_ok_iff {w v : Waypoint} {active : QuerySet} {m : QuerySlots} :
    w.emit active = (v, .ok m) ↔
      (∀ q ∈ active.toList, w.Fed q) ∧ w.stored active = v ∧ w.emitted active = m := by
  constructor
  · intro h
    have hem : ∀ q ∈ active.toList, w.supplies q = true → w.emission q = .ok (w.yield q) := by
      intro q hq hs
      cases he : w.emitEach (active.toList.filter w.supplies) with
      | mk u r =>
          cases r with
          | error e =>
              simp only [emit, he] at h
              cases (Prod.mk.inj h).2
          | ok m' =>
              obtain ⟨s, hs'⟩ := emission_of_emitEach he q (List.mem_filter.2 ⟨hq, hs⟩)
              rw [hs', yield_eq_of_emission hs hs']
    rw [emit_eq hem] at h
    obtain ⟨hv, hm⟩ := Prod.mk.inj h
    obtain ⟨hwritten, hm⟩ := forM_bind_eq_ok_iff.1 hm
    refine ⟨fun q hq => ?_, hv, hm⟩
    cases hs : w.supplies q with
    | true => exact ((emission_eq_ok_iff hs).1 ⟨hem q hq hs, hwritten q hq⟩).1
    | false => exact (checkWritten_eq_ok_iff_fed hs).1 (hwritten q hq)
  · rintro ⟨hfed, rfl, rfl⟩
    have hem : ∀ q ∈ active.toList, w.supplies q = true → w.emission q = .ok (w.yield q) :=
      fun q hq hs => ((emission_eq_ok_iff hs).2 ⟨hfed q hq, rfl⟩).1
    rw [emit_eq hem]
    refine Prod.ext rfl (forM_bind_eq_ok_iff.2 ⟨fun q hq => ?_, rfl⟩)
    cases hs : w.supplies q with
    | true => exact ((emission_eq_ok_iff hs).2 ⟨hfed q hq, rfl⟩).2
    | false => exact (checkWritten_eq_ok_iff_fed hs).2 (hfed q hq)

end Waypoint

end SharedPlan
