import SharedPlan.Proofs.Waypoint.Answer
import SharedPlan.Proofs.Waypoint.Yield

/-!
# SharedPlan.Proofs.Waypoint.Intake

What a waypoint takes in during the bottom-up pass, and that emitting and taking
in concern each query alone.

Restricted to one query (`Waypoint.only`), both steps are the steps of the
restricted waypoint (`only_stored`, `only_receive`).  What they write is
wiped out by `Waypoint.unsupplied`, which leaves everything that registration
wrote and the recorded exits as they are.
-/

namespace SharedPlan

namespace Waypoint

/-! ## Taking in -/

/-- What is taken in over an edge is added to the inbox of that edge. -/
theorem mem_inbox_receiveFor {w : Waypoint} {kind k : EdgeKind} {q : QueryId} {s : SlotSet}
    {x : SlotId} :
    x ∈ (w.receiveFor kind q s).inbox k q ↔
      x ∈ w.inbox k q ∨ (w.sharesInbox kind k ∧ x ∈ s) := by
  cases hr : w.role <;> cases kind <;> cases k <;>
    simp [receiveFor, inbox, sharesInbox, hr, modifyFlow, Flow.receive, flow,
      QueryTable.get_modify, mergeSlots]

/-! ## One query at a time -/

/-- The tables of the upward step are read at one query. -/
@[simp] theorem inbox_only (w : Waypoint) (kind : EdgeKind) (q : QueryId) :
    (w.only q).inbox kind q = w.inbox kind q := by
  cases hr : w.role <;> cases kind <;> simp [inbox, hr, Role.only]

@[simp] theorem requires_only (w : Waypoint) (kind : EdgeKind) (q : QueryId) :
    (w.only q).requires kind q = w.requires kind q := by
  cases hr : w.role <;> cases kind <;> simp [requires, hr, Role.only]

@[simp] theorem passes_only (w : Waypoint) (kind : EdgeKind) (q : QueryId) :
    (w.only q).passes kind q = w.passes kind q := by
  cases hr : w.role <;> cases kind <;> simp [passes, hr, Role.only]

@[simp] theorem own_only (w : Waypoint) (q : QueryId) : (w.only q).own q = w.own q := by
  cases hr : w.role <;> simp [own, hr, Role.only]

/-- So what is emitted for a query depends on what belongs to it. -/
@[simp] theorem yield_only (w : Waypoint) (q : QueryId) : (w.only q).yield q = w.yield q := by
  simp only [yield, passes_only, inbox_only, own_only]

/-- And so does whether everything it needs has arrived. -/
@[simp] theorem fed_only (w : Waypoint) (q : QueryId) : (w.only q).Fed q ↔ w.Fed q := by
  simp only [Fed, requires_only, inbox_only]

@[simp] theorem supplies_only (w : Waypoint) (q : QueryId) :
    (w.only q).supplies q = w.supplies q := by
  cases hr : w.role <;> simp [supplies, hr, Role.only]

@[simp] theorem passesOn_only (w : Waypoint) (q : QueryId) : (w.only q).passesOn = w.passesOn := by
  simp [passesOn]

/-- What is stored as emitted for a query belongs to it. -/
theorem only_setProduced (w : Waypoint) (q : QueryId) (s : SlotSet) :
    (w.setProduced q s).only q = (w.only q).setProduced q s :=
  only_modifyFlow ..

/-- For another query nothing is stored. -/
theorem only_setProduced_of_ne {q r : QueryId} (h : r ≠ q) (w : Waypoint) (s : SlotSet) :
    (w.setProduced r s).only q = w.only q :=
  only_modifyFlow_of_ne h ..

/-- The later of two stored results counts. -/
theorem setProduced_setProduced (w : Waypoint) (q : QueryId) (s t : SlotSet) :
    (w.setProduced q s).setProduced q t = w.setProduced q t := by
  simp only [setProduced, modifyFlow]
  congr 1
  ext r
  simp only [QueryTable.get_modify]
  split <;> simp

/-- Storing results for a list of queries stores each with its query. -/
theorem only_storeEach (w : Waypoint) (l : List QueryId) (q : QueryId) :
    (w.storeEach l).only q =
      if q ∈ l then (w.only q).setProduced q (w.yield q) else w.only q := by
  induction l generalizing w with
  | nil => simp [storeEach]
  | cons r rest ih =>
      show ((w.setProduced r (w.yield r)).storeEach rest).only q = _
      rw [ih, yield_setProduced]
      by_cases hr : r = q
      · subst hr
        rw [only_setProduced, setProduced_setProduced, ite_self, if_pos List.mem_cons_self]
      · rw [only_setProduced_of_ne hr]
        simp only [List.mem_cons, Ne.symm hr, false_or]

/-- What is stored for a query is what it alone would have stored. -/
theorem only_stored (w : Waypoint) (active : QuerySet) (q : QueryId) :
    (w.stored active).only q =
      if q ∈ active.toList ∧ w.supplies q = true then (w.only q).setProduced q (w.yield q)
      else w.only q := by
  simp only [stored, only_storeEach, List.mem_filter]

/-- What goes on for a query depends on that query alone. -/
theorem get?_emitted (w : Waypoint) (active : QuerySet) (q : QueryId) :
    (w.emitted active).get? q =
      if w.passesOn = true ∧ q ∈ active.toList ∧ w.supplies q = true then some (w.yield q)
      else none := by
  have fold (l : List QueryId) :
      (l.foldr (fun q m => m.insert q (w.yield q)) (∅ : QuerySlots)).get? q =
        if q ∈ l then some (w.yield q) else none := by
    induction l with
    | nil => rfl
    | cons r rest ih =>
        rw [List.foldr_cons, OrdMap.get?_insert, ih]
        by_cases hr : q = r
        · simp [hr]
        · simp [hr]
  rw [emitted]
  by_cases hp : w.passesOn = true
  · rw [if_pos hp, fold]
    simp only [List.mem_filter, hp, true_and]
  · rw [if_neg hp]
    simp [hp]

/-- What is taken in for a query belongs to it. -/
theorem only_receiveFor (w : Waypoint) (kind : EdgeKind) (q : QueryId) (s : SlotSet) :
    (w.receiveFor kind q s).only q = (w.only q).receiveFor kind q s := by
  cases hr : w.role <;> cases kind <;>
    simp [receiveFor, hr, only, modifyFlow, Role.only, QueryTable.only_modify]

/-- For another query nothing is taken in. -/
theorem only_receiveFor_of_ne {q r : QueryId} (h : r ≠ q) (w : Waypoint) (kind : EdgeKind)
    (s : SlotSet) : (w.receiveFor kind r s).only q = w.only q := by
  cases hr : w.role <;> cases kind <;>
    simp [receiveFor, hr, only, modifyFlow, Role.only, QueryTable.only_modify_of_ne h]

/-- What a query takes in over an edge. -/
def takesIn (w : Waypoint) (kind : EdgeKind) (q : QueryId) : Option SlotSet → Waypoint
  | some s => if w.covers q then w.receiveFor kind q s else w
  | none => w

/-- What is taken in for a query depends on what was emitted for it. -/
theorem only_receive (w : Waypoint) (kind : EdgeKind) (m : QuerySlots) (q : QueryId) :
    (w.receive kind m).only q = (w.only q).takesIn kind q (m.get? q) := by
  have fold (l : List (QueryId × SlotSet)) (hl : l.Pairwise fun a b => compare a.1 b.1 = .lt)
      (w : Waypoint) :
      (l.foldl (fun w e => if w.covers e.1 then w.receiveFor kind e.1 e.2 else w) w).only q =
        (w.only q).takesIn kind q (OrdMap.lookup q l) := by
    induction l generalizing w with
    | nil => rfl
    | cons e rest ih =>
        obtain ⟨r, s⟩ := e
        rw [List.foldl_cons, ih hl.of_cons]
        by_cases hr : r = q
        · subst hr
          have hrest : OrdMap.lookup r rest = none := by
            cases h : OrdMap.lookup r rest with
            | none => rfl
            | some t =>
                have lt := List.rel_of_pairwise_cons hl (OrdMap.mem_of_lookup h)
                simp [Std.ReflCmp.compare_self] at lt
          simp only [hrest, OrdMap.lookup, Std.ReflCmp.compare_self, takesIn, covers_only]
          by_cases hc : w.covers r = true
          · simp only [hc, if_true, only_receiveFor]
          · simp only [hc, if_false, Bool.false_eq_true]
        · have hne : compare q r ≠ .eq := fun e => hr (Std.LawfulEqCmp.eq_of_compare e).symm
          have hlook : OrdMap.lookup q ((r, s) :: rest) = OrdMap.lookup q rest := by
            simp only [OrdMap.lookup]
          rw [hlook]
          congr 1
          by_cases hc : w.covers r = true
          · simp only [hc, if_true, only_receiveFor_of_ne hr]
          · simp only [hc, if_false, Bool.false_eq_true]
  exact fold m.entries m.ascending w

end Waypoint

/-! ## What the pass leaves alone -/

/-- The record without what arrived and what was emitted. -/
def Flow.unsupplied (f : Flow) : Flow := { f with down := ∅, produced := ∅ }

/-- The share without what a loader brought. -/
def ScannerShare.unsupplied (s : ScannerShare) : ScannerShare := { s with loaded := none }

/-- The share without what arrived from the right. -/
def JoinShare.unsupplied (s : JoinShare) : JoinShare := { s with arrived := ∅ }

@[simp] theorem ScannerShare.get_unsupplied (t : QueryTable ScannerShare) (q : QueryId) :
    (t.mapAll unsupplied).get q = (t.get q).unsupplied :=
  QueryTable.get_mapAll rfl t q

@[simp] theorem JoinShare.get_unsupplied (t : QueryTable JoinShare) (q : QueryId) :
    (t.mapAll unsupplied).get q = (t.get q).unsupplied :=
  QueryTable.get_mapAll rfl t q

/-- The role without what it took in. -/
def Role.unsupplied : Role → Role
  | scanner r c s => scanner r c (s.mapAll ScannerShare.unsupplied)
  | join c k s => join c k (s.mapAll JoinShare.unsupplied)
  | r => r

namespace Waypoint

/-- The waypoint as it was before the pass. -/
def unsupplied (w : Waypoint) : Waypoint :=
  { w with flows := w.flows.mapAll Flow.unsupplied, role := w.role.unsupplied }

@[simp] theorem id_unsupplied (w : Waypoint) : w.unsupplied.id = w.id := rfl

@[simp] theorem role_unsupplied (w : Waypoint) : w.unsupplied.role = w.role.unsupplied := rfl

/-- Forgetting what an upward pass left does not change the kind. -/
@[simp] theorem kind_unsupplied (w : Waypoint) : w.unsupplied.kind = w.kind := by
  cases hr : w.role <;> simp [kind, hr, Role.unsupplied, Role.kind]

/-- The common record forgets what arrived and what was emitted. -/
@[simp] theorem flow_unsupplied (w : Waypoint) (q : QueryId) :
    w.unsupplied.flow q = (w.flow q).unsupplied :=
  QueryTable.get_mapAll rfl _ _

/-- An upward pass does not change which queries are registered. -/
@[simp] theorem covers_unsupplied (w : Waypoint) (q : QueryId) :
    w.unsupplied.covers q = w.covers q := by
  simp [covers, Flow.unsupplied]

/-- Nor does it change which queries are carried on. -/
@[simp] theorem carries_unsupplied (w : Waypoint) (kind : EdgeKind) (q : QueryId) :
    w.unsupplied.carries kind q = w.carries kind q := by
  cases hr : w.role <;> cases kind <;>
    simp [carries, hr, Role.unsupplied, Flow.unsupplied, ScannerShare.unsupplied]

/-- Nor the recorded exits. -/
@[simp] theorem holdsExit_unsupplied (w : Waypoint) (kind : EdgeKind) (e : QueryExit) :
    w.unsupplied.holdsExit kind e = w.holdsExit kind e := by
  cases kind <;> simp [holdsExit, Flow.unsupplied]

/-- A stored result is what an upward pass leaves. -/
theorem unsupplied_setProduced (w : Waypoint) (q : QueryId) (s : SlotSet) :
    (w.setProduced q s).unsupplied = w.unsupplied := by
  simp only [unsupplied, setProduced, modifyFlow]
  rw [QueryTable.mapAll_modify (g := Flow.unsupplied) rfl]
  rfl

/-- So are all of them. -/
theorem unsupplied_stored (w : Waypoint) (active : QuerySet) :
    (w.stored active).unsupplied = w.unsupplied := by
  have each (l : List QueryId) (w : Waypoint) : (w.storeEach l).unsupplied = w.unsupplied := by
    induction l generalizing w with
    | nil => rfl
    | cons q rest ih => exact (ih _).trans (unsupplied_setProduced ..)
  exact each _ w

theorem id_stored (w : Waypoint) (active : QuerySet) : (w.stored active).id = w.id := by
  rw [← id_unsupplied, unsupplied_stored, id_unsupplied]

/-- An upward step that fails leaves the same alone as one that succeeds. -/
theorem unsupplied_emit (w : Waypoint) (active : QuerySet) :
    (w.emit active).1.unsupplied = w.unsupplied := by
  have each (l : List QueryId) (w : Waypoint) : (w.emitEach l).1.unsupplied = w.unsupplied := by
    induction l generalizing w with
    | nil => rfl
    | cons q rest ih =>
        rw [emitEach]
        cases w.emission q with
        | error e => rfl
        | ok s => exact (ih _).trans (unsupplied_setProduced ..)
  exact each _ w

/-- A waypoint keeps its id when it emits. -/
theorem id_emit (w : Waypoint) (active : QuerySet) : (w.emit active).1.id = w.id := by
  rw [← id_unsupplied, unsupplied_emit, id_unsupplied]

/-- What is taken in is what an upward pass leaves. -/
theorem unsupplied_receiveFor (w : Waypoint) (kind : EdgeKind) (q : QueryId) (s : SlotSet) :
    (w.receiveFor kind q s).unsupplied = w.unsupplied := by
  have hflow : (w.flows.modify q (·.receive s)).mapAll Flow.unsupplied =
      w.flows.mapAll Flow.unsupplied :=
    QueryTable.mapAll_modify (g := Flow.unsupplied) rfl _ _ rfl
  cases hr : w.role with
  | scanner _ _ _ =>
      cases kind with
      | flowThrough =>
          simp only [receiveFor, hr, unsupplied, Role.unsupplied]
          rw [QueryTable.mapAll_modify (g := ScannerShare.unsupplied) rfl]
          rfl
      | terminating => simp only [receiveFor, hr, unsupplied, modifyFlow, hflow]
  | join _ _ _ =>
      cases kind with
      | flowThrough => simp only [receiveFor, hr, unsupplied, modifyFlow, hflow]
      | terminating =>
          simp only [receiveFor, hr, unsupplied, Role.unsupplied]
          rw [QueryTable.mapAll_modify (g := JoinShare.unsupplied) rfl]
          rfl
  | _ => simp only [receiveFor, hr, unsupplied, modifyFlow, hflow]

/-- **The upward pass changes only what an upward pass leaves.** -/
theorem unsupplied_receive (w : Waypoint) (kind : EdgeKind) (m : QuerySlots) :
    (w.receive kind m).unsupplied = w.unsupplied := by
  rw [receive]
  induction m.entries generalizing w with
  | nil => rfl
  | cons e rest ih =>
      rw [List.foldl_cons, ih]
      split
      · exact unsupplied_receiveFor ..
      · rfl

theorem id_receive (w : Waypoint) (kind : EdgeKind) (m : QuerySlots) :
    (w.receive kind m).id = w.id := by
  rw [← id_unsupplied, unsupplied_receive, id_unsupplied]

/-! ## What the pass writes

All that it writes for a query is what arrives and what is emitted, and the rules of
a role read nothing else that it writes. -/

/-- What a waypoint requires is registered and does not depend on the pass. -/
@[simp] theorem requires_unsupplied (w : Waypoint) (kind : EdgeKind) (q : QueryId) :
    w.unsupplied.requires kind q = w.requires kind q := by
  cases hr : w.role <;> cases kind <;>
    simp [requires, hr, Role.unsupplied, Flow.unsupplied, ScannerShare.unsupplied]

@[simp] theorem passes_unsupplied (w : Waypoint) (kind : EdgeKind) (q : QueryId) :
    w.unsupplied.passes kind q = w.passes kind q := by
  cases hr : w.role <;> cases kind <;>
    simp [passes, hr, Role.unsupplied, Flow.unsupplied, JoinShare.unsupplied, JoinShare.joinKind]

/-- Nor does what it computes itself. -/
@[simp] theorem own_unsupplied (w : Waypoint) (q : QueryId) : w.unsupplied.own q = w.own q := by
  cases hr : w.role <;> simp [own, hr, Role.unsupplied, Flow.unsupplied]

/-- Nor which queries it emits for. -/
@[simp] theorem supplies_unsupplied (w : Waypoint) (q : QueryId) :
    w.unsupplied.supplies q = w.supplies q := by
  cases hr : w.role <;> simp [supplies, hr, Role.unsupplied, ScannerShare.unsupplied]

@[simp] theorem passesOn_unsupplied (w : Waypoint) : w.unsupplied.passesOn = w.passesOn := by
  simp [passesOn]

/-- Nor which inbox an edge leads to. -/
@[simp] theorem sharesInbox_unsupplied (w : Waypoint) (kind k : EdgeKind) :
    w.unsupplied.sharesInbox kind k ↔ w.sharesInbox kind k := by
  cases hr : w.role <;> simp [sharesInbox, hr, Role.unsupplied]

@[simp] theorem sharesInbox_only (w : Waypoint) (kind k : EdgeKind) (q : QueryId) :
    (w.only q).sharesInbox kind k ↔ w.sharesInbox kind k := by
  cases hr : w.role <;> simp [sharesInbox, hr, Role.only]

/-- What a waypoint emits is told by its registrations and its inboxes. -/
theorem yield_congr {v w : Waypoint} {q : QueryId} (h : v.unsupplied = w.unsupplied)
    (hin : ∀ kind x, x ∈ v.inbox kind q ↔ x ∈ w.inbox kind q) : v.yield q = w.yield q := by
  have hpasses (kind : EdgeKind) : v.passes kind q = w.passes kind q := by
    rw [← passes_unsupplied, h, passes_unsupplied]
  have hown : v.own q = w.own q := by
    rw [← own_unsupplied, h, own_unsupplied]
  ext x
  simp only [mem_yield, hpasses, hown, hin]

/-- **What a waypoint has for a query after a delivery**: what it had, and what was delivered if
the query is registered here. -/
theorem mem_inbox_receive {w : Waypoint} {kind k : EdgeKind} {m : QuerySlots} {q : QueryId}
    {x : SlotId} :
    x ∈ (w.receive kind m).inbox k q ↔
      x ∈ w.inbox k q ∨
        w.covers q = true ∧ w.sharesInbox kind k ∧ ∃ s, m.get? q = some s ∧ x ∈ s := by
  rw [← inbox_only, only_receive]
  cases hm : m.get? q with
  | none => simp [takesIn]
  | some s =>
      rw [takesIn, covers_only]
      cases hc : w.covers q with
      | false => simp
      | true => simp [mem_inbox_receiveFor]

theorem produced_receiveFor (w : Waypoint) (kind : EdgeKind) (q : QueryId) (s : SlotSet) :
    ((w.receiveFor kind q s).flow q).produced = (w.flow q).produced := by
  cases hr : w.role <;> cases kind <;>
    simp [receiveFor, hr, flow, modifyFlow, QueryTable.get_modify, Flow.receive]

/-- A delivery does not change what is emitted here. -/
theorem produced_receive (w : Waypoint) (kind : EdgeKind) (m : QuerySlots) (q : QueryId) :
    ((w.receive kind m).flow q).produced = (w.flow q).produced := by
  rw [← flow_only, only_receive, ← flow_only q w]
  cases m.get? q with
  | none => rfl
  | some s =>
      rw [takesIn]
      split
      · exact produced_receiveFor ..
      · rfl

/-- Emitting does not change what has arrived. -/
theorem inbox_stored (w : Waypoint) (active : QuerySet) (kind : EdgeKind) (q : QueryId) :
    (w.stored active).inbox kind q = w.inbox kind q := by
  have hset (v : Waypoint) (s : SlotSet) : (v.setProduced q s).inbox kind q = v.inbox kind q := by
    simp only [inbox, setProduced, flow_modifyFlow, if_true]
    rfl
  rw [← inbox_only, only_stored]
  split
  · rw [hset, inbox_only]
  · rw [inbox_only]

/-- **What is stored as emitted after the upward step.** -/
theorem produced_stored (w : Waypoint) (active : QuerySet) (q : QueryId) :
    ((w.stored active).flow q).produced =
      if q ∈ active.toList ∧ w.supplies q = true then w.yield q else (w.flow q).produced := by
  rw [← flow_only, only_stored]
  split
  · simp [setProduced, flow_modifyFlow]
  · rw [flow_only]

end Waypoint

end SharedPlan
