import SharedPlan.Proofs.Waypoint.Balance
import SharedPlan.Proofs.Waypoint.Intake

/-!
# SharedPlan.Proofs.Waypoint.Equations

The flow equations of one waypoint, role by role.

`Supply` is what the equations speak of: for a waypoint and a query, what arrives in
the stream, what arrives beside it, and what is emitted.  `Waypoint.emits` says what is
emitted for what arrives, `Waypoint.Available` what must have arrived, and
`Waypoint.setsAside` over which edges it arrives beside the stream.

The tables of `SharedPlan.Proofs.Waypoint.Yield` say the same of a waypoint whose
fields hold what arrived (`setsAside_iff`, `emits_supply`, `available_supply_iff`).
-/

namespace SharedPlan

/-- What a waypoint gets and gives for a query. -/
structure Supply where
  /-- What arrives in the stream. -/
  down : SlotSet
  /-- What arrives beside it: from a loader at a scanner, from the right at a join. -/
  side : SlotSet
  /-- What is emitted. -/
  produced : SlotSet
  deriving DecidableEq

attribute [ext] Supply

/-- Nothing arrives and nothing is emitted. -/
def Supply.none : Supply := ⟨∅, ∅, ∅⟩

namespace Waypoint

/-- Whether what comes over the edges of a kind is kept beside the stream. -/
def setsAside (w : Waypoint) (kind : EdgeKind) : Bool :=
  match w.role, kind with
  | .scanner .., .flowThrough | .join .., .terminating => true
  | _, _ => false

/-- What is emitted for a query, given what arrives. -/
def emits (w : Waypoint) (q : QueryId) (s : Supply) : SlotSet :=
  let f := w.flow q
  match w.role with
  | .scanner _ _ shares => if (shares.get q).reads then f.used else ∅
  | .textLoader .. | .ingest .. | .iterative _ => f.used ∪ f.synthesized
  | .aggregate _ => f.synthesized
  | .print _ | .cluster .. => ∅
  | .selection _ | .transform _ | .cache _ | .compact _ =>
    if f.bypassed then s.down else s.down ∪ f.synthesized
  | .join _ _ shares =>
    if f.bypassed || !(shares.get q).joinKind.forwardsRight then s.down else s.down ∪ s.side

/-- What arrives for a query is enough. -/
def Available (w : Waypoint) (q : QueryId) (s : Supply) : Prop :=
  let f := w.flow q
  match w.role with
  | .scanner _ _ shares => (shares.get q).writes.getD ∅ ⊆ s.down
  | .textLoader .. | .ingest .. | .iterative _ => True
  | .aggregate _ | .print _ | .cluster .. => f.used ⊆ s.down
  | .selection _ | .transform _ | .cache _ | .compact _ => f.bypassed = true ∨ f.used ⊆ s.down
  | .join columns _ _ => f.bypassed = true ∨ f.used ⊆ s.side ∧ columns ⊆ s.down

/-- What a waypoint got and gave for a query, as its fields hold it. -/
def supply (w : Waypoint) (q : QueryId) : Supply where
  down := (w.flow q).down
  side :=
    match w.role with
    | .scanner _ _ shares => (shares.get q).loaded.getD ∅
    | .join _ _ shares => (shares.get q).arrived
    | _ => ∅
  produced := (w.flow q).produced

variable {w : Waypoint} {q : QueryId} {kind k : EdgeKind} {s : Supply}

/-! ## The equations read what registration wrote -/

@[simp] theorem setsAside_unsupplied (w : Waypoint) (kind : EdgeKind) :
    w.unsupplied.setsAside kind = w.setsAside kind := by
  cases hr : w.role <;> cases kind <;> simp [setsAside, hr, Role.unsupplied]

@[simp] theorem emits_unsupplied (w : Waypoint) (q : QueryId) (s : Supply) :
    w.unsupplied.emits q s = w.emits q s := by
  cases hr : w.role <;>
    simp [emits, hr, Role.unsupplied, Flow.unsupplied, ScannerShare.unsupplied,
      JoinShare.unsupplied, JoinShare.joinKind]

@[simp] theorem available_unsupplied (w : Waypoint) (q : QueryId) (s : Supply) :
    w.unsupplied.Available q s ↔ w.Available q s := by
  cases hr : w.role <;>
    simp [Available, hr, Role.unsupplied, Flow.unsupplied, ScannerShare.unsupplied]

/-! ## The equations and the tables -/

/-- Two kinds of edges lead into the same inbox when both lead into the stream, or both
beside it. -/
theorem setsAside_iff : w.sharesInbox kind k ↔ w.setsAside kind = w.setsAside k := by
  cases hr : w.role <;> cases kind <;> cases k <;> simp [sharesInbox, setsAside, hr]

theorem inbox_eq (w : Waypoint) (kind : EdgeKind) (q : QueryId) :
    w.inbox kind q = if w.setsAside kind then (w.supply q).side else (w.supply q).down := by
  cases hr : w.role <;> cases kind <;> simp [inbox, setsAside, supply, hr]

/-- Edges of some kind lead into the stream. -/
theorem exists_not_setsAside (w : Waypoint) : ∃ kind, w.setsAside kind = false := by
  cases hr : w.role with
  | scanner _ _ _ => exact ⟨.terminating, by simp [setsAside, hr]⟩
  | _ => exact ⟨.flowThrough, by simp [setsAside, hr]⟩

/-- Beside the stream there is nothing where no edge leads. -/
theorem side_eq_empty (h : ∀ kind, w.setsAside kind = false) : (w.supply q).side = ∅ := by
  cases hr : w.role with
  | scanner _ _ _ => simpa [setsAside, hr] using h .flowThrough
  | join _ _ _ => simpa [setsAside, hr] using h .terminating
  | _ => simp [supply, hr]

/-- A waypoint emits what its inboxes yield, if it supplies the query. -/
theorem emits_supply (hc : w.covers q = true) :
    w.emits q (w.supply q) = if w.supplies q then w.yield q else ∅ := by
  have hcovered : (w.flow q).covered = true := hc
  ext x
  cases hr : w.role with
  | scanner _ _ shares =>
      cases hs : (shares.get q).reads <;>
        simp [emits, supplies, mem_yield, passes, own, hr, hs]
  | textLoader _ _ | ingest _ _ | iterative _ | aggregate _ | print _ | cluster _ _ =>
      simp [emits, supplies, mem_yield, passes, own, hr, covers, hcovered]
  | selection _ | transform _ | cache _ | compact _ =>
      cases hb : (w.flow q).bypassed <;>
        simp [emits, supplies, supply, yield, passes, own, inbox, hr, covers, hcovered, hb]
  | join _ _ shares =>
      cases hb : (w.flow q).bypassed <;> cases hk : (shares.get q).joinKind.forwardsRight <;>
        simp [emits, supplies, supply, yield, passes, own, inbox, hr, covers, hcovered, hb, hk]

/-- A waypoint is fed when what arrived is enough. -/
theorem available_supply_iff (hc : w.covers q = true) :
    w.Available q (w.supply q) ↔ w.Fed q := by
  have hcovered : (w.flow q).covered = true := hc
  rw [Fed, forall_kind]
  cases hr : w.role with
  | scanner _ _ _ | textLoader _ _ | ingest _ _ | iterative _ | aggregate _ | print _
  | cluster _ _ => simp [Available, requires, inbox, supply, hr, hcovered]
  | selection _ | transform _ | cache _ | compact _ =>
      cases hb : (w.flow q).bypassed <;>
        simp [Available, requires, inbox, supply, hr, hcovered, hb]
  | join _ _ _ =>
      cases hb : (w.flow q).bypassed <;>
        simp [Available, requires, inbox, supply, hr, hcovered, hb, and_comm]

/-- Where a query is not registered, a waypoint is fed. -/
theorem Sound.fed_of_not_covers (hw : w.Sound) (hc : w.covers q = false) : w.Fed q := by
  intro kind
  rw [OrdSet.subset_def]
  intro x hx
  rw [hw.covers_of_requires hx] at hc
  cases hc

end Waypoint

end SharedPlan
