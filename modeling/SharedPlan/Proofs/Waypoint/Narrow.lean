import SharedPlan.Proofs.Waypoint.Balance

/-!
# SharedPlan.Proofs.Waypoint.Narrow

Scanners that read no more than was projected.

`Waypoint.narrow` lets every query that reads a scanner use there what the last cycle
projected, and changes nothing else.  Waypoints have the same `outline` when they
differ in nothing but what scanners read and what the bottom-up pass wrote; whatever
else the rules of a role look at is told by the outline.
-/

namespace SharedPlan

namespace Waypoint

/-! ## Projected and dropped columns -/

/-- What a scanner keeps for a query; other waypoints keep no such share. -/
def scan? (w : Waypoint) (q : QueryId) : Option ScannerShare :=
  match w.role with
  | .scanner _ _ shares => some (shares.get q)
  | _ => none

/-- The columns that a scanner found demanded by a query in the last cycle. -/
def projected? (w : Waypoint) (q : QueryId) : Option SlotSet := (w.scan? q).bind (·.projected)

/-- The columns that a scanner may skip for a query. -/
def dropped? (w : Waypoint) (q : QueryId) : Option SlotSet := (w.scan? q).bind (·.dropped)

/-- Whether a waypoint is a scanner that a query reads. -/
def reads (w : Waypoint) (q : QueryId) : Bool := (w.scan? q).any (·.reads)

/-- What is noted of a scan is noted with its query. -/
@[simp] theorem scan?_only (w : Waypoint) (q : QueryId) : (w.only q).scan? q = w.scan? q := by
  cases hr : w.role <;> simp [scan?, hr, Role.only]

@[simp] theorem projected?_only (w : Waypoint) (q : QueryId) :
    (w.only q).projected? q = w.projected? q := by
  simp [projected?]

@[simp] theorem dropped?_only (w : Waypoint) (q : QueryId) :
    (w.only q).dropped? q = w.dropped? q := by
  simp [dropped?]

end Waypoint

/-- The record where the attributes needed here are given ones. -/
def Flow.reading (slots : SlotSet) (f : Flow) : Flow := { f with used := slots }

namespace Waypoint

/-- The waypoint where a query that reads it uses what was projected. -/
def narrowFor (w : Waypoint) (q : QueryId) : Waypoint :=
  if w.reads q then w.modifyFlow q (·.reading ((w.projected? q).getD ∅)) else w

/-- The waypoint where every active query that reads it uses what was projected. -/
def narrow (active : QuerySet) (w : Waypoint) : Waypoint := active.toList.foldl narrowFor w

@[simp] theorem role_narrowFor (w : Waypoint) (q : QueryId) : (w.narrowFor q).role = w.role := by
  unfold narrowFor
  split <;> rfl

/-- Narrowing a query changes its own record, and only where it reads. -/
theorem flow_narrowFor (w : Waypoint) (q r : QueryId) :
    (w.narrowFor q).flow r =
      if r = q ∧ w.reads q = true then (w.flow q).reading ((w.projected? q).getD ∅)
      else w.flow r := by
  unfold narrowFor
  cases hq : w.reads q with
  | false => simp
  | true => simp [flow_modifyFlow]

/-- **Narrowing changes the columns that readers use, and nothing else.** -/
theorem narrow_eq (active : QuerySet) (w : Waypoint) :
    (w.narrow active).id = w.id ∧ (w.narrow active).name = w.name ∧
      (w.narrow active).role = w.role ∧
      ∀ q, (w.narrow active).flow q =
        if q ∈ active.toList ∧ w.reads q = true then
          (w.flow q).reading ((w.projected? q).getD ∅)
        else w.flow q := by
  have fold (l : List QueryId) (v : Waypoint) :
      (l.foldl narrowFor v).id = v.id ∧ (l.foldl narrowFor v).name = v.name ∧
        (l.foldl narrowFor v).role = v.role ∧
        ∀ q, (l.foldl narrowFor v).flow q =
          if q ∈ l ∧ v.reads q = true then (v.flow q).reading ((v.projected? q).getD ∅)
          else v.flow q := by
    induction l generalizing v with
    | nil => simp
    | cons r rest ih =>
        obtain ⟨hid, hname, hrole, hflow⟩ := ih (v.narrowFor r)
        have hscan (q : QueryId) : (v.narrowFor r).scan? q = v.scan? q := by simp [scan?]
        have hreads (q : QueryId) : (v.narrowFor r).reads q = v.reads q := by simp [reads, hscan]
        have hproj (q : QueryId) : (v.narrowFor r).projected? q = v.projected? q := by
          simp [projected?, hscan]
        have hsame : (v.narrowFor r).id = v.id ∧ (v.narrowFor r).name = v.name := by
          unfold narrowFor
          split <;> exact ⟨rfl, rfl⟩
        refine ⟨hid.trans hsame.1, hname.trans hsame.2, hrole.trans (role_narrowFor v r),
          fun q => ?_⟩
        simp only [List.foldl_cons, hflow, hreads, hproj, flow_narrowFor, List.mem_cons]
        by_cases hqr : q = r
        · subst hqr
          cases v.reads q <;> simp [Flow.reading]
        · simp [hqr]
  exact fold active.toList w

end Waypoint

/-! ## Outlines -/

/-- The record without what the bottom-up pass wrote, and, on a scanner, without what it reads. -/
def Flow.outline (scans : Bool) (f : Flow) : Flow :=
  if scans then { f.unsupplied with used := ∅ } else f.unsupplied

/-- Whether a role is that of a scanner. -/
def Role.scans : Role → Bool
  | scanner .. => true
  | _ => false

namespace Waypoint

/-- What registration wrote for a query, except for what scanners read. -/
def outline (q : QueryId) (w : Waypoint) : Waypoint :=
  { w with
    flows := (∅ : QueryTable Flow).set q ((w.flow q).outline w.role.scans)
    role := w.role.unsupplied.only q }

@[simp] theorem id_outline (q : QueryId) (w : Waypoint) : (w.outline q).id = w.id := rfl

@[simp] theorem role_outline (q : QueryId) (w : Waypoint) :
    (w.outline q).role = w.role.unsupplied.only q := rfl

/-- The outline of a record leaves out what passes compute and what readers use. -/
@[simp] theorem flow_outline (q : QueryId) (w : Waypoint) :
    (w.outline q).flow q = (w.flow q).outline w.role.scans :=
  QueryTable.get_set_self _ _ _

@[simp] theorem kind_outline (q : QueryId) (w : Waypoint) : (w.outline q).kind = w.kind := by
  simp only [kind, role_outline, Role.kind_only]
  exact kind_unsupplied w

/-- The outline shows which queries are registered. -/
@[simp] theorem covers_outline (q : QueryId) (w : Waypoint) :
    (w.outline q).covers q = w.covers q := by
  cases hr : w.role <;> simp [covers, hr, Role.scans, Flow.outline, Flow.unsupplied]

/-- It shows which queries are emitted for. -/
@[simp] theorem supplies_outline (q : QueryId) (w : Waypoint) :
    (w.outline q).supplies q = w.supplies q := by
  cases hr : w.role <;>
    simp [supplies, hr, Role.unsupplied, Role.only, ScannerShare.unsupplied]

@[simp] theorem passesOn_outline (q : QueryId) (w : Waypoint) :
    (w.outline q).passesOn = w.passesOn := by
  simp [passesOn]

/-- It shows which inbox an edge leads to. -/
@[simp] theorem sharesInbox_outline (q : QueryId) (w : Waypoint) (kind k : EdgeKind) :
    (w.outline q).sharesInbox kind k ↔ w.sharesInbox kind k := by
  cases hr : w.role <;> simp [sharesInbox, hr, Role.unsupplied, Role.only]

@[simp] theorem passes_outline (q : QueryId) (w : Waypoint) (kind : EdgeKind) :
    (w.outline q).passes kind q = w.passes kind q := by
  cases hr : w.role <;> cases kind <;>
    simp [passes, hr, Role.scans, Role.unsupplied, Role.only, Flow.outline, Flow.unsupplied,
      JoinShare.unsupplied, JoinShare.joinKind]

/-- It shows what is required. -/
@[simp] theorem requires_outline (q : QueryId) (w : Waypoint) (kind : EdgeKind) :
    (w.outline q).requires kind q = w.requires kind q := by
  cases hr : w.role <;> cases kind <;>
    simp [requires, hr, Role.scans, Role.unsupplied, Role.only, Flow.outline, Flow.unsupplied,
      ScannerShare.unsupplied]

/-- It shows which queries are carried on. -/
@[simp] theorem carries_outline (q : QueryId) (w : Waypoint) (kind : EdgeKind) :
    (w.outline q).carries kind q = w.carries kind q := by
  cases hr : w.role <;> cases kind <;>
    simp [carries, hr, Role.scans, Role.unsupplied, Role.only, Flow.outline, Flow.unsupplied,
      ScannerShare.unsupplied]

/-- It shows which demands are compared with what is emitted. -/
@[simp] theorem guards_outline (q : QueryId) (w : Waypoint) (kind : EdgeKind) :
    (w.outline q).guards kind q = w.guards kind q := by
  cases hr : w.role <;> cases kind <;>
    simp [guards, hr, Role.scans, Role.unsupplied, Role.only, Flow.outline, Flow.unsupplied,
      ScannerShare.unsupplied]

@[simp] theorem reads_outline (q : QueryId) (w : Waypoint) :
    (w.outline q).reads q = w.reads q := by
  cases hr : w.role <;>
    simp [reads, scan?, hr, Role.unsupplied, Role.only, ScannerShare.unsupplied]

/-- Where nothing is scanned it shows what a waypoint computes itself. -/
theorem own_outline {q : QueryId} {w : Waypoint} (hw : w.role.scans = false) :
    (w.outline q).own q = w.own q := by
  cases hr : w.role <;>
    simp_all [own, Role.scans, Role.unsupplied, Role.only, Flow.outline, Flow.unsupplied]

/-- The outline does not show what an upward pass left. -/
theorem outline_unsupplied (q : QueryId) (w : Waypoint) : w.unsupplied.outline q = w.outline q := by
  have hscans : w.role.unsupplied.scans = w.role.scans := by
    cases w.role <;> rfl
  have hflow : ((w.flow q).unsupplied).outline w.role.scans = (w.flow q).outline w.role.scans := rfl
  have hrole : w.role.unsupplied.unsupplied.only q = w.role.unsupplied.only q := by
    cases w.role with
    | scanner _ _ _ =>
        exact congrArg (fun t => (Role.scanner _ _ t).only q)
          (QueryTable.mapAll_mapAll rfl rfl (fun _ => rfl) _)
    | join _ _ _ =>
        exact congrArg (fun t => (Role.join _ _ t).only q)
          (QueryTable.mapAll_mapAll rfl rfl (fun _ => rfl) _)
    | _ => rfl
  simp only [outline, flow_unsupplied, role_unsupplied, hscans, hflow, hrole]
  rfl

/-- What a waypoint asks for below is told by its outline and, on a join, by what arrived. -/
theorem mem_below_iff {w : Waypoint} {q : QueryId} {kind : EdgeKind} {needed : SlotSet}
    {x : SlotId} :
    x ∈ w.below kind q needed ↔ x ∈ (w.outline q).below kind q needed ∨
      w.kind = .join ∧ w.passes kind q = true ∧ x ∈ needed ∧ x ∈ w.inbox kind q := by
  cases hr : w.role with
  | join _ _ shares =>
      cases hb : (w.flow q).bypassed <;>
        cases hf : ((shares.get q).kind.getD .inner).forwardsRight <;>
        cases kind <;>
        simp +contextual [below, Waypoint.kind, passes, inbox, hr, hb, hf, Role.kind, Role.scans,
          Role.unsupplied, Role.only, Flow.outline, Flow.unsupplied, JoinShare.unsupplied,
          JoinShare.joinKind]
  | _ =>
      cases kind <;>
        simp [below, Waypoint.kind, hr, Role.kind, Role.scans, Role.unsupplied, Role.only,
          Flow.outline, Flow.unsupplied, ScannerShare.unsupplied, Flow.forward]

/-- Narrowing a scanner does not show in its outline. -/
theorem outline_narrow (active : QuerySet) (q : QueryId) (w : Waypoint) :
    (w.narrow active).beginCycle.outline q = w.beginCycle.outline q := by
  obtain ⟨hid, hname, hrole, hflow⟩ := narrow_eq active w
  have hreads : w.reads q = true → w.role.scans = true := by
    cases hr : w.role <;> simp [reads, scan?, hr, Role.scans]
  have hscans : w.role.beginCycle.scans = w.role.scans := by
    cases w.role <;> rfl
  have houtline : ((w.narrow active).flow q).beginCycle.outline w.role.scans =
      (w.flow q).beginCycle.outline w.role.scans := by
    rw [hflow]
    split
    · rename_i h
      simp [hreads h.2, Flow.outline, Flow.reading, Flow.beginCycle, Flow.unsupplied]
    · rfl
  simp only [outline, flow_beginCycle]
  simp only [beginCycle, hid, hname, hrole, hscans, houtline]

/-- A sound waypoint stays so when it is narrowed. -/
theorem sound_narrow {active : QuerySet} {w : Waypoint} (hw : w.Sound) :
    (w.narrow active).Sound := by
  obtain ⟨-, -, hrole, hflow⟩ := narrow_eq active w
  intro q
  have hq := hw q
  rw [hrole, hflow]
  split
  · rename_i h
    cases hr : w.role <;> simp_all [reads, scan?, Agrees, Flow.reading]
  · exact hq

/-! ## The walk over a scanner -/

variable {w : Waypoint} {kind : EdgeKind} {q : QueryId} {needed : SlotSet} {e : QueryExit}

@[simp] theorem role_recordExit : (w.recordExit kind e).role = w.role := rfl

/-- A scanner that a query reads writes down what it is asked for by readers, and nothing else. -/
theorem scan?_answered :
    (w.answered kind q needed e).scan? q =
      if w.reads q = true ∧ kind = .flowThrough then
        (w.scan? q).map fun s =>
          { s with
            projected := some ((w.projected? q).getD ∅ ∪ needed)
            dropped := some ((w.flow q).used \ ((w.projected? q).getD ∅ ∪ needed)) }
      else w.scan? q := by
  cases hr : w.role with
  | scanner _ _ shares =>
      cases kind with
      | flowThrough =>
          cases hs : (shares.get q).reads <;>
            simp [answered, carries, reads, projected?, scan?, hr, hs, note, QueryTable.get_modify]
      | terminating =>
          cases hs : (shares.get q).writes <;>
            simp [answered, carries, scan?, hr, hs, note]
  | join _ _ _ =>
      cases hb : (w.flow q).bypassed <;> cases kind <;>
        simp [answered, carries, reads, scan?, hr, hb, note]
  | _ => simp [answered, carries, reads, scan?, hr, note]

/-- What a scanner projects for a query grows with what its readers are asked for. -/
theorem projected?_answered :
    (w.answered kind q needed e).projected? q =
      if w.reads q = true ∧ kind = .flowThrough then
        some ((w.projected? q).getD ∅ ∪ needed)
      else w.projected? q := by
  rw [projected?, scan?_answered]
  split
  · rename_i h
    cases hs : w.scan? q with
    | none => simp [reads, hs] at h
    | some s => simp
  · rfl

/-- What a scanner may skip for a query is what it reads and does not project. -/
theorem dropped?_answered :
    (w.answered kind q needed e).dropped? q =
      if w.reads q = true ∧ kind = .flowThrough then
        some ((w.flow q).used \ ((w.projected? q).getD ∅ ∪ needed))
      else w.dropped? q := by
  rw [dropped?, scan?_answered]
  split
  · rename_i h
    cases hs : w.scan? q with
    | none => simp [reads, hs] at h
    | some s => simp
  · rfl

/-- Answers do not change which queries read. -/
@[simp] theorem reads_unasked (w : Waypoint) (q : QueryId) : w.unasked.reads q = w.reads q := by
  cases hr : w.role <;> simp [reads, scan?, hr, Role.unasked, ScannerShare.unasked]

@[simp] theorem reads_answered :
    (w.answered kind q needed e).reads q = w.reads q := by
  rw [← reads_unasked, unasked_answered, reads_unasked]

/-- Nor does the start of a cycle. -/
@[simp] theorem reads_beginCycle (w : Waypoint) (q : QueryId) :
    w.beginCycle.reads q = w.reads q := by
  have hrole : w.beginCycle.role = w.role.beginCycle := rfl
  cases hr : w.role with
  | scanner _ _ shares =>
      simp only [reads, scan?, hrole, hr, Role.beginCycle]
      rw [QueryTable.get_mapAll rfl]
      rfl
  | _ => simp [reads, scan?, hrole, hr, Role.beginCycle]

/-- Before the walks of a cycle, nothing is projected or dropped. -/
theorem scan?_quiet {v w : Waypoint} (hv : v.unsupplied = w.beginCycle.unsupplied) (q : QueryId) :
    v.projected? q = none ∧ v.dropped? q = none := by
  have hrole : v.role.unsupplied = w.role.beginCycle.unsupplied := congrArg (·.role) hv
  cases hr : v.role with
  | scanner _ _ shares =>
      cases hr' : w.role with
      | scanner _ _ shares' =>
          rw [hr, hr'] at hrole
          have hshares := congrArg (·.get q) (Role.scanner.inj hrole).2.2
          simp only [ScannerShare.get_unsupplied] at hshares
          rw [QueryTable.get_mapAll rfl] at hshares
          have hprojected : (shares.get q).projected = none := congrArg (·.projected) hshares
          have hdropped : (shares.get q).dropped = none := congrArg (·.dropped) hshares
          simp [projected?, dropped?, scan?, hr, hprojected, hdropped]
      | _ => simp [hr, hr', Role.unsupplied, Role.beginCycle] at hrole
  | _ => simp [projected?, dropped?, scan?, hr]

/-- A reader emits the columns that it uses. -/
theorem own_of_reads (h : w.reads q = true) : w.own q = (w.flow q).used := by
  cases hr : w.role <;> simp_all [reads, scan?, own]

/-- A scanner projects for a query what it emits, and skips what it reads and does not project. -/
structure Thrifty (w : Waypoint) (q : QueryId) : Prop where
  projected : (w.projected? q).getD ∅ ⊆ (w.flow q).produced
  dropped : ∀ x ∈ (w.dropped? q).getD ∅,
    w.reads q = true ∧ x ∈ (w.flow q).used ∧ x ∉ (w.projected? q).getD ∅

/-- Answering a demand keeps the projection within the columns used. -/
theorem Thrifty.answered (h : w.Thrifty q) (hg : w.Grants kind q needed) :
    (w.answered kind q needed e).Thrifty q := by
  have hflow : ((w.answered kind q needed e).flow q).unasked = (w.flow q).unasked := by
    rw [← flow_unasked, unasked_answered, flow_unasked]
  have hproduced : ((w.answered kind q needed e).flow q).produced = (w.flow q).produced :=
    congrArg (·.produced) hflow
  have hused : ((w.answered kind q needed e).flow q).used = (w.flow q).used :=
    congrArg (·.used) hflow
  by_cases hread : w.reads q = true ∧ kind = .flowThrough
  · have hneeded : needed ⊆ (w.flow q).produced := by
      obtain ⟨hr, rfl⟩ := hread
      refine hg ?_
      cases hrole : w.role <;> simp_all [reads, scan?, guards]
    constructor
    · rw [projected?_answered, if_pos hread, hproduced]
      intro x hx
      exact (OrdSet.mem_union.1 hx).elim (h.projected x) (hneeded x)
    · rw [projected?_answered, dropped?_answered, if_pos hread, if_pos hread, hused, reads_answered]
      exact fun x hx => ⟨hread.1, OrdSet.mem_sdiff.1 hx⟩
  · constructor
    · rw [projected?_answered, if_neg hread, hproduced]
      exact h.projected
    · rw [projected?_answered, dropped?_answered, if_neg hread, if_neg hread, hused, reads_answered]
      exact h.dropped

end Waypoint

end SharedPlan
