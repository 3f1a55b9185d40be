import SharedPlan.Proofs.Analysis.Recorded

/-!
# SharedPlan.Proofs.Analysis.Settled

What the bottom-up pass comes to, without its course.

Along a topological order every waypoint is visited after all that send to it, so
what it found in its turn is what it has in the end.  In the graph that the pass
leaves, every inbox holds what the senders emit and every waypoint has emitted what its
inboxes yield (`PlanGraph.Settled`, `settled_supplied`), and the pass succeeds for a
query when there every waypoint is fed (`fedAlong_iff`).
-/

namespace SharedPlan

namespace Waypoint

/-- A waypoint gives an attribute of an active query to those above it. -/
def Gives (w : Waypoint) (active : QuerySet) (q : QueryId) (x : SlotId) : Prop :=
  w.passesOn = true ∧ q ∈ active.toList ∧ w.supplies q = true ∧ x ∈ w.yield q

theorem mem_emitted {w : Waypoint} {active : QuerySet} {q : QueryId} {x : SlotId} :
    (∃ s, (w.emitted active).get? q = some s ∧ x ∈ s) ↔ w.Gives active q x := by
  rw [get?_emitted, Gives]
  split
  · rename_i h
    simp [h]
  · rename_i h
    constructor
    · rintro ⟨s, hs, -⟩
      cases hs
    · rintro ⟨hp, hq, hs, -⟩
      exact absurd ⟨hp, hq, hs⟩ h

theorem gives_congr {v w : Waypoint} {active : QuerySet} {q : QueryId} {x : SlotId}
    (h : v.unsupplied = w.unsupplied) (hin : ∀ kind x, x ∈ v.inbox kind q ↔ x ∈ w.inbox kind q) :
    v.Gives active q x ↔ w.Gives active q x := by
  have hpasses : v.passesOn = w.passesOn := by
    rw [← passesOn_unsupplied, h, passesOn_unsupplied]
  have hsupplies : v.supplies q = w.supplies q := by
    rw [← supplies_unsupplied, h, supplies_unsupplied]
  rw [Gives, Gives, hpasses, hsupplies, yield_congr h hin]

/-- Take in what was emitted over each of some edges. -/
def receiveAll (m : QuerySlots) (l : List Edge) (w : Waypoint) : Waypoint :=
  l.foldl (fun w e => w.receive e.kind m) w

theorem unsupplied_receiveAll (m : QuerySlots) (l : List Edge) (w : Waypoint) :
    (w.receiveAll m l).unsupplied = w.unsupplied := by
  induction l generalizing w with
  | nil => rfl
  | cons e rest ih => exact (ih _).trans (unsupplied_receive ..)

theorem produced_receiveAll (m : QuerySlots) (l : List Edge) (w : Waypoint) (q : QueryId) :
    ((w.receiveAll m l).flow q).produced = (w.flow q).produced := by
  induction l generalizing w with
  | nil => rfl
  | cons e rest ih => exact (ih _).trans (produced_receive ..)

theorem mem_inbox_receiveAll {m : QuerySlots} {l : List Edge} {w : Waypoint} {k : EdgeKind}
    {q : QueryId} {x : SlotId} :
    x ∈ (w.receiveAll m l).inbox k q ↔
      x ∈ w.inbox k q ∨ w.covers q = true ∧ (∃ e ∈ l, w.sharesInbox e.kind k) ∧
        ∃ s, m.get? q = some s ∧ x ∈ s := by
  induction l generalizing w with
  | nil => simp [receiveAll]
  | cons e rest ih =>
      have hcovers : (w.receive e.kind m).covers q = w.covers q := by
        rw [← covers_unsupplied, unsupplied_receive, covers_unsupplied]
      have hshares (kind : EdgeKind) :
          (w.receive e.kind m).sharesInbox kind k ↔ w.sharesInbox kind k := by
        rw [← sharesInbox_unsupplied, unsupplied_receive, sharesInbox_unsupplied]
      show x ∈ ((w.receive e.kind m).receiveAll m rest).inbox k q ↔ _
      rw [ih, mem_inbox_receive, hcovers]
      simp only [hshares, List.exists_mem_cons_iff]
      grind

end Waypoint

namespace PlanGraph

variable {g : PlanGraph} {active : QuerySet} {q : QueryId}

/-! ## One visit -/

theorem find?_deliverAll {n : WaypointId} (hn : n.isSentinel = false) (m : QuerySlots)
    (l : List Edge) (g : PlanGraph) :
    (g.deliverAll m l).find? n =
      (g.find? n).map (·.receiveAll m (l.filter fun e => e.receiver = n)) := by
  induction l generalizing g with
  | nil => simp [deliverAll, Waypoint.receiveAll]
  | cons e rest ih =>
      rw [deliverAll, List.foldl_cons]
      show (deliverAll m rest _).find? n = _
      rw [ih]
      by_cases hs : e.receiver.isSentinel = true
      · have hne : e.receiver ≠ n := fun h => by simp [h, hn] at hs
        simp [hs, hne]
      · rw [if_neg hs, deliverAt]
        cases hw : g.find? e.receiver with
        | none =>
            by_cases hen : e.receiver = n
            · rw [← hen, hw]
              rfl
            · simp [hen]
        | some w =>
            simp only [find?_replace, Waypoint.id_receive, id_of_find? hw]
            by_cases hen : n = e.receiver
            · simp [hen, hw, Waypoint.receiveAll]
            · simp [hen, Ne.symm hen]

/-- **A visit**, seen from any waypoint: it stores what it emits, and where an edge leads
from it, what it gives arrives. -/
theorem exists_supplyAt (hg : g.WellFormed) (active : QuerySet) (q : QueryId) {m n : WaypointId}
    {u w : Waypoint} (hu : g.find? m = some u) (hw : g.find? n = some w) :
    ∃ v, (g.supplyAt active m).find? n = some v ∧ v.unsupplied = w.unsupplied ∧
      (∀ k x, x ∈ v.inbox k q ↔ x ∈ w.inbox k q ∨
        w.covers q = true ∧ (∃ kind, ⟨m, n, kind⟩ ∈ g.links ∧ w.sharesInbox kind k) ∧
          u.Gives active q x) ∧
      (v.flow q).produced =
        if n = m ∧ q ∈ active.toList ∧ w.supplies q = true then w.yield q
        else (w.flow q).produced := by
  have hn := hg.proper n (mem_ids_iff.2 ⟨w, hw⟩)
  obtain ⟨w', hw', hstatic, hin, hout⟩ : ∃ w', (g.replace (u.stored active)).find? n = some w' ∧
      w'.unsupplied = w.unsupplied ∧ (∀ k, w'.inbox k q = w.inbox k q) ∧
      (w'.flow q).produced =
        if n = m ∧ q ∈ active.toList ∧ w.supplies q = true then w.yield q
        else (w.flow q).produced := by
    rw [find?_replace, Waypoint.id_stored, id_of_find? hu, hw]
    by_cases hnm : n = m
    · obtain rfl := Option.some.inj ((hnm ▸ hu).symm.trans hw)
      refine ⟨_, if_pos hnm, Waypoint.unsupplied_stored .., fun k => Waypoint.inbox_stored .., ?_⟩
      rw [Waypoint.produced_stored]
      simp [hnm]
    · exact ⟨w, if_neg hnm, rfl, fun _ => rfl, by simp [hnm]⟩
  refine ⟨w'.receiveAll (u.emitted active) ((g.outputs m).filter fun e => e.receiver = n), ?_,
    (Waypoint.unsupplied_receiveAll ..).trans hstatic, fun k x => ?_,
    (Waypoint.produced_receiveAll ..).trans hout⟩
  · simp only [supplyAt, hu]
    rw [find?_deliverAll hn, hw', Option.map_some]
  · have hcovers : w'.covers q = w.covers q := by
      rw [← Waypoint.covers_unsupplied, hstatic, Waypoint.covers_unsupplied]
    have hshares (kind : EdgeKind) : w'.sharesInbox kind k ↔ w.sharesInbox kind k := by
      rw [← Waypoint.sharesInbox_unsupplied, hstatic, Waypoint.sharesInbox_unsupplied]
    rw [Waypoint.mem_inbox_receiveAll, hin, hcovers, Waypoint.mem_emitted]
    simp only [hshares, List.mem_filter, mem_outputs, decide_eq_true_eq]
    refine or_congr_right (and_congr_right fun _ => and_congr_left fun _ => ?_)
    constructor
    · rintro ⟨⟨s, r, kind⟩, ⟨⟨-, hlink, rfl⟩, rfl⟩, hk⟩
      exact ⟨kind, hlink, hk⟩
    · rintro ⟨kind, hlink, hk⟩
      exact ⟨⟨m, n, kind⟩, ⟨⟨mem_ids_iff.2 ⟨u, hu⟩, hlink, rfl⟩, rfl⟩, hk⟩

theorem exists_find?_of_supplyAt {m n : WaypointId} {v : Waypoint}
    (hv : (g.supplyAt active m).find? n = some v) : ∃ w, g.find? n = some w := by
  rw [← mem_ids_iff, ← ids_supplyAt active g m]
  exact mem_ids_iff.2 ⟨v, hv⟩

/-- A visit leaves the inboxes of a waypoint alone to which no edge leads from it. -/
theorem quiet_supplyAt (hg : g.WellFormed) (q : QueryId) {m n : WaypointId} (hm : m ∈ g.ids)
    (hback : ∀ kind, ⟨m, n, kind⟩ ∉ g.links) {v w : Waypoint} (hw : g.find? n = some w)
    (hv : (g.supplyAt active m).find? n = some v) :
    v.unsupplied = w.unsupplied ∧ ∀ k x, x ∈ v.inbox k q ↔ x ∈ w.inbox k q := by
  obtain ⟨u, hu⟩ := mem_ids_iff.1 hm
  obtain ⟨v', hv', hstatic, hin, -⟩ := exists_supplyAt hg active q hu hw
  obtain rfl := Option.some.inj (hv.symm.trans hv')
  refine ⟨hstatic, fun k x => (hin k x).trans (or_iff_left ?_)⟩
  rintro ⟨-, ⟨kind, hlink, -⟩, -⟩
  exact hback kind hlink

/-! ## The whole pass -/

/-- The waypoints of a list have been visited, each when all that send to it had been: an
inbox holds what they give over the edges that lead into it, and they have emitted what
their inboxes yield. -/
structure Settled (g : PlanGraph) (visited : List WaypointId) (active : QuerySet) (q : QueryId) :
    Prop where
  inbox : ∀ {n w k x}, g.find? n = some w → (x ∈ w.inbox k q ↔
    ∃ m ∈ visited, ∃ u, g.find? m = some u ∧ w.covers q = true ∧
      (∃ kind, ⟨m, n, kind⟩ ∈ g.links ∧ w.sharesInbox kind k) ∧ u.Gives active q x)
  produced : ∀ {n w}, g.find? n = some w → (w.flow q).produced =
    if n ∈ visited ∧ q ∈ active.toList ∧ w.supplies q = true then w.yield q else ∅

/-- When a cycle begins, nothing has arrived or been emitted. -/
theorem settled_beginCycle (g : PlanGraph) (active : QuerySet) (q : QueryId) :
    g.beginCycle.Settled [] active q where
  inbox {n w k x} hw := by
    rw [find?_beginCycle] at hw
    obtain ⟨u, -, rfl⟩ := Option.map_eq_some_iff.1 hw
    simp [Waypoint.inbox_beginCycle]
  produced {n w} hw := by
    rw [find?_beginCycle] at hw
    obtain ⟨u, -, rfl⟩ := Option.map_eq_some_iff.1 hw
    simp [Flow.beginCycle]

section Visit

variable (hg : g.WellFormed) {visited : List WaypointId} (h : g.Settled visited active q)
  {m : WaypointId} (hm : m ∈ g.ids)
  (hback : ∀ n ∈ visited ++ [m], ∀ kind, ⟨m, n, kind⟩ ∉ g.links) {n : WaypointId} {v : Waypoint}
  (hv : (g.supplyAt active m).find? n = some v)

include hg hm hback

/-- What was visited gives what it gave. -/
theorem gives_supplyAt (hn : n ∈ visited ++ [m]) {w : Waypoint} (hw : g.find? n = some w)
    (hv : (g.supplyAt active m).find? n = some v) (x : SlotId) :
    v.Gives active q x ↔ w.Gives active q x := by
  obtain ⟨hstatic, hin⟩ := quiet_supplyAt hg q hm (hback n hn) hw hv
  exact Waypoint.gives_congr hstatic hin

include h hv

theorem Settled.inbox_supplyAt {k : EdgeKind} {x : SlotId} :
    x ∈ v.inbox k q ↔ ∃ i ∈ visited ++ [m], ∃ u, (g.supplyAt active m).find? i = some u ∧
      v.covers q = true ∧
        (∃ kind, ⟨i, n, kind⟩ ∈ (g.supplyAt active m).links ∧ v.sharesInbox kind k) ∧
          u.Gives active q x := by
  obtain ⟨u, hu⟩ := mem_ids_iff.1 hm
  obtain ⟨w, hw⟩ := exists_find?_of_supplyAt hv
  obtain ⟨v', hv', hstatic, hin, -⟩ := exists_supplyAt hg active q hu hw
  obtain rfl := Option.some.inj (hv.symm.trans hv')
  have hcovers : v.covers q = w.covers q := by
    rw [← Waypoint.covers_unsupplied, hstatic, Waypoint.covers_unsupplied]
  have hshares (kind : EdgeKind) : v.sharesInbox kind k ↔ w.sharesInbox kind k := by
    rw [← Waypoint.sharesInbox_unsupplied, hstatic, Waypoint.sharesInbox_unsupplied]
  have hlinks : (g.supplyAt active m).links = g.links :=
    links_eq_of_view (unsupplied_supplyAt hg.nodup active m)
  simp only [hin, h.inbox hw, hcovers, hshares, hlinks]
  constructor
  · rintro (⟨i, hi, w', hw', hc, hlink, hgives⟩ | ⟨hc, hlink, hgives⟩)
    · obtain ⟨v', hv', -⟩ := exists_supplyAt hg active q hu hw'
      have hi := List.mem_append_left [m] hi
      exact ⟨i, hi, v', hv', hc, hlink, (gives_supplyAt hg hm hback hi hw' hv' x).2 hgives⟩
    · obtain ⟨v', hv', -⟩ := exists_supplyAt hg active q hu hu
      have hi := List.mem_append_right visited (List.mem_singleton_self m)
      exact ⟨m, hi, v', hv', hc, hlink, (gives_supplyAt hg hm hback hi hu hv' x).2 hgives⟩
  · rintro ⟨i, hi, v', hv', hc, hlink, hgives⟩
    obtain ⟨w', hw'⟩ := exists_find?_of_supplyAt hv'
    have hgives := (gives_supplyAt hg hm hback hi hw' hv' x).1 hgives
    rcases List.mem_append.1 hi with hi | hi
    · exact .inl ⟨i, hi, w', hw', hc, hlink, hgives⟩
    · obtain rfl := List.mem_singleton.1 hi
      obtain rfl := Option.some.inj (hu.symm.trans hw')
      exact .inr ⟨hc, hlink, hgives⟩

theorem Settled.produced_supplyAt : (v.flow q).produced =
    if n ∈ visited ++ [m] ∧ q ∈ active.toList ∧ v.supplies q = true then v.yield q else ∅ := by
  obtain ⟨u, hu⟩ := mem_ids_iff.1 hm
  obtain ⟨w, hw⟩ := exists_find?_of_supplyAt hv
  obtain ⟨v', hv', hstatic, -, hout⟩ := exists_supplyAt hg active q hu hw
  obtain rfl := Option.some.inj (hv.symm.trans hv')
  have hsupplies : v.supplies q = w.supplies q := by
    rw [← Waypoint.supplies_unsupplied, hstatic, Waypoint.supplies_unsupplied]
  rw [hout, h.produced hw, hsupplies]
  by_cases hn : n ∈ visited ++ [m]
  · have hyield : v.yield q = w.yield q :=
      Waypoint.yield_congr hstatic (quiet_supplyAt hg q hm (hback n hn) hw hv).2
    by_cases hemits : q ∈ active.toList ∧ w.supplies q = true
    · rcases List.mem_append.1 hn with hn' | hn'
      · simp [hn, hn', hemits, hyield]
      · simp [List.mem_singleton.1 hn', hemits, hyield]
    · simp [hemits]
  · have hnm : n ≠ m := fun h => hn (List.mem_append_right _ (List.mem_singleton.2 h))
    have hnv : n ∉ visited := fun h => hn (List.mem_append_left _ h)
    simp [hn, hnm, hnv]

omit hv

/-- A visit settles a waypoint from which no edge leads back. -/
theorem Settled.supplyAt : (g.supplyAt active m).Settled (visited ++ [m]) active q where
  inbox hv := h.inbox_supplyAt hg hm hback hv
  produced hv := h.produced_supplyAt hg hm hback hv

end Visit

/-- Visits from which no edge leads to a waypoint do not change whether it is fed. -/
theorem fed_supplied_iff (active : QuerySet) (q : QueryId) {k : PlanGraph} (hk : k.WellFormed)
    {rest : List WaypointId} (hrest : ∀ m ∈ rest, m ∈ k.ids) {n : WaypointId}
    (hback : ∀ m ∈ rest, ∀ kind, ⟨m, n, kind⟩ ∉ k.links) {w : Waypoint} (hw : k.find? n = some w) :
    ∃ v, (k.supplied active rest).find? n = some v ∧ (v.Fed q ↔ w.Fed q) := by
  induction rest generalizing k w with
  | nil => exact ⟨w, hw, Iff.rfl⟩
  | cons m rest ih =>
      obtain ⟨u, hu⟩ := mem_ids_iff.1 (hrest m List.mem_cons_self)
      obtain ⟨w', hw', -⟩ := exists_supplyAt hk active q hu hw
      obtain ⟨hstatic, hin⟩ := quiet_supplyAt hk q (hrest m List.mem_cons_self)
        (hback m List.mem_cons_self) hw hw'
      have hlinks : (k.supplyAt active m).links = k.links :=
        links_eq_of_view (unsupplied_supplyAt hk.nodup active m)
      obtain ⟨v, hv, hfed⟩ := ih (wellFormed_supplyAt hk active m)
        (fun i hi => by rw [ids_supplyAt]; exact hrest i (List.mem_cons_of_mem _ hi))
        (fun i hi => hlinks ▸ hback i (List.mem_cons_of_mem _ hi)) hw'
      refine ⟨v, hv, hfed.trans (forall_congr' fun kind => forall_congr' fun x => ?_)⟩
      have hrequires : w'.requires kind q = w.requires kind q := by
        rw [← Waypoint.requires_unsupplied, hstatic, Waypoint.requires_unsupplied]
      rw [hrequires, hin]

/-! ## Along an order -/

section Order

variable {order : List WaypointId} (hg : g.WellFormed) (ho : g.Forward order)

include hg ho

theorem not_mem_links_self {m : WaypointId} (hm : m ∈ g.ids) (kind : EdgeKind) :
    ⟨m, m, kind⟩ ∉ g.links := fun hlink =>
  Nat.lt_irrefl _ (ho.idxOf_lt hg hm hm hlink)

/-- No edge leads from a waypoint of the order to an earlier one. -/
theorem not_mem_links_of_append {l₁ l₂ : List WaypointId} (hsplit : order = l₁ ++ l₂)
    {m n : WaypointId} (hm : m ∈ l₂) (hn : n ∈ l₁) (kind : EdgeKind) :
    ⟨m, n, kind⟩ ∉ g.links := by
  intro hlink
  have hlt := ho.idxOf_lt hg
    (ho.perm.mem_iff.1 (hsplit ▸ List.mem_append_right _ hm))
    (ho.perm.mem_iff.1 (hsplit ▸ List.mem_append_left _ hn)) hlink
  have hnot : m ∉ l₁ := by
    have hnodup := ho.perm.nodup_iff.2 hg.nodup
    rw [hsplit, List.nodup_append] at hnodup
    exact fun h => hnodup.2.2 m h m hm rfl
  rw [hsplit, List.idxOf_append, List.idxOf_append, if_neg hnot, if_pos hn] at hlt
  have := List.idxOf_lt_length_of_mem hn
  omega

/-- **The pass settles the graph.** -/
theorem Forward.settled_supplied (active : QuerySet) (q : QueryId) :
    (g.beginCycle.supplied active order).Settled order active q := by
  have pass (rest visited : List WaypointId) (k : PlanGraph) (hsplit : order = visited ++ rest)
      (hk : k.WellFormed) (hids : k.ids = g.ids) (hlinks : k.links = g.links)
      (hs : k.Settled visited active q) : (k.supplied active rest).Settled order active q := by
    induction rest generalizing visited k with
    | nil => rwa [hsplit, List.append_nil]
    | cons m rest ih =>
        have hsplit' : order = (visited ++ [m]) ++ rest := by simp [hsplit]
        have hm : m ∈ g.ids := by
          rw [← ho.perm.mem_iff, hsplit]
          exact List.mem_append_right _ List.mem_cons_self
        refine ih _ (k.supplyAt active m) hsplit' (wellFormed_supplyAt hk active m) ?_ ?_ ?_
        · rw [ids_supplyAt, hids]
        · rw [links_eq_of_view (unsupplied_supplyAt hk.nodup active m), hlinks]
        · refine hs.supplyAt hk (hids ▸ hm) fun n hn kind => ?_
          rw [hlinks]
          rcases List.mem_append.1 hn with hn | hn
          · exact not_mem_links_of_append hg ho hsplit List.mem_cons_self hn kind
          · exact List.mem_singleton.1 hn ▸ not_mem_links_self hg ho hm kind
  exact pass order [] g.beginCycle rfl (wellFormed_beginCycle hg) (ids_beginCycle g) rfl
    (settled_beginCycle g active q)

/-- **The pass succeeds for a query** when in the end every waypoint is fed. -/
theorem Forward.fedAlong_iff :
    g.beginCycle.FedAlong active q order ↔
      ∀ n w, (g.beginCycle.supplied active order).find? n = some w → w.Fed q := by
  have pass (rest visited : List WaypointId) (k : PlanGraph) (hsplit : order = visited ++ rest)
      (hk : k.WellFormed) (hids : k.ids = g.ids) (hlinks : k.links = g.links) :
      k.FedAlong active q rest ↔
        ∀ n ∈ rest, ∀ w, (k.supplied active rest).find? n = some w → w.Fed q := by
    induction rest generalizing visited k with
    | nil => simp [FedAlong]
    | cons m rest ih =>
        have hsplit' : order = (visited ++ [m]) ++ rest := by simp [hsplit]
        have hmem : ∀ i ∈ m :: rest, i ∈ g.ids := fun i hi => by
          rw [← ho.perm.mem_iff, hsplit]
          exact List.mem_append_right _ hi
        have hback : ∀ i ∈ m :: rest, ∀ kind, ⟨i, m, kind⟩ ∉ k.links := fun i hi kind => by
          rw [hlinks]
          rcases List.mem_cons.1 hi with rfl | hi
          · exact not_mem_links_self hg ho (hmem i List.mem_cons_self) kind
          · exact not_mem_links_of_append hg ho hsplit' hi
              (List.mem_append_right _ (List.mem_singleton_self m)) kind
        have hlinks' : (k.supplyAt active m).links = g.links := by
          rw [links_eq_of_view (unsupplied_supplyAt hk.nodup active m), hlinks]
        obtain ⟨w, hw⟩ := mem_ids_iff.1 (hids ▸ hmem m List.mem_cons_self)
        obtain ⟨v, hv, hfed⟩ := fed_supplied_iff active q hk
          (fun i hi => hids ▸ hmem i hi) hback hw
        rw [FedAlong, ih _ (k.supplyAt active m) hsplit' (wellFormed_supplyAt hk active m)
          (by rw [ids_supplyAt, hids]) hlinks', List.forall_mem_cons]
        refine and_congr ?_ Iff.rfl
        rw [hv, hw]
        simp only [Option.some.injEq, forall_eq', hfed]
  rw [pass order [] g.beginCycle rfl (wellFormed_beginCycle hg) (ids_beginCycle g) rfl]
  refine forall_congr' fun n => ⟨fun h w hw => h ?_ w hw, fun h _ => h⟩
  rw [ho.perm.mem_iff, ← ids_beginCycle, ← ids_supplied active order]
  exact mem_ids_iff.2 ⟨w, hw⟩

end Order

section Topological

variable {order : List WaypointId} (hg : g.WellFormed) (ho : g.topologicalOrder = .ok order)

include hg ho

theorem settled_supplied (active : QuerySet) (q : QueryId) :
    (g.beginCycle.supplied active order).Settled order active q :=
  (forward_topologicalOrder hg ho).settled_supplied hg active q

theorem fedAlong_iff :
    g.beginCycle.FedAlong active q order ↔
      ∀ n w, (g.beginCycle.supplied active order).find? n = some w → w.Fed q :=
  (forward_topologicalOrder hg ho).fedAlong_iff hg

end Topological

end PlanGraph

end SharedPlan
