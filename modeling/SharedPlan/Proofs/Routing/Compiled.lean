import SharedPlan.Proofs.Graph.Order
import SharedPlan.Routing.OfGraph

/-!
# SharedPlan.Proofs.Routing.Compiled

The table that is compiled from a graph.

`RoutingTable.Holds` says of a table which waypoints it lists and which exits every link
carries; that every link is stored alike at both of its ends and carries something is
part of it, so it leaves nothing of a table open.  Each way to grow a table adds to what the
table holds what it says and nothing else.  Over a well-formed graph compilation succeeds,
and a link carries what the receiver recorded for an edge between the two and the
sender takes part in (`exists_routing`).
-/

namespace SharedPlan

namespace RoutingTable

/-! ## What a table holds -/

/-- The exits that arrive over a link, if there is such a link. -/
def linkInto? (t : RoutingTable) (sender receiver : WaypointId) : Option ExitSet :=
  (t.nodes.get? receiver).bind fun links => links.senders.get? sender

/-- An exit travels over a link. -/
def Carries (t : RoutingTable) (sender receiver : WaypointId) (e : QueryExit) : Prop :=
  ∃ exits, t.link? sender receiver = some exits ∧ e ∈ exits

/-- A table lists some waypoints and lets exits travel as a relation says. -/
structure Holds (t : RoutingTable) (ids : List WaypointId)
    (C : WaypointId → WaypointId → QueryExit → Prop) : Prop where
  contains : ∀ id, t.contains id = true ↔ id ∈ ids
  carries : ∀ m n e, t.Carries m n e ↔ C m n e
  /-- No link is stored without an exit. -/
  inhabited : ∀ m n exits, t.link? m n = some exits → ∃ e, e ∈ exits
  /-- Both ends of a link store the same. -/
  mirrored : ∀ m n, t.linkInto? m n = t.link? m n

/-- What a table holds is a matter of the links that there are, not of how they are described. -/
theorem Holds.congr {t : RoutingTable} {ids : List WaypointId}
    {C D : WaypointId → WaypointId → QueryExit → Prop} (h : t.Holds ids C)
    (hCD : ∀ m n e, C m n e ↔ D m n e) : t.Holds ids D where
  contains := h.contains
  carries m n e := (h.carries m n e).trans (hCD m n e)
  inhabited := h.inhabited
  mirrored := h.mirrored

/-- Tables that hold the same are equal. -/
theorem Holds.unique {t s : RoutingTable} {ids : List WaypointId}
    {C : WaypointId → WaypointId → QueryExit → Prop} (ht : t.Holds ids C) (hs : s.Holds ids C) :
    t = s := by
  have hlink (m n : WaypointId) : t.link? m n = s.link? m n := by
    have hmem {a b : RoutingTable} (ha : a.Holds ids C) (hb : b.Holds ids C) {E : ExitSet}
        (hE : a.link? m n = some E) : ∃ F, b.link? m n = some F ∧ ∀ x ∈ E, x ∈ F := by
      obtain ⟨x, hx⟩ := ha.inhabited m n E hE
      obtain ⟨F, hF, -⟩ := (hb.carries m n x).2 ((ha.carries m n x).1 ⟨E, hE, hx⟩)
      refine ⟨F, hF, fun y hy => ?_⟩
      obtain ⟨F', hF', hy'⟩ := (hb.carries m n y).2 ((ha.carries m n y).1 ⟨E, hE, hy⟩)
      obtain rfl := Option.some.inj (hF.symm.trans hF')
      exact hy'
    cases hE : t.link? m n with
    | none =>
        cases hF : s.link? m n with
        | none => rfl
        | some F =>
            obtain ⟨E, hE', -⟩ := hmem hs ht hF
            rw [hE] at hE'
            cases hE'
    | some E =>
        obtain ⟨F, hF, hEF⟩ := hmem ht hs hE
        obtain ⟨E', hE', hFE⟩ := hmem hs ht hF
        obtain rfl := Option.some.inj (hE.symm.trans hE')
        rw [hF]
        exact congrArg some (OrdSet.ext fun x => ⟨hEF x, hFE x⟩)
  have hinto (m n : WaypointId) : t.linkInto? m n = s.linkInto? m n := by
    rw [ht.mirrored, hs.mirrored, hlink]
  have hcontains (id : WaypointId) : t.contains id = s.contains id := by
    rw [Bool.eq_iff_iff, ht.contains, hs.contains]
  obtain ⟨nodes⟩ := t
  obtain ⟨nodes'⟩ := s
  congr 1
  ext1 id
  have hid := hcontains id
  simp only [RoutingTable.contains, OrdMap.contains] at hid
  cases ha : nodes.get? id with
  | none =>
      rw [ha] at hid
      exact (Option.not_isSome_iff_eq_none.1 (by rw [← hid]; simp)).symm
  | some a =>
      rw [ha] at hid
      obtain ⟨b, hb⟩ := Option.isSome_iff_exists.1 hid.symm
      rw [hb]
      have hreceivers : a.receivers = b.receivers := OrdMap.ext fun n => by
        simpa [link?, ha, hb] using hlink id n
      have hsenders : a.senders = b.senders := OrdMap.ext fun m => by
        simpa [linkInto?, ha, hb] using hinto m id
      cases a
      cases b
      simp_all

/-- The empty table holds nothing. -/
theorem holds_empty : RoutingTable.empty.Holds [] fun _ _ _ => False where
  contains _ := iff_of_false Bool.false_ne_true List.not_mem_nil
  carries _ _ _ := by
    refine iff_of_false ?_ id
    rintro ⟨_, h, _⟩
    cases h
  inhabited _ _ _ h := by cases h
  mirrored _ _ := rfl

/-! ## Growing a table -/

/-- A new node is added, with no link. -/
theorem exists_addNode {t : RoutingTable} {ids : List WaypointId}
    {C : WaypointId → WaypointId → QueryExit → Prop} (h : t.Holds ids C) {id : WaypointId}
    (hid : id ∉ ids) : ∃ t', t.addNode id = .ok t' ∧ t'.Holds (ids ++ [id]) C := by
  have hnone : t.nodes.get? id = none := by
    cases hn : t.nodes.get? id with
    | none => rfl
    | some links =>
        refine absurd ((h.contains id).1 ?_) hid
        rw [contains, OrdMap.contains, hn]
        rfl
  refine ⟨⟨t.nodes.insert id ⟨∅, ∅⟩⟩, ?_, ?_⟩
  · rw [addNode, if_neg]
    rw [h.contains]
    exact hid
  · -- The new waypoint has no links, as it had none while it was not listed.
    have hlink (m n : WaypointId) :
        link? ⟨t.nodes.insert id ⟨∅, ∅⟩⟩ m n = t.link? m n := by
      simp only [link?, OrdMap.get?_insert]
      by_cases hm : m = id
      · simp [hm, hnone]
      · simp [hm]
    have hinto (m n : WaypointId) :
        linkInto? ⟨t.nodes.insert id ⟨∅, ∅⟩⟩ m n = t.linkInto? m n := by
      simp only [linkInto?, OrdMap.get?_insert]
      by_cases hn : n = id
      · simp [hn, hnone]
      · simp [hn]
    refine ⟨?_, ?_, ?_, ?_⟩
    · intro j
      rw [contains, OrdMap.contains, OrdMap.get?_insert, List.mem_append, List.mem_singleton,
        ← h.contains, contains, OrdMap.contains]
      by_cases hj : j = id <;> simp [hj]
    · intro m n e
      rw [← h.carries]
      simp only [Carries, hlink]
    · intro m n exits
      rw [hlink]
      exact h.inhabited m n exits
    · intro m n
      rw [hlink, hinto, h.mirrored]

/-- What a link carries once an exit is added. -/
theorem link?_addLink {t : RoutingTable} {s r : WaypointId} {x : QueryExit}
    (hs : t.contains s = true) (hr : t.contains r = true) :
    ∃ t', t.addLink s r x = .ok t' ∧ (∀ id, t'.contains id = t.contains id) ∧
      (∀ m n, t'.link? m n =
        if m = s ∧ n = r then some (((t.link? s r).getD ∅).insert x) else t.link? m n) ∧
      ∀ m n, t'.linkInto? m n =
        if m = s ∧ n = r then some (((t.linkInto? s r).getD ∅).insert x) else t.linkInto? m n := by
  obtain ⟨ls, hls⟩ := Option.isSome_iff_exists.1 hs
  obtain ⟨lr, hlr⟩ := Option.isSome_iff_exists.1 hr
  rw [addLink, hs, hr]
  simp only [Bool.not_true, Bool.false_eq_true, if_false]
  refine ⟨_, rfl, ?_, ?_, ?_⟩
  · intro id
    simp only [contains, OrdMap.contains, OrdMap.get?_alter]
    by_cases hir : id = r
    · simp [hir, hlr]
    · rw [if_neg hir]
      by_cases his : id = s <;> simp [his, hls]
  · intro m n
    simp only [link?, OrdMap.get?_alter, addExit]
    by_cases hms : m = s
    · subst hms
      by_cases hmr : m = r
      · subst hmr
        by_cases hn : n = m <;> simp [hn, hls, OrdMap.get?_alter]
      · by_cases hn : n = r <;> simp [hn, hmr, hls, OrdMap.get?_alter]
    · by_cases hmr : m = r
      · subst hmr
        simp [hms, hlr]
      · simp [hms, hmr]
  · intro m n
    simp only [linkInto?, OrdMap.get?_alter, addExit]
    by_cases hnr : n = r
    · subst hnr
      by_cases hns : n = s
      · subst hns
        by_cases hm : m = n <;> simp [hm, hls, OrdMap.get?_alter]
      · by_cases hm : m = s <;> simp [hm, hns, hlr, OrdMap.get?_alter]
    · by_cases hns : n = s
      · subst hns
        simp [hnr, hls]
      · simp [hns, hnr]

/-- A link between listed nodes is added to those held before. -/
theorem exists_addLink {t : RoutingTable} {ids : List WaypointId}
    {C : WaypointId → WaypointId → QueryExit → Prop} (h : t.Holds ids C) {s r : WaypointId}
    (hs : s ∈ ids) (hr : r ∈ ids) (x : QueryExit) :
    ∃ t', t.addLink s r x = .ok t' ∧
      t'.Holds ids fun m n e => C m n e ∨ (m = s ∧ n = r ∧ e = x) := by
  obtain ⟨t', ht, hcontains, hlink, hinto⟩ :=
    link?_addLink (x := x) ((h.contains s).2 hs) ((h.contains r).2 hr)
  refine ⟨t', ht, fun id => by rw [hcontains, h.contains], ?_, ?_, ?_⟩
  · intro m n e
    rw [← h.carries]
    simp only [Carries, hlink]
    by_cases hmn : m = s ∧ n = r
    · obtain ⟨rfl, rfl⟩ := hmn
      cases hl : t.link? m n with
      | none => simp
      | some exits => simp [or_comm]
    · rw [if_neg hmn]
      constructor
      · exact .inl
      · rintro (h | ⟨rfl, rfl, -⟩)
        · exact h
        · exact absurd ⟨rfl, rfl⟩ hmn
  · intro m n exits hl
    rw [hlink] at hl
    split at hl
    · obtain rfl := Option.some.inj hl
      exact ⟨x, OrdSet.mem_insert.2 (.inl rfl)⟩
    · exact h.inhabited m n exits hl
  · intro m n
    rw [hlink, hinto, h.mirrored, h.mirrored]

/-- Exits added one after another are added together. -/
theorem exists_addLinks {s r : WaypointId} {ids : List WaypointId} (hs : s ∈ ids) (hr : r ∈ ids)
    (l : List QueryExit) {t : RoutingTable} {C : WaypointId → WaypointId → QueryExit → Prop}
    (h : t.Holds ids C) :
    ∃ t', l.foldlM (fun t x => t.addLink s r x) t = .ok t' ∧
      t'.Holds ids fun m n e => C m n e ∨ (m = s ∧ n = r ∧ e ∈ l) := by
  induction l generalizing t C with
  | nil => exact ⟨t, rfl, h.congr fun m n e => by simp⟩
  | cons x rest ih =>
      obtain ⟨t₁, ht₁, h₁⟩ := exists_addLink h hs hr x
      obtain ⟨t₂, ht₂, h₂⟩ := ih h₁
      refine ⟨t₂, ?_, h₂.congr fun m n e => ?_⟩
      · rw [List.foldlM_cons, ht₁]
        exact ht₂
      · rw [List.mem_cons]
        grind

end RoutingTable

/-! ## The exits of a waypoint -/

namespace Waypoint

variable {w : Waypoint}

theorem mem_stored_iff {q : QueryId} {f : Flow} :
    (q, f) ∈ w.flows.stored.entries ↔ w.flow q = f ∧ f ≠ default := by
  rw [← OrdMap.get?_eq_some_iff, QueryTable.get?_stored, flow]
  split
  · rename_i hd
    constructor
    · intro he
      cases he
    · rintro ⟨rfl, hne⟩
      exact absurd hd hne
  · rename_i hd
    rw [Option.some.injEq]
    exact ⟨fun h => ⟨h, h ▸ hd⟩, fun h => h.1⟩

/-- What is collected from the stored records, where a default record holds nothing, is what the
record of each query holds. -/
theorem mem_collected_iff {exits : Flow → OrdSet WaypointId} (hnone : exits default = ∅)
    {e : QueryExit} :
    (e ∈ w.flows.stored.entries.flatMap fun p => (exits p.2).toList.map fun x => ⟨p.1, x⟩) ↔
      e.exit ∈ exits (w.flow e.query) := by
  simp only [List.mem_flatMap, List.mem_map]
  constructor
  · rintro ⟨⟨r, f⟩, hf, y, hy, rfl⟩
    rw [(mem_stored_iff.1 hf).1]
    exact hy
  · intro hx
    refine ⟨(e.query, w.flow e.query), mem_stored_iff.2 ⟨rfl, fun hd => ?_⟩, e.exit, hx, rfl⟩
    rw [hd, hnone] at hx
    exact OrdSet.not_mem_empty _ hx

/-- The exits that are compiled are those that the waypoint holds. -/
theorem mem_allExits {kind : EdgeKind} {e : QueryExit} :
    e ∈ w.allExits kind ↔ w.holdsExit kind e = true := by
  cases kind with
  | flowThrough => exact (mem_collected_iff rfl).trans decide_eq_true_iff.symm
  | terminating => exact (mem_collected_iff rfl).trans decide_eq_true_iff.symm

end Waypoint

/-! ## The table of a graph -/

namespace PlanGraph

/-- An exit travels over an edge: the receiver recorded it for edges of that kind, and
the sender takes part in its query. -/
def Travels (g : PlanGraph) (m n : WaypointId) (e : QueryExit) : Prop :=
  ∃ kind, ⟨m, n, kind⟩ ∈ g.edges ∧
    (∃ v, g.find? m = some v ∧ v.covers e.query = true) ∧
    ∃ w, g.find? n = some w ∧ w.holdsExit kind e = true

/-- Distinct new nodes are added one after another. -/
theorem exists_addNodes (l : List WaypointId) (hl : l.Nodup) {t : RoutingTable}
    {ids : List WaypointId} {C : WaypointId → WaypointId → QueryExit → Prop} (h : t.Holds ids C)
    (hdisjoint : ∀ id ∈ l, id ∉ ids) :
    ∃ t', l.foldlM RoutingTable.addNode t = .ok t' ∧ t'.Holds (ids ++ l) C := by
  induction l generalizing t ids with
  | nil => exact ⟨t, rfl, by simpa using h⟩
  | cons id rest ih =>
      obtain ⟨hid, hrest⟩ := List.nodup_cons.1 hl
      obtain ⟨t₁, ht₁, h₁⟩ := RoutingTable.exists_addNode h (hdisjoint id List.mem_cons_self)
      obtain ⟨t₂, ht₂, h₂⟩ := ih hrest h₁ fun j hj hmem => by
        rcases List.mem_append.1 hmem with hmem | hmem
        · exact hdisjoint j (List.mem_cons_of_mem _ hj) hmem
        · exact hid (List.mem_singleton.1 hmem ▸ hj)
      refine ⟨t₂, ?_, by simpa using h₂⟩
      rw [List.foldlM_cons, ht₁]
      exact ht₂

/-- An edge adds those exits of its kind that its receiver holds, for the queries that its sender
covers. -/
theorem exists_routeEdge {g : PlanGraph} {t : RoutingTable}
    {C : WaypointId → WaypointId → QueryExit → Prop} (h : t.Holds g.ids C) {e : Edge}
    (hs : e.sender ∈ g.ids) (hr : e.receiver ∈ g.ids) :
    ∃ t', g.routeEdge t e = .ok t' ∧ t'.Holds g.ids fun m n x =>
      C m n x ∨ (m = e.sender ∧ n = e.receiver ∧
        (∃ v, g.find? m = some v ∧ v.covers x.query = true) ∧
        ∃ w, g.find? n = some w ∧ w.holdsExit e.kind x = true) := by
  obtain ⟨v, hv⟩ := mem_ids_iff.1 hs
  obtain ⟨w, hw⟩ := mem_ids_iff.1 hr
  obtain ⟨t', ht, h'⟩ := RoutingTable.exists_addLinks hs hr
    ((w.allExits e.kind).filter fun x => v.covers x.query) h
  refine ⟨t', ?_, h'.congr fun m n x => or_congr_right ?_⟩
  · rw [routeEdge, waypoint_eq_ok_iff.2 hv, waypoint_eq_ok_iff.2 hw]
    exact ht
  · rw [List.mem_filter, Waypoint.mem_allExits]
    constructor
    · rintro ⟨rfl, rfl, hx, hc⟩
      exact ⟨rfl, rfl, ⟨v, hv, hc⟩, w, hw, hx⟩
    · rintro ⟨rfl, rfl, ⟨v', hv', hc⟩, w', hw', hx⟩
      obtain rfl := Option.some.inj (hv.symm.trans hv')
      obtain rfl := Option.some.inj (hw.symm.trans hw')
      exact ⟨rfl, rfl, hx, hc⟩

/-- The edges of a list add the exits of each of them. -/
theorem exists_routeEdges {g : PlanGraph} (l : List Edge)
    (hl : ∀ e ∈ l, e.sender ∈ g.ids ∧ e.receiver ∈ g.ids) {t : RoutingTable}
    {C : WaypointId → WaypointId → QueryExit → Prop} (h : t.Holds g.ids C) :
    ∃ t', l.foldlM g.routeEdge t = .ok t' ∧ t'.Holds g.ids fun m n x =>
      C m n x ∨ ∃ kind, ⟨m, n, kind⟩ ∈ l ∧
        (∃ v, g.find? m = some v ∧ v.covers x.query = true) ∧
        ∃ w, g.find? n = some w ∧ w.holdsExit kind x = true := by
  induction l generalizing t C with
  | nil => exact ⟨t, rfl, h.congr fun m n x => by simp⟩
  | cons e rest ih =>
      obtain ⟨hs, hr⟩ := hl e List.mem_cons_self
      obtain ⟨t₁, ht₁, h₁⟩ := exists_routeEdge h hs hr
      obtain ⟨t₂, ht₂, h₂⟩ := ih (fun e he => hl e (List.mem_cons_of_mem _ he)) h₁
      refine ⟨t₂, ?_, h₂.congr fun m n x => ?_⟩
      · rw [List.foldlM_cons, ht₁]
        exact ht₂
      · obtain ⟨s, r, k⟩ := e
        simp only [List.mem_cons, Edge.mk.injEq, or_assoc]
        refine or_congr_right ?_
        constructor
        · rintro (⟨rfl, rfl, hc, hx⟩ | ⟨kind, hmem, hc, hx⟩)
          · exact ⟨k, .inl ⟨rfl, rfl, rfl⟩, hc, hx⟩
          · exact ⟨kind, .inr hmem, hc, hx⟩
        · rintro ⟨kind, ⟨rfl, rfl, rfl⟩ | hmem, hc, hx⟩
          · exact .inl ⟨rfl, rfl, hc, hx⟩
          · exact .inr ⟨kind, hmem, hc, hx⟩

/-- **The table of a well-formed graph** is compiled, lists its waypoints and holds what
travels over its edges. -/
theorem exists_routing {g : PlanGraph} (hg : g.WellFormed) :
    ∃ t, g.routing = .ok t ∧ t.Holds g.ids g.Travels := by
  obtain ⟨t₁, ht₁, h₁⟩ := exists_addNodes g.ids hg.nodup RoutingTable.holds_empty (by simp)
  rw [List.nil_append] at h₁
  obtain ⟨t₂, ht₂, h₂⟩ := exists_routeEdges g.edges (fun e he =>
    hg.ends e (mem_edges.1 he).2.1 (mem_edges.1 he).2.2) h₁
  refine ⟨t₂, ?_, h₂.congr fun m n x => by simp [Travels]⟩
  rw [routing, ht₁]
  exact ht₂

end PlanGraph

end SharedPlan
