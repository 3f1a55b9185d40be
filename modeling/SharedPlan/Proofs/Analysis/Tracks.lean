import SharedPlan.Proofs.Analysis.Enters

/-!
# SharedPlan.Proofs.Analysis.Tracks

What a demand walk has done at any moment.

`Walk.Tracks` is the invariant of the walk, relative to the graph it started from.
Whatever was recorded or is still to be walked lies on a stream of the query
(`PlanGraph.Enters`), and whatever was asked at a waypoint has been passed over each of
its input edges, but for those of the visit under way.  When no visit is left, the
walk has therefore been exactly where streams go (`Tracks.enters_iff`) and has recorded
exactly their exits (`Tracks.holdsExit_iff`).
-/

namespace SharedPlan

namespace Waypoint

/-- A scanner that was asked for columns by a reader has put them down as projected. -/
def Heeds (w : Waypoint) (kind : EdgeKind) (q : QueryId) (S : SlotSet) : Prop :=
  match w.role, kind with
  | .scanner _ _ shares, .flowThrough => S ⊆ (shares.get q).projected.getD ∅
  | _, _ => True

theorem heeds_recordExit (w : Waypoint) (kind k : EdgeKind) (q : QueryId) (S : SlotSet)
    (exit : QueryExit) : (w.recordExit kind exit).Heeds k q S ↔ w.Heeds k q S := Iff.rfl

theorem heeds_answered_self (w : Waypoint) (kind : EdgeKind) (q : QueryId) (needed : SlotSet)
    (exit : QueryExit) (hc : w.carries kind q = true) :
    (w.answered kind q needed exit).Heeds kind q needed := by
  rw [answered, if_pos hc, heeds_recordExit]
  cases hr : w.role with
  | scanner _ _ shares =>
      cases kind with
      | flowThrough =>
          simp only [Heeds, note, hr, QueryTable.get_modify, if_true, Option.getD_some]
          exact fun x hx => OrdSet.mem_union.2 (.inr hx)
      | terminating => simp [Heeds, note, hr]
  | join _ _ shares =>
      cases kind <;> cases hb : (w.flow q).bypassed <;> simp [Heeds, note, hr, hb]
  | _ => simp [Heeds, note, hr]

theorem Heeds.answered {w : Waypoint} {k : EdgeKind} {q : QueryId} {S : SlotSet}
    (h : w.Heeds k q S) (kind : EdgeKind) (needed : SlotSet) (x : WaypointId) :
    (w.answered kind q needed ⟨q, x⟩).Heeds k q S := by
  unfold Waypoint.answered
  split
  · rw [heeds_recordExit]
    cases hr : w.role with
    | scanner _ _ shares =>
        cases kind with
        | flowThrough =>
            cases k with
            | flowThrough =>
                simp only [Heeds, hr] at h
                simp only [Heeds, note, hr, QueryTable.get_modify, if_true, Option.getD_some]
                exact fun x hx => OrdSet.mem_union.2 (.inl (h x hx))
            | terminating => simp [Heeds, note, hr]
        | terminating => simpa [Heeds, note, hr] using h
    | join _ _ shares =>
        cases kind <;> cases hb : (w.flow q).bypassed <;> simp [Heeds, note, hr, hb]
    | _ => simp [Heeds, note, hr]
  · exact h

end Waypoint

namespace Walk

variable {g : PlanGraph} {q : QueryId}

/-! ## What is served -/

/-- A demand at an arrival is still to be walked, has been asked, or is put to a
waypoint that takes no part. -/
def Serves (g : PlanGraph) (q : QueryId) (s : Walk) (a : Arrival) (S : SlotSet) : Prop :=
  (∃ v ∈ s.stack, v.arrival = a ∧ S ⊆ v.needed) ∨
    (∃ T, s.asked.get? a = some T ∧ S ⊆ T) ∨
    ∀ w, g.find? a.waypoint = some w → w.covers q = false

/-- A demand at an arrival has been passed over an input edge of its waypoint. -/
structure Passed (g : PlanGraph) (q : QueryId) (s : Walk) (a : Arrival) (S : SlotSet) (e : Edge)
    (w : Waypoint) : Prop where
  grants : w.Grants e.kind q S
  recorded : w.carries e.kind q = true → ∃ v, s.graph.find? a.waypoint = some v ∧
    v.holdsExit e.kind ⟨q, exitOver a e.kind⟩ = true ∧ v.Heeds e.kind q S
  served : w.carries e.kind q = true → e.sender.isSentinel = false →
    Serves g q s ⟨e.sender, exitOver a e.kind⟩ (w.below e.kind q S)

/-- What was served and recorded in one state of a walk is so in a later one. -/
structure Extends (g : PlanGraph) (q : QueryId) (s t : Walk) : Prop where
  serves : ∀ {a S}, Serves g q s a S → Serves g q t a S
  keeps : ∀ {id v}, s.graph.find? id = some v → ∃ v', t.graph.find? id = some v' ∧
    (∀ k x, v.holdsExit k ⟨q, x⟩ = true → v'.holdsExit k ⟨q, x⟩ = true) ∧
    ∀ k S, v.Heeds k q S → v'.Heeds k q S

theorem Passed.mono {s t : Walk} (hst : Extends g q s t) {a : Arrival} {S : SlotSet} {e : Edge}
    {w : Waypoint} (h : Passed g q s a S e w) : Passed g q t a S e w where
  grants := h.grants
  recorded hc := by
    obtain ⟨v, hv, hx, hS⟩ := h.recorded hc
    obtain ⟨v', hv', hx', hS'⟩ := hst.keeps hv
    exact ⟨v', hv', hx' _ _ hx, hS' _ _ hS⟩
  served hc hs := hst.serves (h.served hc hs)

/-! ## The invariant -/

/-- What a walk from a graph has done, where the edges left are still to be crossed for
the visit under way. -/
structure Tracks (g : PlanGraph) (q : QueryId) (a : Arrival) (left : List Edge) (s : Walk) :
    Prop where
  /-- Nothing but answers has changed. -/
  graph : s.graph.mapWaypoints Waypoint.unasked = g.mapWaypoints Waypoint.unasked
  /-- What is to be walked lies on a stream, if its waypoint takes part. -/
  stacked : ∀ v ∈ s.stack, (∃ w, g.find? v.arrival.waypoint = some w ∧ w.covers q = true) →
    g.Enters q v.arrival.waypoint v.arrival.exit
  /-- What has been asked lies on a stream. -/
  asked : ∀ b S, s.asked.get? b = some S → g.Enters q b.waypoint b.exit
  /-- Recorded exits belong to streams that the waypoint carries on. -/
  exits : ∀ n v k x, s.graph.find? n = some v → v.holdsExit k ⟨q, x⟩ = true →
    v.carries k q = true ∧ ∃ y, g.Enters q n y ∧ x = exitOver ⟨n, y⟩ k
  /-- The waypoints entered are those at which something has been asked. -/
  entered : ∀ id, id ∈ s.entered ↔ ∃ y S, s.asked.get? ⟨id, y⟩ = some S
  /-- What has been asked has been passed on. -/
  passed : ∀ b S, s.asked.get? b = some S → ∀ e ∈ g.inputs b.waypoint, ∀ w,
    g.find? b.waypoint = some w → Passed g q s b S e w ∨ (b = a ∧ e ∈ left)
  /-- The root is served. -/
  rooted : ∀ r, g.root? q = some r → Serves g q s ⟨r, r⟩ ∅

/-- Between visits, whatever has been asked has been passed on. -/
theorem Tracks.passes {a b : Arrival} {s : Walk} (h : Tracks g q a [] s) {S : SlotSet}
    (hb : s.asked.get? b = some S) {e : Edge} (he : e ∈ g.inputs b.waypoint) {w : Waypoint}
    (hw : g.find? b.waypoint = some w) : Passed g q s b S e w :=
  (h.passed b S hb e he w hw).resolve_right fun hleft => List.not_mem_nil hleft.2

/-- Between visits it does not matter which was the last. -/
theorem Tracks.change {a b : Arrival} {s : Walk} (h : Tracks g q a [] s) : Tracks g q b [] s where
  graph := h.graph
  stacked := h.stacked
  asked := h.asked
  exits := h.exits
  entered := h.entered
  passed _ _ hc _ he _ hw := .inl (h.passes hc he hw)
  rooted := h.rooted

/-- The waypoint that a walk finds answers as the one it started from. -/
theorem Tracks.find? {a : Arrival} {left : List Edge} {s : Walk} (h : Tracks g q a left s)
    {id : WaypointId} {w : Waypoint} (hw : s.graph.find? id = some w) :
    ∃ w₀, g.find? id = some w₀ ∧ w₀.unasked = w.unasked :=
  PlanGraph.exists_find?_of_view Waypoint.id_unasked h.graph hw

/-- Before the first step. -/
theorem Tracks.start {root : WaypointId} (hroot : g.root? q = some root)
    (hquiet : ∀ id w, g.find? id = some w → ∀ k x, w.holdsExit k ⟨q, x⟩ = false) (a : Arrival) :
    Tracks g q a [] (Walk.start g root) where
  graph := rfl
  stacked v hv hw := by
    obtain rfl := List.mem_singleton.1 hv
    obtain ⟨w, hw, hc⟩ := hw
    exact .root hroot hw hc
  asked b S hb := by cases hb
  exits n v k x hv hx := by
    rw [hquiet n v hv k x] at hx
    cases hx
  entered id := by
    refine iff_of_false (OrdSet.not_mem_empty id) ?_
    rintro ⟨_, _, h⟩
    cases h
  passed b S hb := by cases hb
  rooted r hr := by
    obtain rfl := Option.some.inj (hroot.symm.trans hr)
    exact .inl ⟨_, List.mem_singleton_self _, rfl, fun _ h => h⟩

/-! ## Crossing an edge -/

/-- Crossing an edge loses nothing. -/
theorem extends_crossed {s : Walk} {a : Arrival} {needed : SlotSet} {e : Edge} {w : Waypoint}
    (hw : s.graph.find? a.waypoint = some w) : Extends g q s (s.crossed q a needed e w) where
  serves := by
    rintro b S (⟨v, hv, hb⟩ | h)
    · refine .inl ⟨v, ?_, hb⟩
      simp only [crossed]
      split
      · exact List.mem_cons_of_mem _ hv
      · exact hv
    · exact .inr h
  keeps := by
    intro id v hv
    rw [find?_crossed hw]
    by_cases h : id = a.waypoint
    · rw [if_pos h]
      obtain rfl : w = v := by
        rw [h, hw] at hv
        exact Option.some.inj hv
      exact ⟨_, rfl, fun k x hx => (Waypoint.holdsExit_answered ..).2 (.inl hx),
        fun k S hS => hS.answered ..⟩
    · exact ⟨v, by rw [if_neg h, hv], fun _ _ h => h, fun _ _ h => h⟩

section Crossed

variable {a : Arrival} {left : List Edge} {e : Edge} {s : Walk} {w : Waypoint} {needed : SlotSet}
  (h : Tracks g q a (e :: left) s) (hw : s.graph.find? a.waypoint = some w)

include h hw

/-- The waypoint holds the exit afterwards exactly when it carries the query on. -/
theorem Tracks.holdsExit_answered :
    (w.answered e.kind q needed ⟨q, exitOver a e.kind⟩).holdsExit e.kind ⟨q, exitOver a e.kind⟩ =
      w.carries e.kind q := by
  rw [Bool.eq_iff_iff, Waypoint.holdsExit_answered]
  refine ⟨fun hx => hx.elim (fun hx => (h.exits _ w _ _ hw hx).1) fun hx => hx.1, fun hc => ?_⟩
  exact .inr ⟨hc, rfl, rfl⟩

theorem Tracks.stack_crossed :
    (s.crossed q a needed e w).stack =
      if w.carries e.kind q && !e.sender.isSentinel then
        ⟨⟨e.sender, exitOver a e.kind⟩, w.below e.kind q needed⟩ :: s.stack
      else s.stack := by
  simp only [Walk.crossed, h.holdsExit_answered hw]

variable (ha : s.asked.get? a = some needed)

include ha

/-- The visit that is added lies on a stream, fed by the one under way. -/
theorem Tracks.stacked_crossed (he : e ∈ g.inputs a.waypoint) {v : Visit}
    (hv : v ∈ (s.crossed q a needed e w).stack)
    (hc : ∃ u, g.find? v.arrival.waypoint = some u ∧ u.covers q = true) :
    g.Enters q v.arrival.waypoint v.arrival.exit := by
  rw [h.stack_crossed hw] at hv
  split at hv
  · rename_i hpush
    rcases List.mem_cons.1 hv with rfl | hv
    · obtain ⟨w₀, hw₀, hview⟩ := h.find? hw
      obtain ⟨-, hlink, hreceiver⟩ := PlanGraph.mem_inputs.1 he
      rw [Bool.and_eq_true, Bool.not_eq_true'] at hpush
      have hcarries : w₀.carries e.kind q = true := by
        rw [Waypoint.carries_eq_of_unasked hview, hpush.1]
      refine .feed (h.asked a needed ha) ⟨e.kind, ?_, hpush.2, hc, ⟨w₀, hw₀, hcarries⟩, rfl⟩
      rw [← hreceiver]
      exact hlink
    · exact h.stacked v hv hc
  · exact h.stacked v hv hc

/-- The exit that is recorded is that of the stream under way. -/
theorem Tracks.exits_crossed {n x : WaypointId} {v : Waypoint} {k : EdgeKind}
    (hv : (s.crossed q a needed e w).graph.find? n = some v)
    (hx : v.holdsExit k ⟨q, x⟩ = true) :
    v.carries k q = true ∧ ∃ y, g.Enters q n y ∧ x = exitOver ⟨n, y⟩ k := by
  rw [find?_crossed hw] at hv
  by_cases hna : n = a.waypoint
  · rw [if_pos hna] at hv
    obtain rfl := Option.some.inj hv
    rw [Waypoint.carries_answered, hna]
    rcases (Waypoint.holdsExit_answered ..).1 hx with hold | ⟨hc, rfl, hnew⟩
    · exact h.exits _ w k x hw hold
    · obtain ⟨-, rfl⟩ := QueryExit.mk.inj hnew
      exact ⟨hc, a.exit, h.asked a needed ha, rfl⟩
  · rw [if_neg hna] at hv
    exact h.exits n v k x hv hx

omit ha in
/-- What is asked of the waypoint has been passed over the edge once it is crossed. -/
theorem Tracks.passed_crossed (hgrants : w.Grants e.kind q needed) {w₀ : Waypoint}
    (hw₀ : g.find? a.waypoint = some w₀) :
    Passed g q (s.crossed q a needed e w) a needed e w₀ := by
  obtain ⟨w', hw', hview⟩ := h.find? hw
  obtain rfl := Option.some.inj (hw₀.symm.trans hw')
  have hcarries : w.carries e.kind q = w₀.carries e.kind q := by
    rw [Waypoint.carries_eq_of_unasked hview]
  have hbelow : w.below e.kind q needed = w₀.below e.kind q needed := by
    rw [Waypoint.below_eq_of_unasked hview]
  refine ⟨?_, fun hc => ?_, fun hc hs => ?_⟩
  · rwa [Waypoint.grants_iff_of_unasked hview]
  · refine ⟨_, (find?_crossed hw _).trans (if_pos rfl), ?_, ?_⟩
    · rw [h.holdsExit_answered hw, hcarries, hc]
    · exact Waypoint.heeds_answered_self _ _ _ _ _ (hcarries.trans hc)
  · refine .inl ⟨⟨⟨e.sender, exitOver a e.kind⟩, w₀.below e.kind q needed⟩, ?_, rfl, fun _ h => h⟩
    rw [h.stack_crossed hw, hcarries, hbelow, hc, hs]
    exact List.mem_cons_self

/-- Crossing one of the edges left keeps the invariant. -/
theorem Tracks.crossed (hn : g.ids.Nodup) (he : e ∈ g.inputs a.waypoint)
    (hgrants : w.Grants e.kind q needed) : Tracks g q a left (s.crossed q a needed e w) := by
  have hids : s.graph.ids.Nodup := PlanGraph.ids_eq_of_view Waypoint.id_unasked h.graph ▸ hn
  have hext : Extends g q s (s.crossed q a needed e w) := extends_crossed hw
  refine ⟨?_, fun v => h.stacked_crossed hw ha he, h.asked, fun n v k x => h.exits_crossed hw ha,
    h.entered, ?_, fun r hr => hext.serves (h.rooted r hr)⟩
  · exact (view_crossed (fun _ _ _ _ => Waypoint.unasked_answered ..) hids hw).trans h.graph
  · intro b S hb e' he' w' hw'
    rcases h.passed b S hb e' he' w' hw' with hp | ⟨rfl, hmem⟩
    · exact .inl (hp.mono hext)
    · rcases List.mem_cons.1 hmem with rfl | hmem
      · obtain rfl := Option.some.inj (ha.symm.trans hb)
        exact .inl (h.passed_crossed hw hgrants hw')
      · exact .inr ⟨rfl, hmem⟩

end Crossed

/-! ## Visits and runs -/

/-- Nothing is lost with a visit that asks for nothing new: it was served already. -/
theorem extends_stay {s : Walk} {v : Visit} {rest : List Visit} (hs : s.stack = v :: rest)
    {w : Waypoint} (hw : g.find? v.arrival.waypoint = some w)
    (hstay : w.covers q = false ∨ s.demandAt v = none) :
    Extends g q s { s with stack := rest } := by
  refine ⟨?_, fun {_ v} hv => ⟨v, hv, fun _ _ h => h, fun _ _ h => h⟩⟩
  rintro c S (⟨x, hx, rfl, hS⟩ | hdone)
  · rw [hs] at hx
    rcases List.mem_cons.1 hx with rfl | hx
    · rcases hstay with hc | hd
      · refine .inr (.inr fun w' hw' => ?_)
        obtain rfl := Option.some.inj (hw.symm.trans hw')
        exact hc
      · obtain ⟨seen, hseen, hsub⟩ := exists_asked_of_demandAt hd
        exact .inr (.inl ⟨seen, hseen, fun y hy => hsub y (hS y hy)⟩)
    · exact .inl ⟨x, hx, rfl, hS⟩
  · exact .inr hdone

/-- Once its demand is written down, a visit is served. -/
theorem extends_entering {s : Walk} {v : Visit} {rest : List Visit} (hs : s.stack = v :: rest)
    {needed : SlotSet} (hd : s.demandAt v = some needed) :
    Extends g q s ({ s with stack := rest }.entering v.arrival needed) := by
  have hsub : v.needed ⊆ needed := subset_demandAt hd
  refine ⟨?_, fun {_ v} hv => ⟨v, hv, fun _ _ h => h, fun _ _ h => h⟩⟩
  rintro c S (⟨x, hx, rfl, hS⟩ | ⟨T, hT, hS⟩ | hno)
  · rw [hs] at hx
    rcases List.mem_cons.1 hx with rfl | hx
    · exact .inr (.inl ⟨needed, OrdMap.get?_insert_self .., fun y hy => hsub y (hS y hy)⟩)
    · exact .inl ⟨x, hx, rfl, hS⟩
  · refine .inr (.inl ?_)
    by_cases hcv : c = v.arrival
    · subst hcv
      refine ⟨needed, OrdMap.get?_insert_self .., fun y hy => ?_⟩
      exact asked_subset_demandAt hd hT y (hS y hy)
    · exact ⟨T, (OrdMap.get?_insert_of_ne _ _ hcv).trans hT, hS⟩
  · exact .inr (.inr hno)

/-- Writing down the demand of the next visit leaves every input edge to be crossed. -/
theorem Tracks.entering {b : Arrival} {s : Walk} {v : Visit} {rest : List Visit}
    (h : Tracks g q b [] s) (hs : s.stack = v :: rest) {w : Waypoint}
    (hw : g.find? v.arrival.waypoint = some w) (hc : w.covers q = true) {needed : SlotSet}
    (hd : s.demandAt v = some needed) :
    Tracks g q v.arrival (g.inputs v.arrival.waypoint)
      ({ s with stack := rest }.entering v.arrival needed) := by
  have hrest {x : Visit} (hx : x ∈ rest) : x ∈ s.stack := hs ▸ List.mem_cons_of_mem _ hx
  have hext : Extends g q s ({ s with stack := rest }.entering v.arrival needed) :=
    extends_entering hs hd
  refine ⟨h.graph, fun x hx => h.stacked x (hrest hx), ?_, h.exits, ?_, ?_,
    fun r hr => hext.serves (h.rooted r hr)⟩
  · intro c S hcS
    simp only [Walk.entering, OrdMap.get?_insert] at hcS
    split at hcS
    · rename_i hcv
      subst hcv
      exact h.stacked v (hs ▸ List.mem_cons_self) ⟨w, hw, hc⟩
    · exact h.asked c S hcS
  · intro id
    simp only [Walk.entering, OrdSet.mem_insert, h.entered, OrdMap.get?_insert]
    constructor
    · rintro (rfl | ⟨y, S, hS⟩)
      · exact ⟨v.arrival.exit, needed, if_pos rfl⟩
      · by_cases hcv : (⟨id, y⟩ : Arrival) = v.arrival
        · exact ⟨y, needed, if_pos hcv⟩
        · exact ⟨y, S, (if_neg hcv).trans hS⟩
    · rintro ⟨y, S, hS⟩
      split at hS
      · rename_i hcv
        exact .inl (congrArg Arrival.waypoint hcv)
      · exact .inr ⟨y, S, hS⟩
  · intro c S hcS e he w' hw'
    simp only [Walk.entering, OrdMap.get?_insert] at hcS
    split at hcS
    · rename_i hcv
      exact .inr ⟨hcv, hcv ▸ he⟩
    · exact .inl ((h.passes hcS he hw').mono hext)

/-- A visit keeps the invariant, as each of its crossings does. -/
theorem Tracks.visit (hn : g.ids.Nodup) {b : Arrival} {s t : Walk} {v : Visit}
    {rest : List Visit} (h : Tracks g q b [] s) (hs : s.stack = v :: rest)
    (hv : Walk.visit q v { s with stack := rest } = (.ok (), t)) : Tracks g q b [] t := by
  obtain ⟨w, hw, hcase⟩ := visit_eq_ok_iff.1 hv
  obtain ⟨w₀, hw₀, hview⟩ := h.find? hw
  have hcovers : w₀.covers q = w.covers q := by
    rw [Waypoint.covers_eq_of_unasked hview]
  rcases hcase with ⟨hstay, rfl⟩ | ⟨hc, needed, hd, hcross⟩
  · have hext : Extends g q s { s with stack := rest } :=
      extends_stay hs hw₀ (hstay.imp_left hcovers.trans)
    refine ⟨h.graph, fun x hx => h.stacked x (hs ▸ List.mem_cons_of_mem _ hx), h.asked, h.exits,
      h.entered, ?_, fun r hr => hext.serves (h.rooted r hr)⟩
    intro c S hcS e he w' hw'
    exact .inl ((h.passes hcS he hw').mono hext)
  · have hentered := h.entering hs hw₀ (hcovers.trans hc) hd
    have hinputs : s.graph.inputs = g.inputs :=
      PlanGraph.inputs_congr (PlanGraph.ids_eq_of_view Waypoint.id_unasked h.graph)
        (PlanGraph.links_eq_of_view h.graph)
    have hfinal : Tracks g q v.arrival [] t := crossAll_entering_induction hcross
      (P := Tracks g q v.arrival) (hinputs ▸ hentered)
      fun he hasked hu hw hg => hu.crossed hw hasked hn (hinputs ▸ he) hg
    exact hfinal.change

/-- **What a whole walk has done**: the invariant holds and no visit is left. -/
theorem Runs.tracks (hn : g.ids.Nodup) {n : Nat} {s u : Walk} {a : Arrival} (h : Runs q n s u)
    (hs : Tracks g q a [] s) : Tracks g q a [] u ∧ u.stack = [] := by
  induction h with
  | done hs' => exact ⟨hs, hs'⟩
  | step hstack hv _ ih => exact ih (hs.visit hn hstack hv)

/-! ## A finished walk -/

/-- In a finished walk, what is served has been asked. -/
theorem asked_of_serves {u : Walk} (hs : u.stack = []) {b : Arrival} {S : SlotSet}
    (hb : Serves g q u b S) (hc : ∃ w, g.find? b.waypoint = some w ∧ w.covers q = true) :
    ∃ T, u.asked.get? b = some T ∧ S ⊆ T := by
  rcases hb with ⟨v, hv, -⟩ | hb | hno
  · rw [hs] at hv
    exact absurd hv List.not_mem_nil
  · exact hb
  · obtain ⟨w, hw, hc⟩ := hc
    rw [hno w hw] at hc
    cases hc

section Finished

variable {a : Arrival} {u : Walk} (h : Tracks g q a [] u) (hs : u.stack = [])

include h hs

/-- **A finished walk has been where streams go**: what they pass has been asked, and
nothing else has. -/
theorem Tracks.enters_iff {n y : WaypointId} :
    g.Enters q n y ↔ ∃ S, u.asked.get? ⟨n, y⟩ = some S := by
  refine ⟨fun hent => ?_, fun hasked => hasked.elim (h.asked _)⟩
  induction hent with
  | root hr hw hc =>
      obtain ⟨T, hT, -⟩ := asked_of_serves hs (h.rooted _ hr) ⟨_, hw, hc⟩
      exact ⟨T, hT⟩
  | @feed m n y x _ hf ih =>
      obtain ⟨S, hS⟩ := ih
      obtain ⟨kind, hlink, hm, hv, ⟨w, hw, hc⟩, rfl⟩ := hf
      have he : ⟨m, n, kind⟩ ∈ g.inputs n :=
        PlanGraph.mem_inputs.2 ⟨PlanGraph.mem_ids_iff.2 ⟨w, hw⟩, hlink, rfl⟩
      have hp := h.passes hS he hw
      obtain ⟨T, hT, -⟩ := asked_of_serves hs (hp.served hc hm) hv
      exact ⟨T, hT⟩

theorem Tracks.entered_iff {n : WaypointId} : n ∈ u.entered ↔ ∃ y, g.Enters q n y := by
  rw [h.entered]
  exact exists_congr fun y => (h.enters_iff hs).symm

/-- **A finished walk has recorded the exits of streams**: at a waypoint with an input
edge of a kind, those of the streams that it carries on over such edges. -/
theorem Tracks.holdsExit_iff {n x : WaypointId} {v : Waypoint} {e : Edge}
    (hv : u.graph.find? n = some v) (he : e ∈ g.inputs n) :
    v.holdsExit e.kind ⟨q, x⟩ = true ↔
      v.carries e.kind q = true ∧ ∃ y, g.Enters q n y ∧ x = exitOver ⟨n, y⟩ e.kind := by
  refine ⟨h.exits n v e.kind x hv, ?_⟩
  rintro ⟨hc, y, hent, rfl⟩
  obtain ⟨S, hS⟩ := (h.enters_iff hs).1 hent
  obtain ⟨w, hw, hview⟩ := h.find? hv
  have hcw : w.carries e.kind q = true := by
    rw [Waypoint.carries_eq_of_unasked hview, hc]
  obtain ⟨v', hv', hx, -⟩ := (h.passes hS he hw).recorded hcw
  obtain rfl := Option.some.inj (hv.symm.trans hv')
  exact hx

end Finished

end Walk

end SharedPlan
