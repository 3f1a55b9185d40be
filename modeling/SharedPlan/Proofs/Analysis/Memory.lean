import SharedPlan.Proofs.Analysis.Plain
import SharedPlan.Proofs.Analysis.Renewed
import SharedPlan.Proofs.Analysis.Tracks

/-!
# SharedPlan.Proofs.Analysis.Memory

The memory of the demand walk changes nothing but the number of its steps.

All that the walk asks at an arrival is asked, attribute by attribute, by visits of the plain
walk (`Walk.Met`), and once it is finished it has asked for all that these ask
(`Walk.Ledger`).  So the two fail together, and where they succeed they bear each other's
marks: they leave one graph and enter the same waypoints
(`PlanGraph.demandWalk_iff_plainWalk`).
-/

namespace SharedPlan

namespace Walk

variable {g : PlanGraph} {q : QueryId} {v : Visit} {a : Arrival} {S : SlotSet}

/-! ## Demands of the walk, in those of the plain one -/

/-- A demand at an arrival is made of what visits ask there that the first visit leads to. -/
structure Met (g : PlanGraph) (q : QueryId) (v : Visit) (a : Arrival) (S : SlotSet) : Prop where
  visited : ∃ u, Leads g q v u ∧ u.arrival = a
  needed : ∀ z ∈ S, ∃ u, Leads g q v u ∧ u.arrival = a ∧ z ∈ u.needed

theorem Met.of_leads {u : Visit} (h : Leads g q v u) : Met g q v u.arrival u.needed :=
  ⟨⟨u, h, rfl⟩, fun _ hz => ⟨u, h, rfl, hz⟩⟩

/-- Attributes are asked for below one by one, so what accumulated visits ask below is what
each of them asks. -/
theorem spreads_met : Spreads g q (Met g q v) where
  union hS hT := ⟨hS.visited, fun z hz => (OrdSet.mem_union.1 hz).elim (hS.needed z) (hT.needed z)⟩
  below {a S w e} hS hw hc he _ hcarries hproper := by
    have hnext {u : Visit} (hu : Leads g q v u) (ha : u.arrival = a) :
        Leads g q v ⟨⟨e.sender, exitOver a e.kind⟩, w.below e.kind q u.needed⟩ := by
      subst ha
      exact hu.tail ⟨w, e, hw, hc, he, Waypoint.next_eq_some_iff.2 ⟨hcarries, hproper, rfl⟩⟩
    obtain ⟨u, hu, ha⟩ := hS.visited
    refine ⟨⟨_, hnext hu ha, rfl⟩, fun z hz => ?_⟩
    rcases Waypoint.mem_below hz with hall | ⟨hzS, hall⟩
    · exact ⟨_, hnext hu ha, rfl, hall _⟩
    · obtain ⟨u, hu, ha, hzu⟩ := hS.needed z hzS
      exact ⟨_, hnext hu ha, rfl, hall _ hzu⟩

/-- **No refusal is added**: where an accumulated demand is refused, one of the visits that
it accumulates is. -/
theorem Met.exists_not_granted (h : Met g q v a S) {err : PlanError}
    (hr : Refuses g q a S err) : ∃ u, Leads g q v u ∧ ¬Granted g q u := by
  obtain ⟨u, hu, rfl⟩ := h.visited
  cases hr with
  | unknown hnone => exact ⟨u, hu, fun hg => hg _ (.unknown hnone)⟩
  | @refused w e hw hc he hng =>
      obtain ⟨hguards, hsub⟩ := Classical.not_imp.1 hng
      obtain ⟨z, hzS, hz⟩ : ∃ z ∈ S, z ∉ (w.flow q).produced := by
        by_contra hnone
        exact hsub fun z hzS => by_contra fun hz => hnone ⟨z, hzS, hz⟩
      obtain ⟨u', hu', ha, hzu⟩ := h.needed z hzS
      refine ⟨u', hu', fun hg => ?_⟩
      have hgrants := (granted_iff_of_find? (ha ▸ hw)).1 hg hc e (ha ▸ he)
      exact hz (hgrants hguards z hzu)

/-! ## The ledger of the walk -/

/-- What a walk leaves. -/
def tour (s : Walk) : Tour := ⟨s.graph, s.entered⟩

/-- On a tour that began with a graph no marks were set but those of demands that are met. -/
def Marked (g : PlanGraph) (q : QueryId) (v : Visit) (t : Tour) : Prop :=
  ∃ l, t = (⟨g, ∅⟩ : Tour).marks q l ∧
    ∀ k ∈ l, ∃ u, Met g q v u.arrival u.needed ∧ Leaves g q u k

theorem Marked.mark {t : Tour} (h : Marked g q v t) {u : Visit}
    (hu : Met g q v u.arrival u.needed) {k : Mark} (hk : Leaves g q u k) :
    Marked g q v (t.mark q k) := by
  obtain ⟨l, rfl, hmet⟩ := h
  refine ⟨l ++ [k], (Tour.marks_append l [k]).symm, fun k' hk' => ?_⟩
  rcases List.mem_append.1 hk' with hk' | hk'
  · exact hmet k' hk'
  · obtain rfl := List.mem_singleton.1 hk'
    exact ⟨u, hu, hk⟩

/-- A demand has been passed over an input edge of its waypoint, and what it leads to is
served. -/
structure Paid (g : PlanGraph) (q : QueryId) (s : Walk) (u : Visit) (e : Edge) (w : Waypoint) :
    Prop where
  grants : w.Grants e.kind q u.needed
  marked : s.tour.Bears q (.pass u e)
  served : ∀ c, w.next q u e = some c → Serves g q s c.arrival c.needed

/-- What a walk that a visit began has done, where the edges left are still to be crossed for
the visit under way. -/
structure Ledger (g : PlanGraph) (q : QueryId) (v : Visit) (a : Arrival) (left : List Edge)
    (s : Walk) : Prop where
  within : Within g q (Met g q v) s
  marked : Marked g q v s.tour
  /-- What has been asked has been passed on. -/
  passed : ∀ b S, s.asked.get? b = some S → ∃ w, g.find? b.waypoint = some w ∧
    w.covers q = true ∧ s.tour.Bears q (.enter b.waypoint) ∧
      ∀ e ∈ g.inputs b.waypoint, Paid g q s ⟨b, S⟩ e w ∨ (b = a ∧ e ∈ left)
  /-- The visit that began the walk is served. -/
  begun : Serves g q s v.arrival v.needed

/-- Before the first step. -/
theorem Ledger.start {root : WaypointId}
    (hquiet : ∀ {n w kind x}, g.find? n = some w → w.holdsExit kind ⟨q, x⟩ = false) (a : Arrival) :
    Ledger g q ⟨⟨root, root⟩, ∅⟩ a [] (Walk.start g root) where
  within := .start rfl hquiet (.of_leads .refl)
  marked := ⟨[], rfl, fun k hk => absurd hk List.not_mem_nil⟩
  passed b S hb := by cases hb
  begun := .inl ⟨_, List.mem_singleton_self _, rfl, fun _ h => h⟩

/-- Crossing an edge sets one mark. -/
theorem tour_crossed {s : Walk} (hn : s.graph.ids.Nodup) {e : Edge} {w : Waypoint}
    (hw : s.graph.find? a.waypoint = some w) :
    (s.crossed q a S e w).tour = s.tour.mark q (.pass ⟨a, S⟩ e) :=
  congrArg (Tour.mk · s.entered) (PlanGraph.replace_answered (v := ⟨a, S⟩) hn hw e)

theorem Paid.mono {s t : Walk} (hserves : ∀ {b T}, Serves g q s b T → Serves g q t b T)
    (hbears : ∀ {k}, s.tour.Bears q k → t.tour.Bears q k) {u : Visit} {e : Edge} {w : Waypoint}
    (h : Paid g q s u e w) : Paid g q t u e w :=
  ⟨h.grants, hbears h.marked, fun c hc => hserves (h.served c hc)⟩

/-- Crossing one of the edges left keeps the ledger. -/
theorem Ledger.crossed (hn : g.ids.Nodup) {e : Edge} {left : List Edge} {s : Walk} {w : Waypoint}
    (h : Ledger g q v a (e :: left) s) (hw : s.graph.find? a.waypoint = some w)
    (ha : s.asked.get? a = some S) (he : e ∈ g.inputs a.waypoint) (hg : w.Grants e.kind q S) :
    Ledger g q v a left (s.crossed q a S e w) := by
  obtain ⟨w₀, hw₀, hc, -, -⟩ := h.passed a S ha
  obtain ⟨w', hw', hview⟩ := h.within.find? hw
  obtain rfl := Option.some.inj (hw₀.symm.trans hw')
  have hcovers : w.covers q = true := (Waypoint.covers_eq_of_unasked hview q).symm.trans hc
  have htour : (s.crossed q a S e w).tour = s.tour.mark q (.pass ⟨a, S⟩ e) :=
    tour_crossed (PlanGraph.ids_eq_of_view Waypoint.id_unasked h.within.graph ▸ hn) hw
  have hserves {b T} (hb : Serves g q s b T) : Serves g q (s.crossed q a S e w) b T :=
    (extends_crossed hw).serves hb
  have hbears {k} (hk : s.tour.Bears q k) : (s.crossed q a S e w).tour.Bears q k :=
    htour ▸ hk.mark _
  refine ⟨h.within.crossed hn spreads_met hw (h.within.asked ha) hcovers he hg,
    htour ▸ h.marked.mark (u := ⟨a, S⟩) (h.within.asked ha) ⟨w₀, hw₀, hc, .inr ⟨e, he, rfl⟩⟩, ?_,
    hserves h.begun⟩
  intro b T hb
  obtain ⟨u, hu, hcu, henter, hedges⟩ := h.passed b T hb
  refine ⟨u, hu, hcu, hbears henter, fun f hf => ?_⟩
  rcases hedges f hf with hpaid | ⟨rfl, hleft⟩
  · exact .inl (hpaid.mono hserves hbears)
  · rcases List.mem_cons.1 hleft with rfl | hleft
    · obtain rfl := Option.some.inj (ha.symm.trans hb)
      obtain rfl := Option.some.inj (hw₀.symm.trans hu)
      refine .inl ⟨(Waypoint.grants_iff_of_unasked hview ..).2 hg, ?_, fun c hnext => ?_⟩
      · rw [htour]
        exact Tour.bears_mark _
      · obtain ⟨hcarries, hproper, rfl⟩ := Waypoint.next_eq_some_iff.1 hnext
        refine .inl ⟨_, ?_, rfl, fun _ h => h⟩
        rw [h.within.stack_crossed hw, ← Waypoint.carries_eq_of_unasked hview,
          ← Waypoint.below_eq_of_unasked hview, hcarries, hproper]
        exact List.mem_cons_self
    · exact .inr ⟨rfl, hleft⟩

/-- Between visits, whatever has been asked has been passed on. -/
theorem Ledger.paid {s : Walk} (h : Ledger g q v a [] s) {b : Arrival}
    (hb : s.asked.get? b = some S) : ∃ w, g.find? b.waypoint = some w ∧ w.covers q = true ∧
      s.tour.Bears q (.enter b.waypoint) ∧ ∀ e ∈ g.inputs b.waypoint, Paid g q s ⟨b, S⟩ e w := by
  obtain ⟨w, hw, hc, henter, hedges⟩ := h.passed b S hb
  refine ⟨w, hw, hc, henter, fun e he => ?_⟩
  exact (hedges e he).resolve_right fun hleft => List.not_mem_nil hleft.2

/-- Between visits it does not matter which was the last. -/
theorem Ledger.change {s : Walk} (h : Ledger g q v a [] s) (b : Arrival) :
    Ledger g q v b [] s where
  within := h.within
  marked := h.marked
  passed c T hc := by
    obtain ⟨w, hw, hcw, henter, hedges⟩ := h.paid hc
    exact ⟨w, hw, hcw, henter, fun e he => .inl (hedges e he)⟩
  begun := h.begun

/-- A visit that stays where it is leaves the ledger as it was. -/
theorem Ledger.stay {s : Walk} {u : Visit} {rest : List Visit} (h : Ledger g q v a [] s)
    (hs : s.stack = u :: rest) {w : Waypoint} (hw : g.find? u.arrival.waypoint = some w)
    (hstay : w.covers q = false ∨ s.demandAt u = none) :
    Ledger g q v a [] { s with stack := rest } := by
  have hserves {b T} (hb : Serves g q s b T) : Serves g q { s with stack := rest } b T :=
    (extends_stay hs hw hstay).serves hb
  refine ⟨(h.within.pop hs).2, h.marked, fun b T hb => ?_, hserves h.begun⟩
  obtain ⟨x, hx, hcx, henter, hedges⟩ := h.paid hb
  exact ⟨x, hx, hcx, henter, fun e he => .inl ((hedges e he).mono hserves id)⟩

/-- Writing down the demand of the next visit leaves every input edge to be crossed. -/
theorem Ledger.entering {s : Walk} {u : Visit} {rest : List Visit} (h : Ledger g q v a [] s)
    (hs : s.stack = u :: rest) {w : Waypoint} (hw : g.find? u.arrival.waypoint = some w)
    (hc : w.covers q = true) (hd : s.demandAt u = some S) :
    Ledger g q v u.arrival (g.inputs u.arrival.waypoint)
      ({ s with stack := rest }.entering u.arrival S) := by
  obtain ⟨hneeded, hpop⟩ := h.within.pop hs
  have hmet : Met g q v u.arrival S := hpop.demandAt spreads_met hneeded hd
  have htour : ({ s with stack := rest }.entering u.arrival S).tour =
      s.tour.mark q (.enter u.arrival.waypoint) := rfl
  have hserves {b T} (hb : Serves g q s b T) :
      Serves g q ({ s with stack := rest }.entering u.arrival S) b T :=
    (extends_entering hs hd).serves hb
  have hbears {k} (hk : s.tour.Bears q k) :
      ({ s with stack := rest }.entering u.arrival S).tour.Bears q k := htour ▸ hk.mark _
  refine ⟨hpop.entering hmet,
    h.marked.mark (u := ⟨u.arrival, S⟩) hmet ⟨w, hw, hc, .inl rfl⟩, ?_, hserves h.begun⟩
  intro b T hb
  rw [Walk.entering, OrdMap.get?_insert] at hb
  split at hb
  · rename_i hbu
    subst hbu
    exact ⟨w, hw, hc, htour ▸ Tour.bears_mark _, fun e he => .inr ⟨rfl, he⟩⟩
  · obtain ⟨x, hx, hcx, henter, hedges⟩ := h.paid hb
    exact ⟨x, hx, hcx, hbears henter, fun e he => .inl ((hedges e he).mono hserves hbears)⟩

/-- A visit keeps the ledger, as each of its crossings does. -/
theorem Ledger.visit (hn : g.ids.Nodup) {s t : Walk} {u : Visit} {rest : List Visit}
    (h : Ledger g q v a [] s) (hs : s.stack = u :: rest)
    (hv : Walk.visit q u { s with stack := rest } = (.ok (), t)) :
    Ledger g q v a [] t := by
  obtain ⟨w, hw, hcase⟩ := visit_eq_ok_iff.1 hv
  obtain ⟨w₀, hw₀, hview⟩ := h.within.find? hw
  have hcovers := Waypoint.covers_eq_of_unasked hview q
  rcases hcase with ⟨hstay, rfl⟩ | ⟨hc, S, hd, hcross⟩
  · exact h.stay hs hw₀ (hstay.imp_left hcovers.trans)
  · have hentered := h.entering hs hw₀ (hcovers.trans hc) hd
    have hinputs := h.within.inputs
    have hfinal : Ledger g q v u.arrival [] t := crossAll_entering_induction hcross
      (P := Ledger g q v u.arrival) (hinputs ▸ hentered)
      fun he hasked hx hw hg => hx.crossed hn hw hasked (hinputs ▸ he) hg
    exact hfinal.change a

/-- **The ledger of a whole walk**: it is kept and no visit is left. -/
theorem Runs.ledger (hn : g.ids.Nodup) {n : Nat} {s t : Walk} (h : Runs q n s t)
    (hs : Ledger g q v a [] s) : Ledger g q v a [] t ∧ t.stack = [] := by
  induction h with
  | done hs' => exact ⟨hs, hs'⟩
  | step hstack hv _ ih => exact ih (hs.visit hn hstack hv)

/-! ## A finished walk -/

section Finished

variable {s : Walk} (h : Ledger g q v a [] s) (hs : s.stack = [])

include h hs

/-- **No demand is lost**: what a visit asks that the first one leads to has been asked, if
the waypoint takes part. -/
theorem Ledger.asked_of_leads {u : Visit} (hu : Leads g q v u)
    (hc : ∃ w, g.find? u.arrival.waypoint = some w ∧ w.covers q = true) :
    ∃ T, s.asked.get? u.arrival = some T ∧ u.needed ⊆ T := by
  induction hu with
  | refl => exact asked_of_serves hs h.begun hc
  | @tail b c _ hstep ih =>
      obtain ⟨w, e, hw, hcw, he, hnext⟩ := hstep
      obtain ⟨T, hT, hsub⟩ := ih ⟨w, hw, hcw⟩
      obtain ⟨w', hw', -, -, hpaid⟩ := h.paid hT
      obtain rfl := Option.some.inj (hw.symm.trans hw')
      obtain ⟨hcarries, hproper, rfl⟩ := Waypoint.next_eq_some_iff.1 hnext
      obtain ⟨U, hU, hTU⟩ := asked_of_serves hs
        ((hpaid e he).served _ (Waypoint.next_eq_some_iff.2 ⟨hcarries, hproper, rfl⟩)) hc
      exact ⟨U, hU, fun z hz => hTU z (Waypoint.below_mono hsub z hz)⟩

/-- What a visit asks that the first one leads to has been passed on. -/
theorem Ledger.paid_of_leads {u : Visit} (hu : Leads g q v u) {w : Waypoint}
    (hw : g.find? u.arrival.waypoint = some w) (hc : w.covers q = true) :
    s.tour.Bears q (.enter u.arrival.waypoint) ∧ ∀ e ∈ g.inputs u.arrival.waypoint,
      w.Grants e.kind q u.needed ∧ s.tour.Bears q (.pass u e) := by
  obtain ⟨T, hT, hsub⟩ := h.asked_of_leads hs hu ⟨w, hw, hc⟩
  obtain ⟨w', hw', -, henter, hpaid⟩ := h.paid hT
  obtain rfl := Option.some.inj (hw.symm.trans hw')
  refine ⟨henter, fun e he => ⟨fun hguards z hz => ?_, (hpaid e he).marked.subset hsub⟩⟩
  exact (hpaid e he).grants hguards z (hsub z hz)

/-- **No mark is missing**: the finished walk bears the marks of the plain one. -/
theorem Ledger.bears_of_leaves {u : Visit} (hu : Leads g q v u) {k : Mark}
    (hk : Leaves g q u k) : s.tour.Bears q k := by
  obtain ⟨w, hw, hc, hk⟩ := hk
  obtain ⟨henter, hedges⟩ := h.paid_of_leads hs hu hw hc
  rcases hk with rfl | ⟨e, he, rfl⟩
  · exact henter
  · exact (hedges e he).2

/-- No visit that the first one leads to is refused, if that one is not put to an unknown
waypoint. -/
theorem Ledger.granted_of_leads (hg : g.WellFormed) (hknown : v.arrival.waypoint ∈ g.ids)
    {u : Visit} (hu : Leads g q v u) : Granted g q u := by
  have hid : u.arrival.waypoint ∈ g.ids := by
    cases hu with
    | refl => exact hknown
    | tail _ hstep =>
        obtain ⟨_, he⟩ := hstep.precedes hg
        exact (PlanGraph.mem_edges.1 he).1
  obtain ⟨w, hw⟩ := PlanGraph.mem_ids_iff.1 hid
  exact (granted_iff_of_find? hw).2 fun hc e he => ((h.paid_of_leads hs hu hw hc).2 e he).1

end Finished

/-- **No mark is added**: a mark that the walk sets is borne once the visits are walked that
the first one leads to. -/
theorem Met.bears {t : Tour} (ht : ∀ u k, Leads g q v u → Leaves g q u k → t.Bears q k) {u : Visit}
    (hu : Met g q v u.arrival u.needed) {k : Mark} (hk : Leaves g q u k) : t.Bears q k := by
  obtain ⟨w, hw, hc, rfl | ⟨e, he, rfl⟩⟩ := hk
  · obtain ⟨u', hu', ha⟩ := hu.visited
    exact ht u' _ hu' ⟨w, ha ▸ hw, hc, .inl (ha ▸ rfl)⟩
  · have hpass {u' : Visit} (hu' : Leads g q v u') (ha : u'.arrival = u.arrival) :
        t.Bears q (.pass ⟨u.arrival, u'.needed⟩ e) :=
      ht u' _ hu' ⟨w, ha ▸ hw, hc, .inr ⟨e, ha ▸ he, ha ▸ rfl⟩⟩
    refine Tour.bears_of_forall ?_ fun z hz => ?_
    · obtain ⟨u', hu', ha⟩ := hu.visited
      exact ⟨_, hpass hu' ha⟩
    · obtain ⟨u', hu', ha, hz⟩ := hu.needed z hz
      exact ⟨_, hz, hpass hu' ha⟩

end Walk

namespace PlanGraph

variable {g h : PlanGraph} {active : QuerySet} {q : QueryId} {root : WaypointId}

/-! ## Before the walks -/

/-- No exit is recorded on any waypoint. -/
def Quiet (g : PlanGraph) : Prop :=
  ∀ w ∈ g.waypoints, ∀ kind e, w.holdsExit kind e = false

theorem quiet_beginCycle (g : PlanGraph) : g.beginCycle.Quiet := by
  intro w hw kind e
  obtain ⟨v, -, rfl⟩ := List.mem_map.1 hw
  exact v.holdsExit_beginCycle kind e

theorem Quiet.replace (hg : g.Quiet) {n : WaypointId} {v w : Waypoint} (hv : g.find? n = some v)
    (hw : w.unsupplied = v.unsupplied) : (g.replace w).Quiet := by
  intro u hu kind e
  obtain ⟨x, hx, rfl⟩ := List.mem_map.1 hu
  split
  · rw [← Waypoint.holdsExit_unsupplied, hw, Waypoint.holdsExit_unsupplied]
    exact hg v (mem_of_find? hv) kind e
  · exact hg x hx kind e

/-- A bottom-up pass records no exit. -/
theorem keeps_quiet (order : List WaypointId) : Attempt.Keeps Quiet (supplyPass order active) :=
  keeps_supplyPass (fun hs hw => hs.replace hw (Waypoint.unsupplied_emit _ active))
    (fun hs hw => hs.replace hw (Waypoint.unsupplied_receive ..)) order

/-- No exit of a query is recorded on any waypoint. -/
def QuietFor (g : PlanGraph) (q : QueryId) : Prop :=
  ∀ w ∈ g.waypoints, ∀ kind x, w.holdsExit kind ⟨q, x⟩ = false

theorem Quiet.quietFor (hg : g.Quiet) (q : QueryId) : g.QuietFor q :=
  fun w hw kind _ => hg w hw kind _

theorem QuietFor.follows (hg : g.QuietFor q) : g.Follows q g where
  view := rfl
  exits w hw kind x hx := by
    rw [hg w hw] at hx
    cases hx

/-! ## The two walks -/

section Walks

variable (hg : g.WellFormed) (hquiet : g.QuietFor q)

include hg hquiet

/-- A walk that succeeds leaves what the plain walk leaves. -/
theorem tour_of_runs {n : Nat} {s : Walk} (hrun : Walk.Runs q n (Walk.start g root) s)
    {l : List Mark} (hl : ∀ k, k ∈ l ↔ ∃ u, Walk.Leads g q ⟨⟨root, root⟩, ∅⟩ u ∧
      Walk.Leaves g q u k) : s.tour = (⟨g, ∅⟩ : Tour).marks q l := by
  obtain ⟨hledger, hs⟩ := hrun.ledger hg.nodup
    (.start (fun hw => hquiet _ (mem_of_find? hw) _ _) ⟨root, root⟩)
  obtain ⟨l', hl', howed⟩ := hledger.marked
  rw [hl']
  refine Tour.marks_eq_of_bears (fun k hk => ?_) fun k hk => ?_
  · obtain ⟨u, hu, hk⟩ := howed k hk
    exact hu.bears (fun u k hu hk => Tour.bears_of_mem ((hl k).2 ⟨u, hu, hk⟩)) hk
  · obtain ⟨u, hu, hk⟩ := (hl k).1 hk
    rw [← hl']
    exact hledger.bears_of_leaves hs hu hk

/-- A walk that succeeds shows that no visit of the plain one is refused. -/
theorem granted_of_runs {n : Nat} {s : Walk} (hrun : Walk.Runs q n (Walk.start g root) s)
    {u : Visit} (hu : Walk.Leads g q ⟨⟨root, root⟩, ∅⟩ u) : Walk.Granted g q u := by
  have hknown : root ∈ g.ids := by
    cases hrun with
    | done hs => cases hs
    | step hs hv _ =>
        obtain ⟨rfl, rfl⟩ := List.cons.inj hs
        obtain ⟨w, hw, -⟩ := Walk.visit_eq_ok_iff.1 hv
        exact mem_ids_iff.2 ⟨w, hw⟩
  obtain ⟨hledger, hs⟩ := hrun.ledger hg.nodup
    (.start (fun hw => hquiet _ (mem_of_find? hw) _ _) ⟨root, root⟩)
  exact hledger.granted_of_leads hs hg hknown hu

/-- A walk that fails within its bound shows that a visit of the plain one is refused. -/
theorem exists_not_granted_of_run {limit : Nat} {err : PlanError}
    (hr : Walk.run q limit limit (Walk.start g root) = (.error err, h)) :
    err = .walkLimit q limit ∨
      ∃ u, Walk.Leads g q ⟨⟨root, root⟩, ∅⟩ u ∧ ¬Walk.Granted g q u := by
  have hstart : Walk.Within g q (Walk.Met g q ⟨⟨root, root⟩, ∅⟩) (Walk.start g root) :=
    .start rfl (fun hw => hquiet _ (mem_of_find? hw) _ _) (.of_leads .refl)
  refine (hstart.run_error hg.nodup Walk.spreads_met hr).imp_right ?_
  rintro ⟨a, S, hS, hrefuses⟩
  exact hS.exists_not_granted hrefuses

end Walks

/-- On an acyclic graph without exits the two walks come to the same end. -/
theorem exists_plainWalk (hg : g.WellFormed) (hacyclic : g.Acyclic) (hquiet : g.Quiet)
    (q : QueryId) (root : WaypointId) {limit : Nat}
    (hlimit : ((demandWalk q root limit).outcome g).1 ≠ .error (.walkLimit q limit)) :
    ∃ r, g.PlainWalk q root r ∧
      ((∃ report, ((demandWalk q root limit).outcome g).1 = .ok report) ↔ ∃ t, r = .ok t) ∧
      ∀ report t, ((demandWalk q root limit).outcome g).1 = .ok report → r = .ok t →
        t.graph = ((demandWalk q root limit).outcome g).2 ∧ t.entered = report.entered := by
  have hquiet := hquiet.quietFor q
  obtain ⟨depth, hdepth⟩ :=
    Tour.exists_completes (q := q) hg hacyclic.wellFounded ⟨⟨root, root⟩, ∅⟩
  have hends := hdepth depth (Nat.le_refl depth) ⟨g, ∅⟩ hquiet.follows
  cases hwalk : (demandWalk q root limit).outcome g with
  | mk o k =>
      have hrun : Walk.run q limit limit (Walk.start g root) = (o, k) := hwalk
      rw [hwalk] at hlimit
      cases o with
      | error err =>
          obtain hbound | ⟨u, hu, hrefused⟩ := exists_not_granted_of_run hg hquiet hrun
          · exact absurd (congrArg Except.error hbound) hlimit
          obtain ⟨hgranted, -⟩ | ⟨-, e, he⟩ := hends
          · exact absurd (hgranted u hu) hrefused
          · exact ⟨_, ⟨depth, he⟩, by simp, fun report t hok => by cases hok⟩
      | ok report =>
          obtain ⟨n, s, hruns, -, rfl, rfl⟩ := Walk.runs_of_run hrun
          obtain ⟨-, t, ht, l, rfl, hl⟩ | ⟨hrefused, -⟩ := hends
          · refine ⟨_, ⟨depth, ht⟩, by simp, fun report t hok ht => ?_⟩
            obtain rfl := Except.ok.inj hok
            obtain rfl := Except.ok.inj ht
            rw [← tour_of_runs hg hquiet hruns hl]
            exact ⟨rfl, rfl⟩
          · exact absurd (fun u hu => granted_of_runs hg hquiet hruns hu) hrefused

/-- **The memory of the demand walk changes nothing.**  On an acyclic graph on which a cycle
has begun and the bottom-up pass succeeded, for whatever queries, the plain walk comes to an
end from any root.  The demand walk, within a bound on its steps that it does not exceed,
succeeds if and only if the plain walk does, and then the two leave the same graph and have
entered the same waypoints. -/
theorem demandWalk_iff_plainWalk (hg : g.Reachable) (hacyclic : g.Acyclic)
    {order : List WaypointId} (hs : (supplyPass order active).outcome g.beginCycle = (.ok (), h))
    (q : QueryId) (root : WaypointId) {limit : Nat}
    (hlimit : ((demandWalk q root limit).outcome h).1 ≠ .error (.walkLimit q limit)) :
    ∃ r, h.PlainWalk q root r ∧
      ((∃ report, ((demandWalk q root limit).outcome h).1 = .ok report) ↔ ∃ t, r = .ok t) ∧
      ∀ report t, ((demandWalk q root limit).outcome h).1 = .ok report → r = .ok t →
        t.graph = ((demandWalk q root limit).outcome h).2 ∧ t.entered = report.entered := by
  have hrenews : Renews g ((supplyPass order active).outcome g.beginCycle).2 :=
    renews_supplyPass order _ (renews_beginCycle hg)
  have hquiet : Quiet ((supplyPass order active).outcome g.beginCycle).2 :=
    keeps_quiet order _ (quiet_beginCycle g)
  rw [hs] at hrenews hquiet
  have hview := hrenews.beginCycle.symm
  have hacyclic : h.Acyclic := hacyclic.congr (ids_eq_of_view Waypoint.id_beginCycle hview)
    (links_eq_of_view hview)
  exact exists_plainWalk hrenews.reachable.wellFormed hacyclic hquiet q root hlimit

/-- The line with a second selection between the scan and the print. -/
def diamond : PlanGraph where
  waypoints := line.waypoints ++ [.fresh ⟨5⟩ "other" (.selection ∅)]
  links := line.links ++ [⟨⟨2⟩, ⟨5⟩, .flowThrough⟩, ⟨⟨5⟩, ⟨4⟩, .flowThrough⟩]
  roots := ∅

theorem diamond_reachable : diamond.Reachable := by
  have other : Waypoint.Made (.fresh ⟨5⟩ "other" (.selection ∅)) := .fresh _ _ rfl
  have h : Reachable ⟨diamond.waypoints, diamond.links.take 4, ∅⟩ :=
    .addWaypoint line_reachable other rfl
  have e₁ : addEdge ⟨diamond.waypoints, diamond.links.take 4, ∅⟩ ⟨2⟩ ⟨5⟩ .flowThrough =
      .ok ⟨diamond.waypoints, diamond.links.take 5, ∅⟩ := rfl
  have e₂ : addEdge ⟨diamond.waypoints, diamond.links.take 5, ∅⟩ ⟨5⟩ ⟨4⟩ .flowThrough =
      .ok diamond := rfl
  exact .addEdge (.addEdge h e₁) e₂

/-- Both selections ask the scan for the column; the plain walk passes the second demand on,
the other one skips it. -/
theorem demandWalk_iff_plainWalk_diamond :
    ∃ g g₁, g = (diamond.along ⟨0⟩ (.filter ∅)).enrolAt ⟨5⟩ ⟨0⟩ (.filter ∅) ∧ g.Acyclic ∧
      (supplyPass [⟨2⟩, ⟨3⟩, ⟨5⟩, ⟨4⟩] (.singleton ⟨0⟩)).outcome g.beginCycle = (.ok (), g₁) ∧
      ∃ report t, ((demandWalk ⟨0⟩ ⟨4⟩ 5).outcome g₁).1 = .ok report ∧
        g₁.PlainWalk ⟨0⟩ ⟨4⟩ (.ok t) ∧ t.graph = ((demandWalk ⟨0⟩ ⟨4⟩ 5).outcome g₁).2 ∧
        t.entered = report.entered := by
  obtain ⟨g, hg⟩ : ∃ g, g = (diamond.along ⟨0⟩ (.filter ∅)).enrolAt ⟨5⟩ ⟨0⟩ (.filter ∅) :=
    ⟨_, rfl⟩
  have hreachable : g.Reachable := hg ▸ (diamond_reachable.along _ _).enrolAt ..
  have ho : g.topologicalOrder = .ok [⟨2⟩, ⟨3⟩, ⟨5⟩, ⟨4⟩] := by
    rw [hg]
    decide +kernel
  have hacyclic := acyclic_of_topologicalOrder hreachable.wellFormed ho
  obtain ⟨g₁, hg₁⟩ : ∃ g₁, g₁ =
    ((supplyPass [⟨2⟩, ⟨3⟩, ⟨5⟩, ⟨4⟩] (.singleton ⟨0⟩)).outcome g.beginCycle).2 := ⟨_, rfl⟩
  have hs : ((supplyPass [⟨2⟩, ⟨3⟩, ⟨5⟩, ⟨4⟩] (.singleton ⟨0⟩)).outcome g.beginCycle).1 =
      .ok () := by
    rw [hg]
    decide +kernel
  have hpass : (supplyPass [⟨2⟩, ⟨3⟩, ⟨5⟩, ⟨4⟩] (.singleton ⟨0⟩)).outcome g.beginCycle =
      (.ok (), g₁) := Prod.ext hs hg₁.symm
  have hwalk : ((demandWalk ⟨0⟩ ⟨4⟩ 5).outcome g₁).1 =
      .ok ⟨5, .ofList [⟨2⟩, ⟨3⟩, ⟨4⟩, ⟨5⟩]⟩ := by
    rw [hg₁, hg]
    decide +kernel
  obtain ⟨r, hplain, hiff, hsame⟩ := demandWalk_iff_plainWalk hreachable hacyclic hpass ⟨0⟩ ⟨4⟩
    (by rw [hwalk]; simp)
  obtain ⟨t, rfl⟩ := hiff.1 ⟨_, hwalk⟩
  exact ⟨g, g₁, hg, hacyclic, hpass, _, t, hwalk, hplain, hsame _ t hwalk rfl⟩

end PlanGraph

end SharedPlan
