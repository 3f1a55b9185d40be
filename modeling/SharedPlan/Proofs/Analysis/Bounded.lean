import Mathlib.Algebra.BigOperators.Ring.Finset
import Mathlib.Algebra.Group.Action.Defs
import Mathlib.Algebra.Order.BigOperators.Group.Finset
import SharedPlan.Proofs.Analysis.Spread
import SharedPlan.Proofs.Graph.Cycles
import SharedPlan.Proofs.Graph.Linked
import SharedPlan.Proofs.Waypoint.Repeat

/-!
# SharedPlan.Proofs.Analysis.Bounded

The demand walk comes to an end by itself, round cycles too, and its limit only cuts it
short.

`Walk.Finishes` is the walk without a limit.  What it asks for stays within what the
waypoints want themselves (`PlanGraph.wanted`, `Walk.Confined`).  So at each arrival
there is room for so many larger demands (`room`), and a visit pushes no more visits than
edges lead into its waypoint.  Weighing the room at each arrival with these edges, and
adding the visits on the stack, gives a number that every visit lowers
(`Walk.Confined.visit`); at the start it is the bound.
-/

namespace SharedPlan

namespace OrdSet

variable {α : Type} [Ord α] [Std.ReflOrd α] {s t : OrdSet α}

theorem size_le_of_subset (h : s ⊆ t) : s.size ≤ t.size :=
  (List.subperm_of_subset s.nodup_toList h).length_le

/-- A set that holds a further member is larger. -/
theorem size_lt_of_subset (h : s ⊆ t) {a : α} (ha : a ∈ t) (hnot : a ∉ s) : s.size < t.size :=
  (List.subperm_of_subset (List.nodup_cons.2 ⟨hnot, s.nodup_toList⟩)
    (List.cons_subset.2 ⟨ha, h⟩)).length_le

end OrdSet

/-! ## What the waypoints want -/

/-- What a waypoint may ask for below that it is not asked for itself: what the query uses
here, the columns of a join and what it joins against, and what is written into a scanner. -/
def Waypoint.wanted (w : Waypoint) (q : QueryId) : SlotSet :=
  (w.flow q).used ∪
    match w.role with
    | .join columns _ shares => columns ∪ (shares.get q).rhs.getD ∅
    | .scanner _ _ shares => (shares.get q).writes.getD ∅
    | _ => ∅

namespace Waypoint

variable {v w : Waypoint} {q : QueryId}

theorem below_empty_subset {kind : EdgeKind} : w.below kind q ∅ ⊆ w.wanted q := by
  refine OrdSet.subset_def.2 fun z hz => ?_
  cases hr : w.role with
  | join _ _ shares =>
      cases hb : (w.flow q).bypassed <;>
        cases hf : (shares.get q).joinKind.forwardsRight <;>
        cases kind <;>
        simp only [below, wanted, hr, hb, hf, if_true, if_false, Bool.false_eq_true,
          OrdSet.mem_union, OrdSet.mem_inter, OrdSet.not_mem_empty] at hz ⊢ <;>
        grind
  | selection _ =>
      cases hb : (w.flow q).bypassed <;>
        simp only [below, wanted, hr, hb, if_true, if_false, Bool.false_eq_true, Flow.forward,
          OrdSet.mem_sdiff, OrdSet.mem_union, OrdSet.not_mem_empty, false_or] at hz ⊢
      exact .inl hz.1
  | transform _ | cache _ | compact _ =>
      simp only [below, wanted, hr, Flow.forward, OrdSet.mem_sdiff, OrdSet.mem_union,
        OrdSet.not_mem_empty, false_or] at hz ⊢
      exact .inl hz.1
  | scanner _ _ _ =>
      cases kind <;> simp only [below, wanted, hr, OrdSet.mem_union, OrdSet.not_mem_empty] at hz ⊢
      exact .inr hz
  | aggregate _ | print _ | cluster _ _ =>
      simp only [below, hr] at hz
      exact OrdSet.mem_union.2 (.inl hz)
  | textLoader _ _ | ingest _ _ | iterative _ =>
      simp only [below, hr, OrdSet.not_mem_empty] at hz

/-- **A waypoint asks for nothing below** but what it is asked for and what it wants. -/
theorem below_subset {kind : EdgeKind} {S : SlotSet} : w.below kind q S ⊆ S ∪ w.wanted q := by
  intro z hz
  rcases mem_below hz with hall | ⟨hS, -⟩
  · exact OrdSet.mem_union.2 (.inr (below_empty_subset z (hall ∅)))
  · exact OrdSet.mem_union.2 (.inl hS)

@[simp] theorem wanted_unasked : w.unasked.wanted q = w.wanted q := by
  cases hr : w.role with
  | scanner _ _ _ => simp [wanted, hr, Role.unasked, Flow.unasked, ScannerShare.unasked]
  | join _ _ shares =>
      simp only [wanted, role_unasked, hr, Role.unasked, flow_unasked, JoinShare.get_unasked]
      rfl
  | _ => simp [wanted, hr, Role.unasked, Flow.unasked]

theorem wanted_eq_of_unasked (h : v.unasked = w.unasked) : v.wanted q = w.wanted q := by
  rw [← wanted_unasked, h, wanted_unasked]

end Waypoint

namespace PlanGraph

/-- What the waypoints of a graph want for a query. -/
def wanted (g : PlanGraph) (q : QueryId) : SlotSet :=
  .ofList (g.waypoints.flatMap fun w => (w.wanted q).toList)

theorem wanted_subset {g : PlanGraph} {q : QueryId} {w : Waypoint} (hw : w ∈ g.waypoints) :
    w.wanted q ⊆ g.wanted q :=
  fun _ hz => OrdSet.mem_ofList.2 (List.mem_flatMap.2 ⟨w, hw, hz⟩)

/-! ## The frame of a graph -/

/-- A graph with the waypoints and edges of one that can be built, whatever is kept at its
waypoints. -/
def Framed (h : PlanGraph) : Prop :=
  ∃ g : PlanGraph, g.Reachable ∧ g.ids = h.ids ∧ g.links = h.links

/-- Every edge of a list is counted at the waypoint it leads into. -/
theorem sum_load {l : List Edge} {ns : Finset WaypointId} (h : ∀ e ∈ l, e.receiver ∈ ns) :
    ∑ n ∈ ns, load l n = l.length := by
  induction l with
  | nil => simp [load]
  | cons e rest ih =>
      have hrest := ih fun e he => h e (List.mem_cons_of_mem _ he)
      simp only [load, List.countP_cons, decide_eq_true_eq, List.length_cons,
        Finset.sum_add_distrib, Finset.sum_ite_eq, h e List.mem_cons_self, if_true] at hrest ⊢
      rw [hrest]

theorem Reachable.framed {g : PlanGraph} (hg : g.Reachable) : g.Framed := ⟨g, hg, rfl, rfl⟩

namespace Framed

variable {g : PlanGraph}

theorem mapWaypoints (hg : g.Framed) {f : Waypoint → Waypoint} (hid : ∀ w, (f w).id = w.id) :
    (g.mapWaypoints f).Framed := by
  obtain ⟨g₀, hg₀, hids, hlinks⟩ := hg
  exact ⟨g₀, hg₀, hids.trans (ids_mapWaypoints hid g).symm, hlinks⟩

theorem nodup (hg : g.Framed) : g.ids.Nodup := by
  obtain ⟨g₀, hg₀, hids, -⟩ := hg
  exact hids ▸ hg₀.wellFormed.nodup

theorem receiver_mem (hg : g.Framed) {e : Edge} (he : e ∈ g.edges) : e.receiver ∈ g.ids := by
  obtain ⟨g₀, hg₀, hids, hlinks⟩ := hg
  rw [← edges_congr hids hlinks] at he
  exact hids ▸ mem_ids_of_precedes hg₀.wellFormed ⟨e.kind, he⟩

/-- Of the edges into a waypoint, those from other waypoints are edges between waypoints. -/
theorem countP_inputs_le (hg : g.Framed) (n : WaypointId) :
    (g.inputs n).countP (fun e => !e.sender.isSentinel) ≤ load g.edges n := by
  obtain ⟨g₀, hg₀, hids, hlinks⟩ := hg
  rw [← inputs_congr hids hlinks, ← edges_congr hids hlinks, load, List.countP_eq_length_filter,
    List.countP_eq_length_filter]
  refine (List.subperm_of_subset ?_ fun e he => ?_).length_le
  · have hlinks : g₀.links.Nodup := hg₀.linked.apart.imp (by rintro e _ h rfl; exact h ⟨rfl, rfl⟩)
    unfold inputs
    split
    · exact (hlinks.filter _).filter _
    · exact .nil
  · obtain ⟨hinput, hproper⟩ := List.mem_filter.1 he
    obtain ⟨hreceiver, hedge | ⟨rfl, -⟩⟩ := (mem_inputs_iff hg₀.wellFormed hg₀.linked).1 hinput
    · exact List.mem_filter.2 ⟨hedge, decide_eq_true hreceiver⟩
    · cases hproper

end Framed

end PlanGraph

namespace Walk

variable {q : QueryId} {g : PlanGraph} {s t : Walk} {n : Nat}

/-! ## The walk without a limit -/

/-- Without a limit, a walk ends after a number of visits: with the waypoints it entered
once none is left, or at the first visit that fails. -/
inductive Finishes (q : QueryId) :
    Nat → Walk → Except PlanError (OrdSet WaypointId) → PlanGraph → Prop
  | done {s : Walk} : s.stack = [] → Finishes q 0 s (.ok s.entered) s.graph
  | fail {s t : Walk} {v : Visit} {rest : List Visit} {e : PlanError} :
      s.stack = v :: rest → visit q v { s with stack := rest } = (.error e, t) →
        Finishes q 1 s (.error e) t.graph
  | step {n : Nat} {s t : Walk} {v : Visit} {rest : List Visit}
      {r : Except PlanError (OrdSet WaypointId)} {k : PlanGraph} :
      s.stack = v :: rest → visit q v { s with stack := rest } = (.ok (), t) →
        Finishes q n t r k → Finishes q (n + 1) s r k

namespace Finishes

variable {r : Except PlanError (OrdSet WaypointId)} {k : PlanGraph}

/-- A walk that ends within its bound is not cut. -/
theorem run_eq (h : Finishes q n s r k) {limit remaining : Nat} (hn : n ≤ remaining) :
    run q limit remaining s = (r.map fun entered => ⟨limit - (remaining - n), entered⟩, k) := by
  induction h generalizing remaining with
  | done hs => exact run_nil hs limit remaining
  | fail hs hv =>
      obtain ⟨remaining, rfl⟩ := Nat.exists_eq_add_of_le' hn
      rw [run_succ hs, hv]
      rfl
  | step hs hv _ ih =>
      obtain ⟨remaining, rfl⟩ := Nat.exists_eq_add_of_le' (Nat.le_of_add_left_le hn)
      rw [run_succ hs, hv]
      simp only
      rw [ih (Nat.le_of_add_le_add_right hn), Nat.add_sub_add_right]

/-- A walk that does not end within its bound is cut there. -/
theorem run_of_lt (h : Finishes q n s r k) {limit remaining : Nat} (hn : remaining < n) :
    (run q limit remaining s).1 = .error (.walkLimit q limit) := by
  induction h generalizing remaining with
  | done _ => exact absurd hn (Nat.not_lt_zero _)
  | fail hs _ =>
      obtain rfl := Nat.lt_one_iff.1 hn
      rw [run_zero hs]
  | step hs hv _ ih =>
      cases remaining with
      | zero => rw [run_zero hs]
      | succ remaining =>
          rw [run_succ hs, hv]
          exact ih (Nat.lt_of_succ_lt_succ hn)

/-- What stops the walk by itself is not the limit. -/
theorem ne_walkLimit (h : Finishes q n s r k) (p : QueryId) (limit : Nat) :
    r ≠ .error (.walkLimit p limit) := by
  induction h with
  | done _ => exact fun h => nomatch h
  | step _ _ _ ih => exact ih
  | fail _ hv =>
      obtain ⟨-, rfl⟩ | ⟨_, _, -, -, -, hcross⟩ := visit_eq_error hv
      · exact fun h => nomatch h
      obtain ⟨_, _, _, -, -, hfail⟩ := crossAll_eq_error hcross
      obtain ⟨-, rfl⟩ | ⟨_, -, -, rfl⟩ := cross_eq_error hfail <;> exact fun h => nomatch h

end Finishes

/-! ## What there is still room for -/

/-- How often the demand at an arrival can still grow among so many attributes; where
nothing has been asked, it can also be asked for no attribute at all. -/
def room (attributes : Nat) : Option SlotSet → Nat
  | none => attributes + 1
  | some S => attributes - S.size

/-- The visits that may still be pushed: at each arrival, as often as there is room, one
over each edge into the waypoint. -/
def toGo (g : PlanGraph) (q : QueryId) (asked : OrdMap Arrival SlotSet) : Nat :=
  ∑ p ∈ g.ids.toFinset ×ˢ g.ids.toFinset,
    PlanGraph.load g.edges p.1 * room (g.wanted q).size (asked.get? ⟨p.1, p.2⟩)

/-- The visits on the stack and those that may still be pushed. -/
def potential (g : PlanGraph) (q : QueryId) (s : Walk) : Nat := s.stack.length + toGo g q s.asked

theorem toGo_empty (hg : g.Framed) :
    toGo g q ∅ = g.edges.length * g.size * ((g.wanted q).size + 1) := by
  have hcard : g.ids.toFinset.card = g.size := by
    rw [List.toFinset_card_of_nodup hg.nodup, PlanGraph.ids, List.length_map, PlanGraph.size]
  have hload : ∑ n ∈ g.ids.toFinset, PlanGraph.load g.edges n = g.edges.length :=
    PlanGraph.sum_load fun e he => List.mem_toFinset.2 (hg.receiver_mem he)
  simp only [toGo, OrdMap.get?_empty, room, Finset.sum_product, Finset.sum_const, hcard,
    smul_eq_mul]
  rw [← Finset.mul_sum, ← Finset.sum_mul, hload, Nat.mul_left_comm, Nat.mul_assoc]

/-- A demand that grows at an arrival takes room away there for as many visits as edges lead
into the waypoint. -/
theorem toGo_insert {asked : OrdMap Arrival SlotSet} {a : Arrival} {S : SlotSet}
    (hn : a.waypoint ∈ g.ids) (hx : a.exit ∈ g.ids)
    (hroom : room (g.wanted q).size (some S) < room (g.wanted q).size (asked.get? a)) :
    toGo g q (asked.insert a S) + PlanGraph.load g.edges a.waypoint ≤ toGo g q asked := by
  have hmem : (a.waypoint, a.exit) ∈ g.ids.toFinset ×ˢ g.ids.toFinset :=
    Finset.mem_product.2 ⟨List.mem_toFinset.2 hn, List.mem_toFinset.2 hx⟩
  have hsingle : PlanGraph.load g.edges a.waypoint =
      ∑ p ∈ g.ids.toFinset ×ˢ g.ids.toFinset,
        if p = (a.waypoint, a.exit) then PlanGraph.load g.edges a.waypoint else 0 := by
    rw [Finset.sum_ite_eq', if_pos hmem]
  rw [hsingle, toGo, toGo, ← Finset.sum_add_distrib]
  refine Finset.sum_le_sum fun p _ => ?_
  rw [OrdMap.get?_insert]
  by_cases hp : p = (a.waypoint, a.exit)
  · subst hp
    rw [if_pos rfl, if_pos rfl, ← Nat.mul_succ]
    exact Nat.mul_le_mul_left _ hroom
  · have hne : (⟨p.1, p.2⟩ : Arrival) ≠ a := by
      rintro rfl
      exact hp rfl
    rw [if_neg hp, if_neg hne, Nat.add_zero]

/-- What is asked altogether leaves less room than there was. -/
theorem room_demandAt {v : Visit} {needed : SlotSet} (hd : s.demandAt v = some needed)
    {U : SlotSet} (hU : needed ⊆ U) :
    room U.size (some needed) < room U.size (s.asked.get? v.arrival) := by
  obtain ⟨hnone, -⟩ | ⟨seen, hseen, hnew, rfl⟩ := eq_of_demandAt hd
  · rw [hnone]
    exact Nat.lt_succ_of_le (Nat.sub_le ..)
  · obtain ⟨z, hz, hnot⟩ : ∃ z ∈ v.needed, z ∉ seen := by
      by_contra hnone
      exact hnew fun z hz => by_contra fun hnot => hnone ⟨z, hz, hnot⟩
    have hlt : seen.size < (seen ∪ v.needed).size :=
      OrdSet.size_lt_of_subset (fun x hx => OrdSet.mem_union.2 (.inl hx))
        (OrdSet.mem_union.2 (.inr hz)) hnot
    rw [hseen]
    exact Nat.sub_lt_sub_left (hlt.trans_le (OrdSet.size_le_of_subset hU)) hlt

/-! ## What a walk keeps to -/

/-- A walk from a graph that asks for nothing but what the waypoints want.  Exits may have been
held before it began, so a visit may be pushed over an edge that the query is not carried
over; that `Within` rules out. -/
structure Confined (g : PlanGraph) (q : QueryId) (s : Walk) : Prop where
  /-- Nothing but answers has changed. -/
  graph : s.graph.mapWaypoints Waypoint.unasked = g.mapWaypoints Waypoint.unasked
  exit_mem : ∀ v ∈ s.stack, v.arrival.exit ∈ g.ids
  stacked : ∀ v ∈ s.stack, v.needed ⊆ g.wanted q
  asked : ∀ {a S}, s.asked.get? a = some S → S ⊆ g.wanted q

theorem Confined.start {root : WaypointId} (hroot : root ∈ g.ids) :
    Confined g q (Walk.start g root) where
  graph := rfl
  exit_mem v hv := List.mem_singleton.1 hv ▸ hroot
  stacked v hv := List.mem_singleton.1 hv ▸ OrdSet.empty_subset _
  asked ha := by cases ha

namespace Confined

theorem ids (h : Confined g q s) : s.graph.ids = g.ids :=
  PlanGraph.ids_eq_of_view Waypoint.id_unasked h.graph

theorem inputs (h : Confined g q s) : s.graph.inputs = g.inputs :=
  PlanGraph.inputs_congr h.ids (PlanGraph.links_eq_of_view h.graph)

theorem pop (h : Confined g q s) {v : Visit} {rest : List Visit} (hs : s.stack = v :: rest) :
    Confined g q { s with stack := rest } where
  graph := h.graph
  exit_mem u hu := h.exit_mem u (hs ▸ List.mem_cons_of_mem v hu)
  stacked u hu := h.stacked u (hs ▸ List.mem_cons_of_mem v hu)
  asked := h.asked

theorem demandAt (h : Confined g q s) {v : Visit} (hv : v.needed ⊆ g.wanted q) {needed : SlotSet}
    (hd : s.demandAt v = some needed) : needed ⊆ g.wanted q := by
  obtain ⟨-, rfl⟩ | ⟨seen, hseen, -, rfl⟩ := eq_of_demandAt hd
  · exact hv
  · exact fun z hz => (OrdSet.mem_union.1 hz).elim (h.asked hseen z) (hv z)

theorem entering (h : Confined g q s) {a : Arrival} {needed : SlotSet}
    (hneeded : needed ⊆ g.wanted q) : Confined g q (s.entering a needed) where
  graph := h.graph
  exit_mem := h.exit_mem
  stacked := h.stacked
  asked {b S} hb := by
    rw [Walk.entering, OrdMap.get?_insert] at hb
    split at hb
    · exact Option.some.inj hb ▸ hneeded
    · exact h.asked hb

/-- Crossing an edge asks for what was asked, and for what the waypoint wants itself. -/
theorem crossed (hn : g.ids.Nodup) (h : Confined g q s) {a : Arrival} {needed : SlotSet} {e : Edge}
    {w : Waypoint} (hw : s.graph.find? a.waypoint = some w) (hx : a.exit ∈ g.ids)
    (hneeded : needed ⊆ g.wanted q) : Confined g q (s.crossed q a needed e w) := by
  have hpushed {v : Visit} (hv : v ∈ (s.crossed q a needed e w).stack) :
      v ∈ s.stack ∨ v = ⟨⟨e.sender, exitOver a e.kind⟩, w.below e.kind q needed⟩ := by
    simp only [Walk.crossed] at hv
    split at hv
    · exact (List.mem_cons.1 hv).symm
    · exact .inl hv
  have hexit : exitOver a e.kind ∈ g.ids := by
    cases e.kind with
    | flowThrough => exact hx
    | terminating => exact h.ids ▸ PlanGraph.mem_ids_iff.2 ⟨w, hw⟩
  have hbelow : w.below e.kind q needed ⊆ g.wanted q := by
    obtain ⟨w₀, hw₀, hview⟩ := PlanGraph.exists_find?_of_view Waypoint.id_unasked h.graph hw
    have hwanted := PlanGraph.wanted_subset (q := q) (PlanGraph.mem_of_find? hw₀)
    rw [Waypoint.wanted_eq_of_unasked hview] at hwanted
    intro z hz
    exact (OrdSet.mem_union.1 (Waypoint.below_subset z hz)).elim (hneeded z) (hwanted z)
  refine ⟨?_, fun v hv => ?_, fun v hv => ?_, h.asked⟩
  · exact (view_crossed (fun _ _ _ _ => Waypoint.unasked_answered ..) (h.ids ▸ hn) hw).trans h.graph
  · rcases hpushed hv with hv | rfl
    · exact h.exit_mem v hv
    · exact hexit
  · rcases hpushed hv with hv | rfl
    · exact h.stacked v hv
    · exact hbelow

theorem crossAll (hn : g.ids.Nodup) (h : Confined g q s) {a : Arrival} {needed : SlotSet}
    (hx : a.exit ∈ g.ids) (hneeded : needed ⊆ g.wanted q) {l : List Edge}
    (hc : Walk.crossAll q a needed l s = (.ok (), t)) : Confined g q t :=
  crossAll_induction (P := fun _ u => Confined g q u)
    (fun hu hw _ => hu.crossed hn hw hx hneeded) hc h

end Confined

/-- Crossing edges pushes a visit over each edge from another waypoint, at most. -/
theorem length_stack_crossAll {a : Arrival} {needed : SlotSet} {l : List Edge}
    (h : crossAll q a needed l s = (.ok (), t)) :
    t.stack.length ≤ s.stack.length + l.countP fun e => !e.sender.isSentinel := by
  refine crossAll_induction (P := fun l' u =>
    u.stack.length + l'.countP (fun e => !e.sender.isSentinel) ≤
      s.stack.length + l.countP fun e => !e.sender.isSentinel) ?_ h le_rfl
  intro e rest u w hu _ _
  rw [List.countP_cons] at hu
  simp only [crossed]
  split
  · rename_i hpush
    rw [if_pos (Bool.and_eq_true_iff.1 hpush).2] at hu
    rw [List.length_cons]
    omega
  · omega

/-- **Every visit lowers the potential** and keeps to what the waypoints want. -/
theorem Confined.visit (hg : g.Framed) (h : Confined g q s) {v : Visit} {rest : List Visit}
    (hs : s.stack = v :: rest) (hv : Walk.visit q v { s with stack := rest } = (.ok (), t)) :
    Confined g q t ∧ potential g q t < potential g q s := by
  have hpop := h.pop hs
  have hlower : potential g q { s with stack := rest } < potential g q s := by
    simp only [potential, hs, List.length_cons]
    omega
  obtain ⟨w, hw, ⟨-, rfl⟩ | ⟨-, needed, hd, hc⟩⟩ := visit_eq_ok_iff.1 hv
  · exact ⟨hpop, hlower⟩
  · have hexit := h.exit_mem v (hs ▸ List.mem_cons_self)
    have hneeded := hpop.demandAt (h.stacked v (hs ▸ List.mem_cons_self)) hd
    have hmem : v.arrival.waypoint ∈ g.ids := hpop.ids ▸ PlanGraph.mem_ids_iff.2 ⟨w, hw⟩
    refine ⟨(hpop.entering hneeded).crossAll hg.nodup hexit hneeded hc, hlower.trans_le' ?_⟩
    -- the visits that are pushed are paid for by the room that is taken away
    have hpushed := length_stack_crossAll hc
    rw [hpop.inputs] at hpushed
    have hpaid : toGo g q (s.asked.insert v.arrival needed) +
        PlanGraph.load g.edges v.arrival.waypoint ≤ toGo g q s.asked :=
      toGo_insert hmem hexit (room_demandAt hd hneeded)
    have hinputs := hg.countP_inputs_le v.arrival.waypoint
    simp only [potential, crossAll_asked hc]
    simp only [Walk.entering] at hpushed ⊢
    omega

/-- **A walk ends by itself** after no more visits than its potential. -/
theorem Confined.exists_finishes (hg : g.Framed) (h : Confined g q s) :
    ∃ n r k, Finishes q n s r k ∧ n ≤ potential g q s := by
  induction hp : potential g q s using Nat.strong_induction_on generalizing s with
  | _ p ih =>
      subst hp
      cases hs : s.stack with
      | nil => exact ⟨0, _, _, .done hs, Nat.zero_le _⟩
      | cons v rest =>
          have hpos : 1 ≤ potential g q s := by
            simp only [potential, hs, List.length_cons]
            omega
          cases hv : Walk.visit q v { s with stack := rest } with
          | mk r t =>
              cases r with
              | error e => exact ⟨1, _, _, .fail hs hv, hpos⟩
              | ok _ =>
                  obtain ⟨hconfined, hlt⟩ := h.visit hg hs hv
                  obtain ⟨n, r, k, hfin, hn⟩ := ih _ hlt hconfined rfl
                  exact ⟨n + 1, r, k, .step hs hv hfin, Nat.succ_le_of_lt (hn.trans_lt hlt)⟩

/-- The walk from a waypoint that is not there fails at its first visit. -/
theorem finishes_of_not_mem {root : WaypointId} (hroot : root ∉ g.ids) :
    Finishes q 1 (Walk.start g root) (.error (.unknownId root)) g := by
  have hnone : g.find? root = none := by
    rw [Option.eq_none_iff_forall_ne_some]
    exact fun w hw => hroot (PlanGraph.mem_ids_iff.2 ⟨w, hw⟩)
  have hvisit : Walk.visit q ⟨⟨root, root⟩, ∅⟩ ⟨g, ∅, ∅, []⟩ =
      (.error (.unknownId root), ⟨g, ∅, ∅, []⟩) := by
    simp only [Walk.visit, PlanGraph.waypoint_of_find?_eq_none hnone]
  exact .fail (s := Walk.start g root) rfl hvisit

end Walk

namespace PlanGraph

/-- **The demand walk ends without its limit, and the limit only cuts.**  On the waypoints and
edges of any graph that can be built, whatever is kept at the waypoints, the walk of a query
from any root ends by itself within a bound: one visit, and for each edge, for each waypoint
as an exit, one for each attribute that is wanted and one more.  With a limit the walk does
the same where that takes no more visits than the limit, else it fails for the limit; so it
never fails for a limit that is not below the bound. -/
theorem demandWalk_bounded {g : PlanGraph} (hg : g.Framed) (q : QueryId) (root : WaypointId) :
    ∃ n r k, Walk.Finishes q n (Walk.start g root) r k ∧
      n ≤ 1 + g.edges.length * g.size * ((g.wanted q).size + 1) ∧
      (∀ limit, n ≤ limit →
        (demandWalk q root limit).outcome g = (r.map fun entered => ⟨n, entered⟩, k)) ∧
      (∀ limit, limit < n →
        ((demandWalk q root limit).outcome g).1 = .error (.walkLimit q limit)) ∧
      ∀ limit, 1 + g.edges.length * g.size * ((g.wanted q).size + 1) ≤ limit → ∀ p l,
        ((demandWalk q root limit).outcome g).1 ≠ .error (.walkLimit p l) := by
  obtain ⟨n, r, k, hfin, hn⟩ : ∃ n r k, Walk.Finishes q n (Walk.start g root) r k ∧
      n ≤ 1 + g.edges.length * g.size * ((g.wanted q).size + 1) := by
    by_cases hroot : root ∈ g.ids
    · obtain ⟨n, r, k, hfin, hn⟩ := (Walk.Confined.start (q := q) hroot).exists_finishes hg
      exact ⟨n, r, k, hfin, Walk.toGo_empty (q := q) hg ▸ hn⟩
    · exact ⟨1, _, _, Walk.finishes_of_not_mem hroot, Nat.le_add_right ..⟩
  have hrun (limit : Nat) (hlimit : n ≤ limit) :
      (demandWalk q root limit).outcome g = (r.map fun entered => ⟨n, entered⟩, k) := by
    have hrun : Walk.run q limit limit (Walk.start g root) = _ := hfin.run_eq hlimit
    rwa [Nat.sub_sub_self hlimit] at hrun
  refine ⟨n, r, k, hfin, hn, hrun, fun limit hlimit => hfin.run_of_lt hlimit, ?_⟩
  intro limit hlimit p l
  rw [hrun limit (hn.trans hlimit)]
  cases r with
  | ok entered => exact fun h => nomatch h
  | error e => exact fun h => hfin.ne_walkLimit p l (congrArg _ (Except.error.inj h))

/-- A graph with a cycle on which a query uses one attribute of its own at each waypoint, and
each waypoint emits those of all. -/
def spinning : PlanGraph :=
  looped.mapWaypoints fun w => w.modifyFlow ⟨0⟩ fun f =>
    { f with
      covered := true
      used := .singleton ⟨w.id.val⟩
      produced := .ofList [⟨2⟩, ⟨3⟩, ⟨4⟩, ⟨5⟩] }

theorem spinning_framed : spinning.Framed := looped_reachable.framed.mapWaypoints fun _ => rfl

/-- Round the cycle the demand grows until it holds every attribute: eight visits. -/
theorem demandWalk_bounded_spinning :
    ((demandWalk ⟨0⟩ ⟨3⟩ 8).outcome spinning).1 = .ok ⟨8, .ofList [⟨2⟩, ⟨3⟩, ⟨4⟩, ⟨5⟩]⟩ ∧
      (∃ r k, Walk.Finishes ⟨0⟩ 8 (Walk.start spinning ⟨3⟩) r k) ∧
      (∀ limit, limit < 8 →
        ((demandWalk ⟨0⟩ ⟨3⟩ limit).outcome spinning).1 = .error (.walkLimit ⟨0⟩ limit)) ∧
      ∀ limit, 81 ≤ limit → ∀ p l,
        ((demandWalk ⟨0⟩ ⟨3⟩ limit).outcome spinning).1 ≠ .error (.walkLimit p l) := by
  have height : ((demandWalk ⟨0⟩ ⟨3⟩ 8).outcome spinning).1 =
      .ok ⟨8, .ofList [⟨2⟩, ⟨3⟩, ⟨4⟩, ⟨5⟩]⟩ := by decide +kernel
  have hbound : 1 + spinning.edges.length * spinning.size * ((spinning.wanted ⟨0⟩).size + 1) =
      81 := by decide +kernel
  obtain ⟨n, r, k, hfin, -, hwhole, hcut, hnever⟩ := demandWalk_bounded spinning_framed ⟨0⟩ ⟨3⟩
  obtain rfl : n = 8 := by
    have hle : n ≤ 8 := Nat.le_of_not_lt fun hlt => by
      rw [hcut 8 hlt] at height
      cases height
    rw [hwhole 8 hle] at height
    cases r with
    | error _ => cases height
    | ok _ => exact congrArg WalkReport.steps (Except.ok.inj height)
  exact ⟨height, ⟨r, k, hfin⟩, hcut, fun limit hlimit => hnever limit (hbound ▸ hlimit)⟩

end PlanGraph

end SharedPlan
