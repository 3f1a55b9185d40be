import Mathlib.Logic.Relation
import SharedPlan.Proofs.Analysis.Marks
import SharedPlan.Proofs.Analysis.Spread
import SharedPlan.Proofs.Graph.Order

/-!
# SharedPlan.Proofs.Analysis.Plain

The demand walk without memory.

`Tour.plain` passes every demand on as soon as it arrives, once for each path, and does
not look at what was demanded before.  On an acyclic graph it comes to an end
(`Tour.exists_completes`): it fails if one of the visits that the first one leads to
(`Walk.Leads`) is refused, and else it has set exactly the marks of these visits.
-/

namespace SharedPlan

open Walk (exitOver)

namespace Tour

/-- Pass the demand of a visit over an input edge.  The sender is visited next if the
waypoint carries the query over the edge. -/
def pass (q : QueryId) (v : Visit) (e : Edge) (t : Tour) :
    Except PlanError (Option Visit × Tour) := do
  let w ← t.graph.waypoint v.arrival.waypoint
  let exit := exitOver v.arrival e.kind
  let (below, w) ← w.ask e.kind q v.needed ⟨q, exit⟩
  let next :=
    if w.holdsExit e.kind ⟨q, exit⟩ && !e.sender.isSentinel then some ⟨⟨e.sender, exit⟩, below⟩
    else none
  return (next, { t with graph := t.graph.replace w })

/-- Walk a visit, and at once every visit that it leads to, as often as it leads there.
Calls nest to a given depth; a walk that goes deeper has no result. -/
def plain (q : QueryId) : Nat → Visit → Tour → ExceptT PlanError Option Tour
  | 0, _, _ => .mk none
  | depth + 1, v, t => do
    let w ← (t.graph.waypoint v.arrival.waypoint : ExceptT PlanError Option Waypoint)
    if w.covers q then
      (t.graph.inputs v.arrival.waypoint).foldlM (fun t e => do
          let (next, t) ← (t.pass q v e : ExceptT PlanError Option (Option Visit × Tour))
          match next with
          | some u => plain q depth u t
          | none => return t)
        { t with entered := t.entered.insert v.arrival.waypoint }
    else return t

end Tour

/-- The walk of a query without memory, from its root, comes to this end if calls may nest
deep enough. -/
def PlanGraph.PlainWalk (g : PlanGraph) (q : QueryId) (root : WaypointId)
    (r : Except PlanError Tour) : Prop :=
  ∃ depth, (Tour.plain q depth ⟨⟨root, root⟩, ∅⟩ ⟨g, ∅⟩).run = some r

/-! ## Computations that end -/

namespace Tour

variable {α β : Type} {ok ok' : Prop} {P Q : α → Prop}

/-- A computation ends; under some condition it succeeds with a result of some kind, else
it fails. -/
def Ends (m : ExceptT PlanError Option α) (ok : Prop) (P : α → Prop) : Prop :=
  (ok ∧ ∃ x, m.run = some (.ok x) ∧ P x) ∨ (¬ok ∧ ∃ e, m.run = some (.error e))

/-- What only answers ends. -/
theorem ends_pure {x : α} (h : P x) : Ends (pure x) True P := .inl ⟨trivial, x, rfl, h⟩

/-- Computations in a row end if each of them does. -/
theorem Ends.bind {m : ExceptT PlanError Option α} {f : α → ExceptT PlanError Option β}
    {R : β → Prop} (hm : Ends m ok P) (hf : ∀ x, P x → Ends (f x) ok' R) :
    Ends (m >>= f) (ok ∧ ok') R := by
  obtain ⟨hok, x, hx, hP⟩ | ⟨hok, e, he⟩ := hm
  · have hrun : (m >>= f).run = (f x).run := by
      rw [ExceptT.run_bind, hx]
      rfl
    obtain ⟨hok', y, hy, hR⟩ | ⟨hok', e, he⟩ := hf x hP
    · exact .inl ⟨⟨hok, hok'⟩, y, hrun.trans hy, hR⟩
    · exact .inr ⟨fun h => hok' h.2, e, hrun.trans he⟩
  · refine .inr ⟨fun h => hok h.1, e, ?_⟩
    rw [ExceptT.run_bind, he]
    rfl

theorem Ends.congr {m : ExceptT PlanError Option α} (h : Ends m ok P) (hok : ok ↔ ok')
    (hP : ∀ x, P x → Q x) : Ends m ok' Q := by
  rw [← hok]
  exact h.imp_left fun ⟨hok, x, hx, hp⟩ => ⟨hok, x, hx, hP x hp⟩

theorem ends_ofExcept {r : Except PlanError α} {x : α} (hok : ok → r = .ok x)
    (herr : ¬ok → ∃ e, r = .error e) (hx : P x) :
    Ends (r : ExceptT PlanError Option α) ok P := by
  by_cases h : ok
  · exact .inl ⟨h, x, congrArg some (hok h), hx⟩
  · obtain ⟨e, he⟩ := herr h
    exact .inr ⟨h, e, congrArg some he⟩

end Tour

/-! ## The depth of calls -/

namespace Tour

/-- Whatever result the one computation has, the other has as well. -/
def Approximates {α : Type} (m m' : ExceptT PlanError Option α) : Prop :=
  ∀ r, m.run = some r → m'.run = some r

variable {α β : Type}

/-- A computation approximates itself. -/
theorem Approximates.refl (m : ExceptT PlanError Option α) : Approximates m m := fun _ h => h

/-- Computations in a row are approximated one by one. -/
theorem Approximates.bind {m m' : ExceptT PlanError Option α}
    {f f' : α → ExceptT PlanError Option β} (hm : Approximates m m')
    (hf : ∀ x, Approximates (f x) (f' x)) : Approximates (m >>= f) (m' >>= f') := by
  intro r hr
  rw [ExceptT.run_bind] at hr ⊢
  cases hx : m.run with
  | none =>
      rw [hx] at hr
      cases hr
  | some x =>
      rw [hx] at hr
      rw [hm x hx]
      cases x with
      | error e => exact hr
      | ok x => exact hf x r hr

/-- So are computations over a list. -/
theorem Approximates.foldlM {f f' : α → β → ExceptT PlanError Option α}
    (hf : ∀ x y, Approximates (f x y) (f' x y)) (l : List β) (x : α) :
    Approximates (l.foldlM f x) (l.foldlM f' x) := by
  induction l generalizing x with
  | nil => exact .refl _
  | cons y rest ih =>
      rw [List.foldlM_cons, List.foldlM_cons]
      exact (hf x y).bind ih

/-- Deeper calls do not change a result. -/
theorem plain_approximates (q : QueryId) (depth : Nat) (v : Visit) (t : Tour) :
    Approximates (plain q depth v t) (plain q (depth + 1) v t) := by
  induction depth generalizing v t with
  | zero =>
      intro r hr
      cases hr
  | succ depth ih =>
      rw [plain, plain]
      refine (Approximates.refl _).bind fun w => ?_
      split
      · refine .foldlM (fun t e => (Approximates.refl _).bind fun p => ?_) _ _
        obtain ⟨next, t⟩ := p
        cases next with
        | none => exact .refl _
        | some u => exact ih u t
      · exact .refl _

/-- More depth does not change a result. -/
theorem run_plain_mono {q : QueryId} {depth n : Nat} (h : depth ≤ n) {v : Visit} {t : Tour}
    {r : Except PlanError Tour} (hr : (plain q depth v t).run = some r) :
    (plain q n v t).run = some r := by
  induction n, h using Nat.le_induction with
  | base => exact hr
  | succ n _ ih => exact plain_approximates q n v t r ih

end Tour

/-- The plain walk comes to one end only. -/
theorem PlanGraph.PlainWalk.unique {g : PlanGraph} {q : QueryId} {root : WaypointId}
    {r r' : Except PlanError Tour} (h : g.PlainWalk q root r) (h' : g.PlainWalk q root r') :
    r = r' := by
  obtain ⟨n, hn⟩ := h
  obtain ⟨m, hm⟩ := h'
  have hr := Tour.run_plain_mono (Nat.le_max_left n m) hn
  have hr' := Tour.run_plain_mono (Nat.le_max_right n m) hm
  exact Option.some.inj (hr.symm.trans hr')

/-! ## Graphs that a walk follows -/

namespace PlanGraph

/-- Nothing but answers has changed, and the query has exits only where the waypoint
carries it on. -/
structure Follows (g : PlanGraph) (q : QueryId) (k : PlanGraph) : Prop where
  view : k.mapWaypoints Waypoint.unasked = g.mapWaypoints Waypoint.unasked
  exits : ∀ w ∈ k.waypoints, ∀ kind x, w.holdsExit kind ⟨q, x⟩ = true → w.carries kind q = true

variable {g k : PlanGraph} {q : QueryId}

/-- A walk leaves every waypoint in its place, equal but for what answers leave. -/
theorem Follows.find? (h : g.Follows q k) {n : WaypointId} {w : Waypoint}
    (hw : g.find? n = some w) : ∃ v, k.find? n = some v ∧ v.unasked = w.unasked :=
  exists_find?_of_view Waypoint.id_unasked h.view.symm hw

/-- It adds none. -/
theorem Follows.find?_eq_none (h : g.Follows q k) {n : WaypointId} (hn : g.find? n = none) :
    k.find? n = none := by
  have hview := find?_map_eq_of_view Waypoint.id_unasked h.view n
  rw [hn, Option.map_none] at hview
  exact Option.map_eq_none_iff.1 hview

theorem Follows.ids (h : g.Follows q k) : k.ids = g.ids :=
  ids_eq_of_view Waypoint.id_unasked h.view

/-- It adds no edge. -/
theorem Follows.inputs (h : g.Follows q k) : k.inputs = g.inputs :=
  inputs_congr h.ids (links_eq_of_view h.view)

/-- A mark on a walk's graph keeps following. -/
theorem Follows.mark {t : Tour} (h : g.Follows q t.graph) (m : Mark) :
    g.Follows q (t.mark q m).graph where
  view := (Tour.unasked_marks [m]).trans h.view
  exits := by
    cases m with
    | enter n => exact h.exits
    | pass v e =>
        intro w hw kind x hx
        obtain ⟨u, hu, rfl⟩ := List.mem_map.1 hw
        by_cases hid : u.id = v.arrival.waypoint
        · simp only [Waypoint.heard_of_eq q e hid] at hx ⊢
          rw [Waypoint.carries_answered]
          rcases (Waypoint.holdsExit_answered ..).1 hx with hold | ⟨hc, rfl, -⟩
          · exact h.exits u hu kind x hold
          · exact hc
        · simp only [Waypoint.heard_of_ne q e hid] at hx ⊢
          exact h.exits u hu kind x hx

/-- So do marks one after another. -/
theorem Follows.marks {t : Tour} (h : g.Follows q t.graph) (l : List Mark) :
    g.Follows q (t.marks q l).graph := by
  induction l generalizing t with
  | nil => exact h
  | cons m rest ih => exact ih (h.mark m)

end PlanGraph

/-! ## Passing a demand on -/

/-- Where a visit leads over an input edge of its waypoint. -/
def Waypoint.next (w : Waypoint) (q : QueryId) (v : Visit) (e : Edge) : Option Visit :=
  if w.carries e.kind q && !e.sender.isSentinel then
    some ⟨⟨e.sender, exitOver v.arrival e.kind⟩, w.below e.kind q v.needed⟩
  else none

/-- A visit leads on over the edges that carry the query to a waypoint. -/
theorem Waypoint.next_eq_some_iff {w : Waypoint} {q : QueryId} {v c : Visit} {e : Edge} :
    w.next q v e = some c ↔ w.carries e.kind q = true ∧ e.sender.isSentinel = false ∧
      ⟨⟨e.sender, exitOver v.arrival e.kind⟩, w.below e.kind q v.needed⟩ = c := by
  unfold next
  split
  · simp_all
  · simp_all

namespace Tour

variable {g : PlanGraph} {q : QueryId} {t : Tour} {v : Visit} {w : Waypoint}

/-- A demand that is granted is marked and leads on. -/
theorem pass_of_grants (hn : g.ids.Nodup) (ht : g.Follows q t.graph)
    (hw : g.find? v.arrival.waypoint = some w) {e : Edge} (hg : w.Grants e.kind q v.needed) :
    t.pass q v e = .ok (w.next q v e, t.mark q (.pass v e)) := by
  obtain ⟨w', hw', hview⟩ := ht.find? hw
  have hid : w'.id = v.arrival.waypoint := PlanGraph.id_of_find? hw'
  have hgrants := (Waypoint.grants_iff_of_unasked hview e.kind q v.needed).2 hg
  have hbelow := Waypoint.below_eq_of_unasked hview e.kind q v.needed
  have hheld : (w'.answered e.kind q v.needed ⟨q, exitOver v.arrival e.kind⟩).holdsExit e.kind
      ⟨q, exitOver v.arrival e.kind⟩ = w.carries e.kind q := by
    rw [← Waypoint.carries_eq_of_unasked hview, Bool.eq_iff_iff, Waypoint.holdsExit_answered]
    refine ⟨fun hx => hx.elim (ht.exits w' (PlanGraph.mem_of_find? hw') _ _) fun h => h.1,
      fun hc => .inr ⟨hc, rfl, rfl⟩⟩
  have hreplace := PlanGraph.replace_answered (q := q) (ht.ids ▸ hn) hw' e
  simp only [pass, PlanGraph.waypoint_eq_ok_iff.2 hw', bind, Except.bind, Waypoint.ask_eq, hgrants,
    if_true, hheld, hbelow, hreplace]
  rfl

/-- A demand that is not granted cannot be passed on. -/
theorem pass_of_not_grants (ht : g.Follows q t.graph)
    (hw : g.find? v.arrival.waypoint = some w) {e : Edge} (hg : ¬w.Grants e.kind q v.needed) :
    ∃ err, t.pass q v e = .error err := by
  obtain ⟨w', hw', hview⟩ := ht.find? hw
  have hgrants : ¬w'.Grants e.kind q v.needed := by
    rwa [Waypoint.grants_iff_of_unasked hview]
  simp only [pass, PlanGraph.waypoint_eq_ok_iff.2 hw', bind, Except.bind, Waypoint.ask_eq, hgrants,
    if_false]
  exact ⟨_, rfl⟩

/-! ## Computations that set marks -/

/-- On any graph that follows this one, a computation ends; if it succeeds, it has set the
marks of some kind. -/
def Sets (g : PlanGraph) (q : QueryId) (m : Tour → ExceptT PlanError Option Tour) (ok : Prop)
    (M : Mark → Prop) : Prop :=
  ∀ t, g.Follows q t.graph → Ends (m t) ok fun t' => ∃ l, t' = t.marks q l ∧ ∀ k, k ∈ l ↔ M k

section Sets

variable {m m' : Tour → ExceptT PlanError Option Tour} {ok ok' : Prop} {M M' : Mark → Prop}

theorem sets_pure : Sets g q pure True fun _ => False := fun _ _ =>
  ends_pure ⟨[], rfl, fun _ => iff_false_intro List.not_mem_nil⟩

theorem Sets.congr (h : Sets g q m ok M) (hok : ok ↔ ok') (hM : ∀ k, M k ↔ M' k) :
    Sets g q m ok' M' := fun t ht =>
  (h t ht).congr hok fun _ ⟨l, hl, hmem⟩ => ⟨l, hl, fun k => (hmem k).trans (hM k)⟩

/-- Steps in a row set the marks of both. -/
theorem Sets.bind (h : Sets g q m ok M) (h' : Sets g q m' ok' M') :
    Sets g q (fun t => m t >>= m') (ok ∧ ok') fun k => M k ∨ M' k := by
  intro t ht
  refine (h t ht).bind ?_
  rintro _ ⟨l, rfl, hl⟩
  refine (h' _ (ht.marks l)).congr Iff.rfl ?_
  rintro _ ⟨l', rfl, hl'⟩
  refine ⟨l ++ l', (marks_append l l').symm, fun k => ?_⟩
  rw [List.mem_append, hl, hl']

/-- Steps along a list set the marks of each. -/
theorem sets_foldlM {α : Type} {f : Tour → α → ExceptT PlanError Option Tour} {ok : α → Prop}
    {M : α → Mark → Prop} {l : List α} (h : ∀ x ∈ l, Sets g q (f · x) (ok x) (M x)) :
    Sets g q (fun t => l.foldlM f t) (∀ x ∈ l, ok x) fun k => ∃ x ∈ l, M x k := by
  induction l with
  | nil => exact sets_pure.congr (by simp) (by simp)
  | cons x rest ih =>
      have hrest := ih fun y hy => h y (List.mem_cons_of_mem x hy)
      simp only [List.foldlM_cons]
      exact ((h x List.mem_cons_self).bind hrest).congr (by simp) (by simp)

end Sets

end Tour

/-! ## Where visits lead -/

namespace Walk

variable {g : PlanGraph} {q : QueryId} {u v : Visit}

/-- A visit of a waypoint that takes part leads to another over one of its input edges. -/
def Descends (g : PlanGraph) (q : QueryId) (v u : Visit) : Prop :=
  ∃ w e, g.find? v.arrival.waypoint = some w ∧ w.covers q = true ∧
    e ∈ g.inputs v.arrival.waypoint ∧ w.next q v e = some u

/-- The visits that a visit leads to along some path, itself among them. -/
def Leads (g : PlanGraph) (q : QueryId) : Visit → Visit → Prop :=
  Relation.ReflTransGen (Descends g q)

/-- The marks of a visit: if its waypoint takes part, that is entered and the demand is
passed over each of its input edges. -/
def Leaves (g : PlanGraph) (q : QueryId) (v : Visit) (k : Mark) : Prop :=
  ∃ w, g.find? v.arrival.waypoint = some w ∧ w.covers q = true ∧
    (k = .enter v.arrival.waypoint ∨ ∃ e ∈ g.inputs v.arrival.waypoint, k = .pass v e)

/-- A visit is not refused: its waypoint is there, and if it takes part it grants the
demand over each of its input edges. -/
def Granted (g : PlanGraph) (q : QueryId) (v : Visit) : Prop :=
  ∀ err, ¬Refuses g q v.arrival v.needed err

/-- A visit is granted where every edge into the waypoint grants its demand. -/
theorem granted_iff : Granted g q v ↔ ∃ w, g.find? v.arrival.waypoint = some w ∧
    (w.covers q = true → ∀ e ∈ g.inputs v.arrival.waypoint, w.Grants e.kind q v.needed) := by
  constructor
  · intro h
    cases hw : g.find? v.arrival.waypoint with
    | none => exact absurd (.unknown hw) (h _)
    | some w => exact ⟨w, rfl, fun hc e he => by_contra fun hg => h _ (.refused hw hc he hg)⟩
  · rintro ⟨w, hw, hg⟩ err hrefuses
    cases hrefuses with
    | unknown hnone =>
        rw [hw] at hnone
        cases hnone
    | refused hw' hc he hn =>
        obtain rfl := Option.some.inj (hw.symm.trans hw')
        exact hn (hg hc _ he)

/-- A visit leads to finitely many others at once. -/
theorem exists_descends (g : PlanGraph) (q : QueryId) (v : Visit) :
    ∃ l : List Visit, ∀ u, Descends g q v u → u ∈ l := by
  cases hw : g.find? v.arrival.waypoint with
  | none =>
      refine ⟨[], ?_⟩
      rintro u ⟨w, e, hw', -⟩
      rw [hw] at hw'
      cases hw'
  | some w =>
      refine ⟨(g.inputs v.arrival.waypoint).filterMap (w.next q v), ?_⟩
      rintro u ⟨w', e, hw', -, he, hnext⟩
      obtain rfl := Option.some.inj (hw.symm.trans hw')
      exact List.mem_filterMap.2 ⟨e, he, hnext⟩

/-- A visit leads to a waypoint that comes before its own. -/
theorem Descends.precedes (hg : g.WellFormed) (h : Descends g q v u) :
    g.Precedes u.arrival.waypoint v.arrival.waypoint := by
  obtain ⟨w, e, hw, -, he, hnext⟩ := h
  obtain ⟨-, hsender, rfl⟩ := Waypoint.next_eq_some_iff.1 hnext
  obtain ⟨hid, hlink, hreceiver⟩ := PlanGraph.mem_inputs.1 he
  have hproper : e.touchesSentinel = false := by
    rw [Edge.touchesSentinel, hsender, hreceiver, hg.proper _ hid]
    rfl
  refine ⟨e.kind, PlanGraph.mem_edges.2 ⟨(hg.ends e hlink hproper).1, ?_, ?_⟩⟩
  · rw [← hreceiver]
    exact hlink
  · rw [← hreceiver]
    exact hproper

section Known

variable {w : Waypoint} (hw : g.find? v.arrival.waypoint = some w)

include hw

theorem granted_iff_of_find? : Granted g q v ↔
    (w.covers q = true → ∀ e ∈ g.inputs v.arrival.waypoint, w.Grants e.kind q v.needed) := by
  simp only [granted_iff, hw, Option.some.injEq, exists_eq_left']

theorem leaves_iff_of_find? {k : Mark} : Leaves g q v k ↔ w.covers q = true ∧
    (k = .enter v.arrival.waypoint ∨ ∃ e ∈ g.inputs v.arrival.waypoint, k = .pass v e) := by
  simp only [Leaves, hw, Option.some.injEq, exists_eq_left']

/-- A visit leads to itself and to where its next ones lead. -/
theorem leads_iff_of_find? : Leads g q v u ↔ v = u ∨ w.covers q = true ∧
    ∃ e ∈ g.inputs v.arrival.waypoint, ∃ c, w.next q v e = some c ∧ Leads g q c u := by
  rw [Leads, Relation.ReflTransGen.cases_head_iff]
  refine or_congr_right ⟨?_, ?_⟩
  · rintro ⟨c, ⟨w', e, hw', hc, he, hnext⟩, hlead⟩
    obtain rfl := Option.some.inj (hw.symm.trans hw')
    exact ⟨hc, e, he, c, hnext, hlead⟩
  · rintro ⟨hc, e, he, c, hnext, hlead⟩
    exact ⟨c, ⟨w, e, hw, hc, he, hnext⟩, hlead⟩

section Covers

variable (hc : w.covers q = true) {P : Visit → Prop}

include hc

/-- What holds wherever a visit leads holds at it and wherever its next ones lead. -/
theorem forall_leads_iff : (∀ u, Leads g q v u → P u) ↔
    P v ∧ ∀ e ∈ g.inputs v.arrival.waypoint, ∀ c, w.next q v e = some c →
      ∀ u, Leads g q c u → P u := by
  simp only [leads_iff_of_find? hw, hc, true_and]
  constructor
  · exact fun h => ⟨h v (.inl rfl), fun e he c hnext u hu => h u (.inr ⟨e, he, c, hnext, hu⟩)⟩
  · rintro ⟨hv, h⟩ u (rfl | ⟨e, he, c, hnext, hu⟩)
    · exact hv
    · exact h e he c hnext u hu

/-- What holds somewhere that a visit leads holds at it or where a next one leads. -/
theorem exists_leads_iff : (∃ u, Leads g q v u ∧ P u) ↔
    P v ∨ ∃ e ∈ g.inputs v.arrival.waypoint, ∃ c, w.next q v e = some c ∧
      ∃ u, Leads g q c u ∧ P u := by
  simp only [leads_iff_of_find? hw, hc, true_and]
  constructor
  · rintro ⟨u, rfl | ⟨e, he, c, hnext, hu⟩, hP⟩
    · exact .inl hP
    · exact .inr ⟨e, he, c, hnext, u, hu, hP⟩
  · rintro (hP | ⟨e, he, c, hnext, u, hu, hP⟩)
    · exact ⟨v, .inl rfl, hP⟩
    · exact ⟨u, .inr ⟨e, he, c, hnext, hu⟩, hP⟩

end Covers

end Known

end Walk

/-! ## The plain walk -/

namespace Tour

open Walk

variable {g : PlanGraph} {q : QueryId}

/-- Over one edge, the demand is passed and then the visit walked that it leads to. -/
theorem sets_edge (hn : g.ids.Nodup) {v : Visit} {w : Waypoint}
    (hw : g.find? v.arrival.waypoint = some w) (e : Edge) {ok : Visit → Prop}
    {M : Visit → Mark → Prop} {depth : Nat}
    (hnext : ∀ u, w.next q v e = some u → Sets g q (plain q depth u) (ok u) (M u)) :
    Sets g q (fun t => do
        let (next, t) ← (t.pass q v e : ExceptT PlanError Option (Option Visit × Tour))
        match next with
        | some u => plain q depth u t
        | none => return t)
      (w.Grants e.kind q v.needed ∧ ∀ u, w.next q v e = some u → ok u)
      fun k => k = .pass v e ∨ ∃ u, w.next q v e = some u ∧ M u k := by
  intro t ht
  have hpass : Ends (t.pass q v e : ExceptT PlanError Option (Option Visit × Tour))
      (w.Grants e.kind q v.needed) (· = (w.next q v e, t.mark q (.pass v e))) :=
    ends_ofExcept (pass_of_grants hn ht hw) (pass_of_not_grants ht hw) rfl
  refine hpass.bind ?_
  rintro _ rfl
  cases hu : w.next q v e with
  | none =>
      refine (ends_pure ⟨[.pass v e], rfl, fun k => ?_⟩).congr (by simp) fun _ h => h
      simp
  | some u =>
      refine (hnext u hu _ (ht.mark (.pass v e))).congr (by simp) ?_
      rintro _ ⟨l, rfl, hl⟩
      exact ⟨.pass v e :: l, rfl, fun k => by simp [hl]⟩

section Unfold

variable {t : Tour} {v : Visit} {depth : Nat} (ht : g.Follows q t.graph)

include ht

/-- A walk to an unknown waypoint fails. -/
theorem plain_of_unknown (hw : g.find? v.arrival.waypoint = none) :
    (plain q (depth + 1) v t).run = some (.error (.unknownId v.arrival.waypoint)) := by
  rw [plain, PlanGraph.waypoint_of_find?_eq_none (ht.find?_eq_none hw)]
  rfl

variable {w : Waypoint} (hw : g.find? v.arrival.waypoint = some w)

include hw

/-- A walk ends at once where the query is not registered. -/
theorem plain_of_not_covers (hc : w.covers q = false) : plain q (depth + 1) v t = pure t := by
  obtain ⟨w', hw', hview⟩ := ht.find? hw
  have hc' : ¬w'.covers q = true := by
    rw [Waypoint.covers_eq_of_unasked hview, hc]
    exact Bool.false_ne_true
  rw [plain, PlanGraph.waypoint_eq_ok_iff.2 hw']
  exact if_neg hc'

/-- Otherwise it goes on over every edge into the waypoint. -/
theorem plain_of_covers (hc : w.covers q = true) : plain q (depth + 1) v t =
    (g.inputs v.arrival.waypoint).foldlM (fun t e => do
        let (next, t) ← (t.pass q v e : ExceptT PlanError Option (Option Visit × Tour))
        match next with
        | some u => plain q depth u t
        | none => return t)
      (t.mark q (.enter v.arrival.waypoint)) := by
  obtain ⟨w', hw', hview⟩ := ht.find? hw
  have hc' : w'.covers q = true := (Waypoint.covers_eq_of_unasked hview q).trans hc
  rw [plain, PlanGraph.waypoint_eq_ok_iff.2 hw', ← ht.inputs]
  exact if_pos hc'

end Unfold

/-- To this depth, the plain walk of a visit comes to an end: it succeeds if no visit that
this one leads to is refused, and then it has set the marks of all of them. -/
def Completes (g : PlanGraph) (q : QueryId) (depth : Nat) (v : Visit) : Prop :=
  Sets g q (plain q depth v) (∀ u, Leads g q v u → Granted g q u)
    fun k => ∃ u, Leads g q v u ∧ Leaves g q u k

/-- If the visits that a visit leads to at once are walked to the end, so is the visit. -/
theorem completes_succ (hg : g.WellFormed) {v : Visit} {depth : Nat}
    (ih : ∀ c, Descends g q v c → Completes g q depth c) : Completes g q (depth + 1) v := by
  intro t ht
  cases hw : g.find? v.arrival.waypoint with
  | none => exact .inr ⟨fun h => h v .refl _ (.unknown hw), _, plain_of_unknown ht hw⟩
  | some w =>
      cases hc : w.covers q with
      | false =>
          rw [plain_of_not_covers ht hw hc]
          refine (ends_pure (P := (· = t)) rfl).congr ?_ ?_
          · simp [leads_iff_of_find? hw, granted_iff_of_find? hw, hc]
          · rintro _ rfl
            refine ⟨[], rfl, fun k => ?_⟩
            simp [leads_iff_of_find? hw, leaves_iff_of_find? hw, hc]
      | true =>
          have hedges := sets_foldlM fun e (he : e ∈ g.inputs v.arrival.waypoint) =>
            sets_edge hg.nodup hw e fun c hnext => ih c ⟨w, e, hw, hc, he, hnext⟩
          rw [plain_of_covers ht hw hc]
          refine (hedges _ (ht.mark (.enter v.arrival.waypoint))).congr ?_ ?_
          · simp only [forall_leads_iff hw hc, granted_iff_of_find? hw, hc, true_implies,
              forall_and]
          · rintro _ ⟨l, rfl, hl⟩
            refine ⟨.enter v.arrival.waypoint :: l, rfl, fun k => ?_⟩
            simp only [List.mem_cons, hl, exists_leads_iff hw hc, leaves_iff_of_find? hw, hc,
              true_and, and_or_left, exists_or, or_assoc]

/-- What holds of each member of a list from some number on holds of all from some number on. -/
theorem exists_forall_ge {α : Type} {P : α → Nat → Prop} {l : List α}
    (h : ∀ x ∈ l, ∃ n, ∀ d ≥ n, P x d) : ∃ n, ∀ x ∈ l, ∀ d ≥ n, P x d := by
  induction l with
  | nil => exact ⟨0, fun x hx => absurd hx List.not_mem_nil⟩
  | cons x rest ih =>
      obtain ⟨n, hn⟩ := h x List.mem_cons_self
      obtain ⟨m, hm⟩ := ih fun y hy => h y (List.mem_cons_of_mem x hy)
      refine ⟨max n m, fun y hy d hd => ?_⟩
      rcases List.mem_cons.1 hy with rfl | hy
      · exact hn d (le_of_max_le_left hd)
      · exact hm y hy d (le_of_max_le_right hd)

/-- **The plain walk of an acyclic graph comes to an end**, once calls may nest deep enough. -/
theorem exists_completes (hg : g.WellFormed) (hwf : WellFounded g.Precedes) (v : Visit) :
    ∃ n, ∀ depth ≥ n, Completes g q depth v := by
  generalize hn : v.arrival.waypoint = n
  induction n using hwf.induction generalizing v with
  | _ n ih =>
    subst hn
    obtain ⟨l, hl⟩ := exists_descends g q v
    have hbelow : ∀ c ∈ l, ∃ n, ∀ depth ≥ n, Descends g q v c → Completes g q depth c := by
      intro c _
      by_cases hc : Descends g q v c
      · obtain ⟨n, hn⟩ := ih _ (hc.precedes hg) c rfl
        exact ⟨n, fun depth hd _ => hn depth hd⟩
      · exact ⟨0, fun _ _ h => absurd h hc⟩
    obtain ⟨n, hn⟩ := exists_forall_ge hbelow
    refine ⟨n + 1, fun depth hd => ?_⟩
    obtain ⟨depth, rfl⟩ : ∃ d, depth = d + 1 := ⟨depth - 1, by omega⟩
    exact completes_succ hg fun c hc => hn c (hl c hc) depth (by omega) hc

end Tour

end SharedPlan
