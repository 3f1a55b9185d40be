import SharedPlan.Config
import SharedPlan.Proofs.Analysis.Alone
import SharedPlan.Proofs.Analysis.Memory
import SharedPlan.Proofs.Analysis.Settled
import SharedPlan.Proofs.Graph.Reordered
import SharedPlan.Proofs.Routing.Compiled

/-!
# SharedPlan.Proofs.Analysis.Reordered

An analysis does not depend on the order in which its graph was put together.

The passes of two analyses are compared side by side (`PlanGraph.Matched`).  The supply
passes hand the same to the same waypoints; the demand walks take their visits in
different orders and pass on different sums of demands, but each leaves the marks of all
visits that the first one leads to, and these are the same in both graphs
(`matched_demandWalk`).  So unless one of the walks meets its bound, both analyses fail or
both come to the same (`analyze_reordered`).
-/

namespace SharedPlan

namespace PlanGraph

/-! ## Outcomes side by side -/

/-- Two steps succeeded and what they came to is related, or both failed, or one of them met
the bound of a walk. -/
inductive Matched {α : Type} (R : α → PlanGraph → α → PlanGraph → Prop) :
    Except PlanError α × PlanGraph → Except PlanError α × PlanGraph → Prop
  | ok {a b : α} {k l : PlanGraph} : R a k b l → Matched R (.ok a, k) (.ok b, l)
  | error {d e : PlanError} {k l : PlanGraph} : Matched R (.error d, k) (.error e, l)
  | left {q : QueryId} {n : Nat} {k : PlanGraph} {y : Except PlanError α × PlanGraph} :
      Matched R (.error (.walkLimit q n), k) y
  | right {q : QueryId} {n : Nat} {l : PlanGraph} {x : Except PlanError α × PlanGraph} :
      Matched R x (.error (.walkLimit q n), l)

variable {α β : Type} {R : α → PlanGraph → α → PlanGraph → Prop}
  {S : β → PlanGraph → β → PlanGraph → Prop} {g h : PlanGraph}

theorem Matched.bind {m n : Attempt PlanGraph α} {f f' : α → Attempt PlanGraph β}
    (hm : Matched R (m.outcome g) (n.outcome h))
    (hf : ∀ a k b l, R a k b l → Matched S ((f a).outcome k) ((f' b).outcome l)) :
    Matched S ((m >>= f).outcome g) ((n >>= f').outcome h) := by
  rw [Attempt.outcome_bind, Attempt.outcome_bind]
  generalize m.outcome g = x at hm
  generalize n.outcome h = y at hm
  cases hm with
  | ok hab => exact hf _ _ _ _ hab
  | error => exact .error
  | left => exact .left
  | right => exact .right

theorem matched_ofExcept {r r' : Except PlanError α} (hok : ∀ a, r = .ok a → ∃ b, r' = .ok b)
    (hok' : ∀ b, r' = .ok b → ∃ a, r = .ok a) (hR : ∀ a b, r = .ok a → r' = .ok b → R a g b h) :
    Matched R (r, g) (r', h) := by
  cases r with
  | ok a =>
      obtain ⟨b, rfl⟩ := hok a rfl
      exact .ok (hR a b rfl rfl)
  | error d =>
      cases r' with
      | ok b =>
          obtain ⟨a, ha⟩ := hok' b rfl
          cases ha
      | error e => exact .error

/-! ## The supply pass -/

section Supply

variable (hg : g.WellFormed) (hh : h.WellFormed) (hc : g.Congruent h) {active : QuerySet}

include hg hh hc

theorem Congruent.supplyAt (m : WaypointId) :
    (g.supplyAt active m).Congruent (h.supplyAt active m) := by
  refine hc.change (ids_supplyAt ..) (links_eq_of_view (unsupplied_supplyAt hg.nodup active m))
    (ids_supplyAt ..) (links_eq_of_view (unsupplied_supplyAt hh.nodup active m)) fun n => ?_
  cases hn : n.isSentinel with
  | true =>
      have hnone {k : PlanGraph} (hk : k.WellFormed) : (k.supplyAt active m).find? n = none := by
        by_contra hsome
        obtain ⟨w, hw⟩ := Option.ne_none_iff_exists'.1 hsome
        have hproper := (wellFormed_supplyAt hk active m).proper n (PlanGraph.mem_ids_iff.2 ⟨w, hw⟩)
        rw [hn] at hproper
        cases hproper
      rw [hnone hg, hnone hh]
  | false =>
      unfold PlanGraph.supplyAt
      rw [← hc.find? m]
      split
      · simp only [find?_deliverAll hn, find?_replace, hc.find? n, hc.outputs m n hn]
      · exact hc.find? n

omit hc in
theorem Congruent.fedAlong_iff {q : QueryId} {order : List WaypointId} (hc : g.Congruent h) :
    g.FedAlong active q order ↔ h.FedAlong active q order := by
  induction order generalizing g h with
  | nil => exact Iff.rfl
  | cons m rest ih =>
      rw [FedAlong, FedAlong, hc.find? m]
      exact and_congr_right fun _ => ih (wellFormed_supplyAt hg active m)
        (wellFormed_supplyAt hh active m) (hc.supplyAt hg hh m)

theorem Congruent.supplied {order : List WaypointId} :
    (g.supplied active order).Congruent (h.supplied active order) := by
  induction order generalizing g h with
  | nil => exact hc
  | cons m rest ih =>
      exact ih (wellFormed_supplyAt hg active m) (wellFormed_supplyAt hh active m)
        (hc.supplyAt hg hh m)

theorem matched_supplyPass {order : List WaypointId} (horder : ∀ n ∈ order, n ∈ g.ids) :
    Matched (fun _ k _ l => k = g.supplied active order ∧ l = h.supplied active order)
      ((supplyPass order active).outcome g) ((supplyPass order active).outcome h) := by
  have horder' : ∀ n ∈ order, n ∈ h.ids := fun n hn => hc.mem_ids_iff.1 (horder n hn)
  have hfed : (∀ q ∈ active.toList, g.FedAlong active q order) ↔
      ∀ q ∈ active.toList, h.FedAlong active q order :=
    forall₂_congr fun _ _ => hc.fedAlong_iff hg hh
  by_cases hall : ∀ q ∈ active.toList, g.FedAlong active q order
  · rw [(supplyPass_eq_ok_iff hg horder).2 ⟨hall, rfl⟩,
      (supplyPass_eq_ok_iff hh horder').2 ⟨hfed.1 hall, rfl⟩]
    exact .ok ⟨rfl, rfl⟩
  · cases hx : (supplyPass order active).outcome g with
    | mk r k =>
        cases hy : (supplyPass order active).outcome h with
        | mk r' l =>
            cases r with
            | ok _ => exact absurd ((supplyPass_eq_ok_iff hg horder).1 hx).1 hall
            | error d =>
                cases r' with
                | ok _ =>
                    exact absurd (hfed.2 ((supplyPass_eq_ok_iff hh horder').1 hy).1) hall
                | error e => exact .error

end Supply

/-! ## The demand walks -/

section Visits

variable (hc : g.Congruent h) {q : QueryId} {u v : Visit}

include hc

/-- Visits lead to the same visits. -/
theorem Congruent.leads_eq : Walk.Leads g q v u ↔ Walk.Leads h q v u := by
  have hdescends : Walk.Descends g q = Walk.Descends h q := by
    funext v u
    simp only [Walk.Descends, hc.find?, hc.inputs]
  rw [Walk.Leads, Walk.Leads, hdescends]

theorem Congruent.granted_iff : Walk.Granted g q u ↔ Walk.Granted h q u := by
  simp only [Walk.granted_iff, hc.find?, hc.inputs]

theorem Congruent.leaves_iff {k : Mark} : Walk.Leaves g q u k ↔ Walk.Leaves h q u k := by
  simp only [Walk.Leaves, hc.find?, hc.inputs]

/-- The same marks leave congruent graphs. -/
theorem Congruent.marks (l : List Mark) (entered : OrdSet WaypointId) :
    ((⟨g, entered⟩ : Tour).marks q l).graph.Congruent ((⟨h, entered⟩ : Tour).marks q l).graph ∧
      ((⟨g, entered⟩ : Tour).marks q l).entered = ((⟨h, entered⟩ : Tour).marks q l).entered := by
  induction l generalizing g h entered with
  | nil => exact ⟨hc, rfl⟩
  | cons m rest ih =>
      cases m with
      | enter n => exact ih hc (entered.insert n)
      | pass v e => exact ih (hc.mapWaypoints fun w => w.id_heard q v e) entered

end Visits

/-- Two graphs on which queries are to walk their demand. -/
structure Poised (g h : PlanGraph) (queries : List QueryId) : Prop where
  congruent : g.Congruent h
  left : g.WellFormed
  right : h.WellFormed
  acyclic : g.Acyclic
  quiet : ∀ q ∈ queries, g.QuietFor q ∧ h.QuietFor q

/-- A walk leaves the exits of other queries alone. -/
theorem QuietFor.demandWalk {k : PlanGraph} {q r : QueryId} {root : WaypointId} {limit : Nat}
    {report : WalkReport} (hg : g.WellFormed) (hr : g.QuietFor r) (hne : q ≠ r)
    (hw : (demandWalk q root limit).outcome g = (.ok report, k)) : k.QuietFor r := by
  have honly := only_demandWalk hg.nodup hw hne
  intro w hmem kind x
  have hids : k.ids.Nodup := ids_eq_of_only honly ▸ hg.nodup
  obtain ⟨v, hv, hvw⟩ := find?_of_only_eq honly (find?_of_mem hids hmem)
  rw [← Waypoint.holdsExit_only, ← hvw, Waypoint.holdsExit_only]
  exact hr v (mem_of_find? hv) kind x

theorem WellFormed.demandWalk {k : PlanGraph} {q : QueryId} {root : WaypointId} {limit : Nat}
    {report : WalkReport} (hg : g.WellFormed)
    (hw : (demandWalk q root limit).outcome g = (.ok report, k)) : k.WellFormed :=
  hg.of_view Waypoint.id_unasked Waypoint.kind_unasked (fun _ => Waypoint.sound_unasked)
    (unasked_demandWalk hg.nodup hw).symm

/-- What is left to walk is poised after a walk on both sides. -/
theorem Poised.demandWalk {k l : PlanGraph} {q : QueryId} {queries : List QueryId}
    {root : WaypointId} {limit : Nat} {r r' : WalkReport} (hp : g.Poised h (q :: queries))
    (hq : q ∉ queries) (hkl : k.Congruent l)
    (hw : (demandWalk q root limit).outcome g = (.ok r, k))
    (hw' : (demandWalk q root limit).outcome h = (.ok r', l)) : k.Poised l queries where
  congruent := hkl
  left := hp.left.demandWalk hw
  right := hp.right.demandWalk hw'
  acyclic := by
    have hview := (unasked_demandWalk hp.left.nodup hw).symm
    exact hp.acyclic.congr (ids_eq_of_view Waypoint.id_unasked hview) (links_eq_of_view hview)
  quiet r hr := by
    obtain ⟨hquiet, hquiet'⟩ := hp.quiet r (List.mem_cons_of_mem _ hr)
    have hne : q ≠ r := fun h => hq (h ▸ hr)
    exact ⟨hquiet.demandWalk hp.left hne hw, hquiet'.demandWalk hp.right hne hw'⟩

/-- On an acyclic graph, the visits that one leads to set finitely many marks. -/
theorem exists_marks (hg : g.WellFormed) (hacyclic : g.Acyclic) {q : QueryId}
    (hquiet : g.QuietFor q) {v : Visit} (hgranted : ∀ u, Walk.Leads g q v u → Walk.Granted g q u) :
    ∃ l : List Mark, ∀ k, k ∈ l ↔ ∃ u, Walk.Leads g q v u ∧ Walk.Leaves g q u k := by
  obtain ⟨depth, hdepth⟩ := Tour.exists_completes (q := q) hg hacyclic.wellFounded v
  obtain ⟨-, t, -, l, -, hl⟩ | ⟨hrefused, -⟩ :=
    hdepth depth (Nat.le_refl depth) ⟨g, ∅⟩ hquiet.follows
  · exact ⟨l, hl⟩
  · exact absurd hgranted hrefused

/-- A visit that is refused on one side is refused on the other: if one walk completes, the
other can only meet its bound. -/
theorem Congruent.exceeds_of_demandWalk {k l : PlanGraph} {q : QueryId} {root : WaypointId}
    {limit : Nat} {d : PlanError} {r : WalkReport} (hc : g.Congruent h) (hg : g.WellFormed)
    (hh : h.WellFormed) (hquiet : g.QuietFor q) (hquiet' : h.QuietFor q)
    (hx : (demandWalk q root limit).outcome g = (.error d, k))
    (hy : (demandWalk q root limit).outcome h = (.ok r, l)) : d = .walkLimit q limit := by
  obtain hd | ⟨u, hu, hrefused⟩ := exists_not_granted_of_run hg hquiet hx
  · exact hd
  · obtain ⟨n, s, hruns, -⟩ := Walk.runs_of_run hy
    have hgranted := granted_of_runs hh hquiet' hruns (hc.leads_eq.1 hu)
    exact absurd (hc.granted_iff.2 hgranted) hrefused

/-- Walks that complete leave the marks of the same visits. -/
theorem poised_of_demandWalk {k l : PlanGraph} {q : QueryId} {queries : List QueryId}
    {root : WaypointId} {limit : Nat} {r r' : WalkReport} (hp : g.Poised h (q :: queries))
    (hq : q ∉ queries) (hx : (demandWalk q root limit).outcome g = (.ok r, k))
    (hy : (demandWalk q root limit).outcome h = (.ok r', l)) :
    r.entered = r'.entered ∧ k.Poised l queries := by
  have hc := hp.congruent
  obtain ⟨hquiet, hquiet'⟩ := hp.quiet q List.mem_cons_self
  obtain ⟨n, s, hruns, -, rfl, rfl⟩ := Walk.runs_of_run hx
  obtain ⟨n', s', hruns', -, rfl, rfl⟩ := Walk.runs_of_run hy
  obtain ⟨marks, hmarks⟩ := exists_marks hp.left hp.acyclic hquiet
    fun u hu => granted_of_runs hp.left hquiet hruns hu
  have htour := tour_of_runs hp.left hquiet hruns hmarks
  have htour' := tour_of_runs hp.right hquiet' hruns' fun k => by
    rw [hmarks]
    simp only [hc.leads_eq, hc.leaves_iff]
  obtain ⟨hgraph, hentered⟩ := hc.marks marks ∅ (q := q)
  rw [← htour, ← htour'] at hgraph hentered
  exact ⟨hentered, hp.demandWalk hq hgraph hx hy⟩

/-- **Walks side by side**: unless one meets its bound, both fail or both leave the marks of
the same visits. -/
theorem matched_demandWalk {q : QueryId} {queries : List QueryId} {root : WaypointId} {limit : Nat}
    (hp : g.Poised h (q :: queries)) (hq : q ∉ queries) :
    Matched (fun r k r' l => r.entered = r'.entered ∧ k.Poised l queries)
      ((demandWalk q root limit).outcome g) ((demandWalk q root limit).outcome h) := by
  have hc := hp.congruent
  obtain ⟨hquiet, hquiet'⟩ := hp.quiet q List.mem_cons_self
  cases hx : (demandWalk q root limit).outcome g with
  | mk o k =>
      cases hy : (demandWalk q root limit).outcome h with
      | mk o' l =>
          cases o <;> cases o'
          · exact .error
          · obtain rfl := hc.exceeds_of_demandWalk hp.left hp.right hquiet hquiet' hx hy
            exact .left
          · obtain rfl := hc.symm.exceeds_of_demandWalk hp.right hp.left hquiet' hquiet hy hx
            exact .right
          · exact .ok (poised_of_demandWalk hp hq hx hy)

/-- Walks of the same queries that entered the same waypoints. -/
def SameWalks : List (QueryId × WalkReport) → List (QueryId × WalkReport) → Prop :=
  List.Forall₂ fun r r' => r.1 = r'.1 ∧ r.2.entered = r'.2.entered

/-- The walks of all queries, side by side. -/
theorem matched_demandWalks {limit : Nat} {roots : List (QueryId × WaypointId)}
    (hroots : (roots.map (·.1)).Nodup) (hp : g.Poised h (roots.map (·.1))) :
    Matched (fun walks k walks' l => SameWalks walks walks' ∧ k.Poised l [])
      ((demandWalks limit roots).outcome g) ((demandWalks limit roots).outcome h) := by
  induction roots generalizing g h with
  | nil => exact .ok ⟨.nil, hp⟩
  | cons p rest ih =>
      obtain ⟨hnot, hrest⟩ := List.nodup_cons.1 hroots
      have hcons : demandWalks limit (p :: rest) = (do
          let report ← demandWalk p.1 p.2 limit
          let walks ← demandWalks limit rest
          return (p.1, report) :: walks) := by
        simp only [demandWalks, List.mapM_cons, bind_assoc, pure_bind]
      rw [hcons]
      refine (matched_demandWalk hp hnot).bind fun r k r' l hafter => ?_
      obtain ⟨hentered, hkl⟩ := hafter
      refine (ih hrest hkl).bind fun walks k walks' l hafter => ?_
      obtain ⟨hwalks, hkl⟩ := hafter
      exact .ok ⟨.cons ⟨rfl, hentered⟩ hwalks, hkl⟩

/-! ## The audit -/

section Audit

variable {options : PlannerOptions} {walks walks' : List (QueryId × WalkReport)}

theorem Congruent.mem_unreachable_iff (hg : g.WellFormed) (hh : h.WellFormed)
    (hc : g.Congruent h) {q : QueryId} {reached : OrdSet WaypointId} {n : WaypointId} :
    n ∈ g.unreachable q reached ↔ n ∈ h.unreachable q reached := by
  have hmem {k : PlanGraph} (hk : k.WellFormed) :
      n ∈ k.unreachable q reached ↔
        ∃ w, k.find? n = some w ∧ w.covers q = true ∧ n ∉ reached := by
    simp only [unreachable, List.mem_map, List.mem_filter, Bool.and_eq_true, decide_eq_true_eq]
    constructor
    · rintro ⟨w, ⟨hw, hcovers, hnot⟩, rfl⟩
      exact ⟨w, find?_of_mem hk.nodup hw, hcovers, hnot⟩
    · rintro ⟨w, hw, hcovers, hnot⟩
      obtain rfl := id_of_find? hw
      exact ⟨w, ⟨mem_of_find? hw, hcovers, hnot⟩, rfl⟩
  rw [hmem hg, hmem hh, hc.find?]

theorem Congruent.checkExits_iff (hc : g.Congruent h) {q : QueryId} {reached : OrdSet WaypointId} :
    g.checkExits q reached = .ok () ↔ h.checkExits q reached = .ok () := by
  simp only [checkExits_eq_ok_iff, hc.find?]

theorem SameWalks.symm (hw : SameWalks walks walks') : SameWalks walks' walks :=
  List.Forall₂.flip (hw.imp fun _ _ ⟨hq, he⟩ => ⟨hq.symm, he.symm⟩)

/-- What passes the audit in one graph passes it in the other. -/
theorem Congruent.exists_audit (hc : g.Congruent h) (hw : SameWalks walks walks')
    {l : List (QueryId × WaypointId)} (ha : g.audit options walks = .ok l) :
    ∃ l', h.audit options walks' = .ok l' := by
  obtain ⟨hchecks, -⟩ := audit_eq_ok_iff.1 ha
  refine ⟨_, audit_eq_ok_iff.2 ⟨fun hverify r' hr' => ?_, rfl⟩⟩
  obtain ⟨r, hr, hq, he⟩ := exists_of_forall₂ hw.symm hr'
  rw [hq, he]
  exact hc.checkExits_iff.1 (hchecks hverify r hr)

/-- What is listed of one graph is listed of the other. -/
theorem Congruent.mem_of_audit (hg : g.WellFormed) (hh : h.WellFormed) (hc : g.Congruent h)
    (hw : SameWalks walks walks') {l l' : List (QueryId × WaypointId)}
    (ha : g.audit options walks = .ok l) (ha' : h.audit options walks' = .ok l')
    {p : QueryId × WaypointId} (hp : p ∈ l) : p ∈ l' := by
  obtain ⟨-, rfl⟩ := audit_eq_ok_iff.1 ha
  obtain ⟨-, rfl⟩ := audit_eq_ok_iff.1 ha'
  simp only [List.mem_flatten, List.mem_map] at hp ⊢
  obtain ⟨_, ⟨r, hr, rfl⟩, hp⟩ := hp
  obtain ⟨r', hr', hq, he⟩ := exists_of_forall₂ hw hr
  refine ⟨_, ⟨r', hr', rfl⟩, ?_⟩
  rw [strays] at hp ⊢
  split at hp
  · obtain ⟨n, hn, rfl⟩ := List.mem_map.1 hp
    rw [if_pos ‹_›, ← hq, ← he]
    exact List.mem_map_of_mem ((hc.mem_unreachable_iff hg hh).1 hn)
  · exact absurd hp List.not_mem_nil

end Audit

/-! ## The whole analysis -/

/-- What two analyses found is the same, and so are the graphs they left but for the order. -/
structure Concluded (r : AnalysisReport) (g : PlanGraph) (r' : AnalysisReport) (h : PlanGraph) :
    Prop where
  congruent : g.Congruent h
  left : g.WellFormed
  right : h.WellFormed
  unreachable : ∀ p, p ∈ r.unreachable ↔ p ∈ r'.unreachable

section Analysis

variable {active : QuerySet} {options : PlannerOptions}

/-- After the supply pass of a cycle the walks can begin. -/
theorem poised_supplied (hg : g.WellFormed) (hh : h.WellFormed) (hc : g.Congruent h)
    (hacyclic : g.Acyclic) {order : List WaypointId} (queries : List QueryId) :
    (g.beginCycle.supplied active order).Poised (h.beginCycle.supplied active order) queries where
  congruent := (hc.mapWaypoints Waypoint.id_beginCycle).supplied (wellFormed_beginCycle hg)
    (wellFormed_beginCycle hh)
  left := wellFormed_supplied (wellFormed_beginCycle hg) active order
  right := wellFormed_supplied (wellFormed_beginCycle hh) active order
  acyclic := by
    have hview := unsupplied_supplied (wellFormed_beginCycle hg).nodup active order
    refine hacyclic.congr ?_ (links_eq_of_view hview).symm
    rw [ids_supplied, ids_beginCycle]
  quiet q _ := by
    have quiet {k : PlanGraph} (hk : k.WellFormed) :
        (k.beginCycle.supplied active order).QuietFor q := fun w hw kind _ =>
      holdsExit_supplied hk (find?_of_mem
        (wellFormed_supplied (wellFormed_beginCycle hk) active order).nodup hw) kind _
    exact ⟨quiet hg, quiet hh⟩

theorem matched_cycleFrom (hg : g.WellFormed) (hh : h.WellFormed) (hc : g.Congruent h)
    (hacyclic : g.Acyclic) {order : List WaypointId} (horder : ∀ n ∈ order, n ∈ g.ids)
    {roots : List (QueryId × WaypointId)} (hroots : (roots.map (·.1)).Nodup) :
    Matched Concluded ((cycleFrom order roots active options).outcome g)
      ((cycleFrom order roots active options).outcome h) := by
  have hbegin : Matched (fun _ k _ l => k = g.beginCycle ∧ l = h.beginCycle)
      ((modify beginCycle : Attempt PlanGraph Unit).outcome g)
      ((modify beginCycle : Attempt PlanGraph Unit).outcome h) := .ok ⟨rfl, rfl⟩
  refine hbegin.bind fun _ _ _ _ ⟨hk, hl⟩ => ?_
  subst hk hl
  refine (matched_supplyPass (wellFormed_beginCycle hg) (wellFormed_beginCycle hh)
    (hc.mapWaypoints Waypoint.id_beginCycle) fun n hn => ?_).bind fun _ _ _ _ ⟨hk, hl⟩ => ?_
  · rw [ids_beginCycle]
    exact horder n hn
  subst hk hl
  refine (matched_demandWalks hroots (poised_supplied hg hh hc hacyclic _)).bind
    fun walks k walks' l ⟨hwalks, hkl⟩ => ?_
  have hc := hkl.congruent
  have haudit : Matched (fun s k' s' l' => k' = k ∧ l' = l ∧ ∀ p, p ∈ s ↔ p ∈ s')
      (k.audit options walks, k) (l.audit options walks', l) :=
    matched_ofExcept (fun _ ha => hc.exists_audit hwalks ha)
      (fun _ ha => hc.symm.exists_audit hwalks.symm ha) fun s s' ha ha' =>
        ⟨rfl, rfl, fun p => ⟨hc.mem_of_audit hkl.left hkl.right hwalks ha ha',
          hc.symm.mem_of_audit hkl.right hkl.left hwalks.symm ha' ha⟩⟩
  refine Matched.bind (m := .ofExcept (k.audit options walks))
    (n := .ofExcept (l.audit options walks')) haudit fun s _ s' _ ⟨hk, hl, hs⟩ => ?_
  subst hk hl
  exact .ok ⟨hc, hkl.left, hkl.right, hs⟩

/-- **Analyses side by side.** -/
theorem Reordered.matched_analyze (hg : g.WellFormed) (hh : h.WellFormed) (hlg : g.Linked)
    (hlh : h.Linked) (hgh : g.Reordered h) :
    Matched Concluded ((analyze active options).outcome g)
      ((analyze active options).outcome h) := by
  have horder := hgh.topologicalOrder_eq hg hh hlg hlh
  have hroots : g.activeRoots active = h.activeRoots active := by
    have hroot : g.rootOf = h.rootOf := by
      funext q
      rw [rootOf, rootOf, root?, root?, hgh.roots]
    rw [activeRoots, activeRoots, hroot]
  rw [analyze_outcome, analyze_outcome, ← horder, ← hroots]
  cases ho : g.topologicalOrder with
  | error e => exact .error
  | ok order =>
      cases hr : g.activeRoots active with
      | error e => exact .error
      | ok roots =>
          refine matched_cycleFrom hg hh (hgh.congruent hg hh hlg hlh)
            (acyclic_of_topologicalOrder hg ho)
            (fun n hn => (perm_of_topologicalOrder hg ho).mem_iff.1 hn) ?_
          rw [(activeRoots_eq_ok_iff.1 hr).1]
          exact active.nodup_toList

end Analysis

/-! ## The routing table -/

/-- **The table** depends on what can be looked up only. -/
theorem Congruent.routing_eq (hg : g.WellFormed) (hh : h.WellFormed) (hc : g.Congruent h) :
    g.routing = h.routing := by
  obtain ⟨t, ht, hholds⟩ := exists_routing hg
  obtain ⟨s, hs, hholds'⟩ := exists_routing hh
  have hids : s.Holds g.ids g.Travels :=
    { contains := fun n => (hholds'.contains n).trans hc.mem_ids_iff.symm
      carries := fun m n e => (hholds'.carries m n e).trans <| by
        simp only [Travels, hc.edges, hc.find?]
      inhabited := hholds'.inhabited
      mirrored := hholds'.mirrored }
  rw [ht, hs, hholds.unique hids]

/-! ## The run -/

/-- An analysis of a graph succeeds, and a table is compiled from the graph that it leaves. -/
structure Compiles (g : PlanGraph) (active : QuerySet) (options : PlannerOptions)
    (r : AnalysisReport) (k : PlanGraph) (t : RoutingTable) : Prop where
  analyzed : (analyze active options).outcome g = (.ok r, k)
  routed : k.routing = .ok t

/-- A demand walk of an analysis meets its bound. -/
def ExceedsLimit (g : PlanGraph) (active : QuerySet) (options : PlannerOptions) : Prop :=
  ∃ q n, ((analyze active options).outcome g).1 = .error (.walkLimit q n)

/-- **The order of construction does not matter.**  Two graphs that hold the same waypoints,
edges and roots have the same topological order, or none for the same reason.  Unless a
demand walk meets its bound in one of them, both are analysed and routed or neither is; if
both are, their tables, the records of each waypoint and the pairs out of reach are the
same. -/
theorem analyze_reordered (hg : g.Reachable) (hh : h.Reachable) (hgh : g.Reordered h)
    (active : QuerySet) (options : PlannerOptions) :
    g.topologicalOrder = h.topologicalOrder ∧
      (¬g.ExceedsLimit active options → ¬h.ExceedsLimit active options →
        ((∃ r k t, g.Compiles active options r k t) ↔ ∃ r k t, h.Compiles active options r k t) ∧
        ∀ r k t r' l t', g.Compiles active options r k t → h.Compiles active options r' l t' →
          t = t' ∧ (∀ n, (k.find? n).map (·.config) = (l.find? n).map (·.config)) ∧
            ∀ p, p ∈ r.unreachable ↔ p ∈ r'.unreachable) := by
  refine ⟨hgh.topologicalOrder_eq hg.wellFormed hh.wellFormed hg.linked hh.linked,
    fun hlimit hlimit' => ?_⟩
  have hmatched : Matched Concluded ((analyze active options).outcome g)
      ((analyze active options).outcome h) :=
    hgh.matched_analyze hg.wellFormed hh.wellFormed hg.linked hh.linked
  cases hx : (analyze active options).outcome g with
  | mk o k =>
      cases hy : (analyze active options).outcome h with
      | mk o' l =>
          rw [hx, hy] at hmatched
          cases hmatched with
          | left => exact absurd ⟨_, _, congrArg Prod.fst hx⟩ hlimit
          | right => exact absurd ⟨_, _, congrArg Prod.fst hy⟩ hlimit'
          | error =>
              have fails {k k' : PlanGraph} {d : PlanError}
                  (hk : (analyze active options).outcome k = (.error d, k')) {r l t} :
                  ¬k.Compiles active options r l t := by
                rintro ⟨hok, -⟩
                rw [hk] at hok
                cases hok
              refine ⟨iff_of_false ?_ ?_, fun r k t r' l t' hr => absurd hr (fails hx)⟩
              · rintro ⟨r, k, t, hr⟩
                exact fails hx hr
              · rintro ⟨r, k, t, hr⟩
                exact fails hy hr
          | @ok r r' _ _ hc =>
              have hrouting := hc.congruent.routing_eq hc.left hc.right
              obtain ⟨t, ht, -⟩ := exists_routing hc.left
              refine ⟨iff_of_true ⟨r, k, t, hx, ht⟩ ⟨r', l, t, hy, hrouting ▸ ht⟩, ?_⟩
              rintro r₁ k₁ t₁ r₂ l₁ t₂ ⟨ha, ht₁⟩ ⟨ha', ht₂⟩
              obtain ⟨rfl, rfl⟩ : r = r₁ ∧ k = k₁ := by simpa [hx] using ha
              obtain ⟨rfl, rfl⟩ : r' = r₂ ∧ l = l₁ := by simpa [hy] using ha'
              rw [hrouting, ht₂] at ht₁
              refine ⟨(Except.ok.inj ht₁).symm, fun n => ?_, hc.unreachable⟩
              rw [hc.congruent.find?]

/-- The waypoints and edges of the diamond, added in another order. -/
def turned : PlanGraph where
  waypoints :=
    [.fresh ⟨5⟩ "other" (.selection ∅), .fresh ⟨4⟩ "out" (.print ∅),
      .fresh ⟨3⟩ "pick" (.selection ∅), .fresh ⟨2⟩ "scan" (.scanner "t" (.singleton ⟨0⟩) ∅)]
  links :=
    [⟨⟨4⟩, .top, .terminating⟩, ⟨.bottom, ⟨2⟩, .flowThrough⟩, ⟨⟨5⟩, ⟨4⟩, .flowThrough⟩,
      ⟨⟨2⟩, ⟨5⟩, .flowThrough⟩, ⟨⟨3⟩, ⟨4⟩, .flowThrough⟩, ⟨⟨2⟩, ⟨3⟩, .flowThrough⟩]
  roots := ∅

theorem turned_reachable : turned.Reachable := by
  have other : Waypoint.Made (.fresh ⟨5⟩ "other" (.selection ∅)) := .fresh _ _ rfl
  have out : Waypoint.Made (.fresh ⟨4⟩ "out" (.print ∅)) := .fresh _ _ rfl
  have pick : Waypoint.Made (.fresh ⟨3⟩ "pick" (.selection ∅)) := .fresh _ _ rfl
  have scan : Waypoint.Made (.fresh ⟨2⟩ "scan" (.scanner "t" (.singleton ⟨0⟩) ∅)) :=
    .fresh _ _ rfl
  have h₁ : Reachable ⟨turned.waypoints.take 1, [], ∅⟩ := .addWaypoint .empty other rfl
  have h₂ : Reachable ⟨turned.waypoints.take 2, turned.links.take 1, ∅⟩ :=
    .addWaypoint h₁ out rfl
  have h₃ : Reachable ⟨turned.waypoints.take 3, turned.links.take 1, ∅⟩ :=
    .addWaypoint h₂ pick rfl
  have h₄ : Reachable ⟨turned.waypoints, turned.links.take 2, ∅⟩ := .addWaypoint h₃ scan rfl
  have e₁ : addEdge ⟨turned.waypoints, turned.links.take 2, ∅⟩ ⟨5⟩ ⟨4⟩ .flowThrough =
      .ok ⟨turned.waypoints, turned.links.take 3, ∅⟩ := rfl
  have e₂ : addEdge ⟨turned.waypoints, turned.links.take 3, ∅⟩ ⟨2⟩ ⟨5⟩ .flowThrough =
      .ok ⟨turned.waypoints, turned.links.take 4, ∅⟩ := rfl
  have e₃ : addEdge ⟨turned.waypoints, turned.links.take 4, ∅⟩ ⟨3⟩ ⟨4⟩ .flowThrough =
      .ok ⟨turned.waypoints, turned.links.take 5, ∅⟩ := rfl
  have e₄ : addEdge ⟨turned.waypoints, turned.links.take 5, ∅⟩ ⟨2⟩ ⟨3⟩ .flowThrough =
      .ok turned := rfl
  exact .addEdge (.addEdge (.addEdge (.addEdge h₄ e₁) e₂) e₃) e₄

/-- The print walks its two inputs in different orders, and the table is the same. -/
theorem analyze_reordered_turned :
    ∃ g h, g = (diamond.along ⟨0⟩ (.filter ∅)).enrolAt ⟨5⟩ ⟨0⟩ (.filter ∅) ∧
      h = (turned.along ⟨0⟩ (.filter ∅)).enrolAt ⟨5⟩ ⟨0⟩ (.filter ∅) ∧
      g.inputs ⟨4⟩ ≠ h.inputs ⟨4⟩ ∧ g.Reordered h ∧ g.topologicalOrder = h.topologicalOrder ∧
      ∃ r k r' l t, g.Compiles (.singleton ⟨0⟩) ⟨64, true, true, 10⟩ r k t ∧
        h.Compiles (.singleton ⟨0⟩) ⟨64, true, true, 10⟩ r' l t ∧
        ∀ n, (k.find? n).map (·.config) = (l.find? n).map (·.config) := by
  obtain ⟨g, hg⟩ : ∃ g, g = (diamond.along ⟨0⟩ (.filter ∅)).enrolAt ⟨5⟩ ⟨0⟩ (.filter ∅) :=
    ⟨_, rfl⟩
  obtain ⟨h, hh⟩ : ∃ h, h = (turned.along ⟨0⟩ (.filter ∅)).enrolAt ⟨5⟩ ⟨0⟩ (.filter ∅) :=
    ⟨_, rfl⟩
  have hinputs : g.inputs ⟨4⟩ ≠ h.inputs ⟨4⟩ := by
    rw [hg, hh]
    decide +kernel
  have hwaypoints : g.waypoints.Perm h.waypoints := by
    rw [hg, hh]
    decide +kernel
  have hedges : g.edges.Perm h.edges := by
    rw [hg, hh]
    decide +kernel
  have hroots : g.roots = h.roots := by
    rw [hg, hh]
    decide +kernel
  have hgh : g.Reordered h := ⟨fun _ => hwaypoints.mem_iff, fun _ => hedges.mem_iff, hroots⟩
  have hrun : ((analyze (.singleton ⟨0⟩) ⟨64, true, true, 10⟩).outcome g).1 =
      .ok ⟨[⟨2⟩, ⟨3⟩, ⟨5⟩, ⟨4⟩], .ofList [(⟨0⟩, 5)], []⟩ := by
    rw [hg]
    decide +kernel
  have hrun' : ((analyze (.singleton ⟨0⟩) ⟨64, true, true, 10⟩).outcome h).1 =
      .ok ⟨[⟨2⟩, ⟨3⟩, ⟨5⟩, ⟨4⟩], .ofList [(⟨0⟩, 5)], []⟩ := by
    rw [hh]
    decide +kernel
  have hreachable : g.Reachable := hg ▸ (diamond_reachable.along _ _).enrolAt ..
  have hreachable' : h.Reachable := hh ▸ (turned_reachable.along _ _).enrolAt ..
  obtain ⟨horder, hsame⟩ := analyze_reordered hreachable hreachable' hgh (.singleton ⟨0⟩)
    ⟨64, true, true, 10⟩
  obtain ⟨hiff, heq⟩ := hsame (by simp [ExceedsLimit, hrun]) (by simp [ExceedsLimit, hrun'])
  have hleft := wellFormed_of_analyze hreachable.wellFormed (Attempt.eq_of_ok hrun)
  obtain ⟨t, ht, -⟩ := exists_routing hleft
  have hc : g.Compiles (.singleton ⟨0⟩) ⟨64, true, true, 10⟩ _ _ t :=
    ⟨Attempt.eq_of_ok hrun, ht⟩
  obtain ⟨r', l, t', hc'⟩ := hiff.1 ⟨_, _, _, hc⟩
  obtain ⟨rfl, hconfigs, -⟩ := heq _ _ _ _ _ _ hc hc'
  exact ⟨g, h, hg, hh, hinputs, hgh, horder, _, _, r', l, t, hc, hc', hconfigs⟩

end PlanGraph

end SharedPlan
