import SharedPlan.Proofs.Analysis.Alone
import SharedPlan.Proofs.Routing.Exact

/-!
# SharedPlan.Proofs.Routing.Isolation

Queries that share a graph do not interfere.

Each active query finds the same outcome as if it had been analysed alone, and the table
of all of them is made up of the tables that they would have had alone
(`queries_isolated`).
-/

namespace SharedPlan

namespace QuerySet

variable {s : QuerySet} {q r : QueryId}

theorem mem_toList_singleton (hq : q.val < 64) : r ∈ (singleton q).toList ↔ r = q := by
  rw [mem_toList]
  constructor
  · rintro ⟨hr, hlt⟩
    exact ((mem_insert hq hlt).1 hr).resolve_right (not_mem_empty r)
  · rintro rfl
    exact ⟨(mem_insert hq hq).2 (.inl rfl), hq⟩

theorem exists_mem_toList (hs : s ≠ ∅) : ∃ q, q ∈ s.toList := by
  by_contra hno
  refine hs (ext fun q hq => iff_of_false (fun hmem => hno ⟨q, ?_⟩) (not_mem_empty q))
  exact mem_toList.2 ⟨hmem, hq⟩

end QuerySet

namespace PlanGraph

variable {g h : PlanGraph} {active : QuerySet} {options : PlannerOptions}
  {report r : AnalysisReport} {k : PlanGraph} {q : QueryId}

/-- A query analysed alone: what is reported, the graph afterwards and its table. -/
def AnalysedAlone (g : PlanGraph) (options : PlannerOptions) (q : QueryId) (r : AnalysisReport)
    (k : PlanGraph) (s : RoutingTable) : Prop :=
  (analyze (.singleton q) options).outcome g = (.ok r, k) ∧ k.routing = .ok s

/-- An analysis succeeds exactly when the analysis of every active query alone does. -/
theorem analyze_succeeds_iff (hg : g.WellFormed) (hne : active ≠ ∅) :
    (∃ report h, (analyze active options).outcome g = (.ok report, h)) ↔
      ∀ q ∈ active.toList, ∃ r k, (analyze (.singleton q) options).outcome g = (.ok r, k) := by
  constructor
  · rintro ⟨report, h, ha⟩ q hq
    obtain ⟨order, ho, hclear⟩ := clears_of_analyze hg ha
    refine exists_analyze hg ho fun p hp => ?_
    have hlt := (QuerySet.mem_toList.1 hq).2
    obtain rfl := (QuerySet.mem_toList_singleton hlt).1 hp
    obtain ⟨r, k, hc, -⟩ := hclear p hq
    obtain ⟨k', hc', -⟩ := hc.congr hg (iff_of_true hq hp)
    exact ⟨r, k', hc'⟩
  · intro halone
    obtain ⟨q₀, hq₀⟩ := QuerySet.exists_mem_toList hne
    obtain ⟨r₀, k₀, ha₀⟩ := halone q₀ hq₀
    obtain ⟨order, ho, -⟩ := clears_of_analyze hg ha₀
    refine exists_analyze hg ho fun q hq => ?_
    obtain ⟨r', k, ha⟩ := halone q hq
    obtain ⟨order', ho', hclear⟩ := clears_of_analyze hg ha
    obtain rfl := Except.ok.inj (ho.symm.trans ho')
    have hmem := (QuerySet.mem_toList_singleton (QuerySet.mem_toList.1 hq).2).2 rfl
    obtain ⟨r, k', hc, -⟩ := hclear q hmem
    obtain ⟨k'', hc', -⟩ := hc.congr hg (iff_of_true hmem hq)
    exact ⟨r, k'', hc'⟩

/-- **What an analysis leaves of a query** is what it leaves when the query is alone. -/
theorem only_eq_of_analyze (hg : g.WellFormed)
    (ha : (analyze active options).outcome g = (.ok report, h)) (hq : q ∈ active.toList)
    (hk : (analyze (.singleton q) options).outcome g = (.ok r, k)) :
    h.only q = k.only q ∧ report.visits.get? q = r.visits.get? q ∧
      report.unreachable.filter (fun p => p.1 = q) = r.unreachable := by
  have hlt := (QuerySet.mem_toList.1 hq).2
  have hmem := (QuerySet.mem_toList_singleton (QuerySet.mem_toList.1 hq).2).2 rfl
  obtain ⟨order, ho, hclear⟩ := clears_of_analyze hg ha
  obtain ⟨order', ho', hclear'⟩ := clears_of_analyze hg hk
  obtain rfl := Except.ok.inj (ho.symm.trans ho')
  obtain ⟨r₁, k₁, hc₁, hleft, hvisits, hstrays⟩ := hclear q hq
  obtain ⟨r₂, k₂, hc₂, hleft', hvisits', hstrays'⟩ := hclear' q hmem
  obtain ⟨k₃, hc₃, heq⟩ := hc₁.congr hg (iff_of_true hq hmem)
  obtain ⟨rfl, rfl⟩ := hc₃.unique hc₂
  have honly : h.only q = k.only q := hleft.symm.trans (heq.trans hleft')
  have hown : r.unreachable.filter (fun p => p.1 = q) = r.unreachable :=
    List.filter_eq_self.2 fun p hp =>
      decide_eq_true ((QuerySet.mem_toList_singleton hlt).1 (fst_mem_of_unreachable hk hp))
  refine ⟨honly, hvisits.trans hvisits'.symm, ?_⟩
  rw [hstrays, strays_congr honly, ← hstrays', hown]

/-- The streams of an active query are those that it has alone. -/
theorem streams_singleton_iff (hq : q ∈ active.toList) {m n : WaypointId} {e : QueryExit} :
    g.Streams (.singleton q) m n e ↔ g.Streams active m n e ∧ e.query = q := by
  rw [Streams, QuerySet.mem_toList_singleton (QuerySet.mem_toList.1 hq).2, Streams]
  constructor
  · rintro ⟨rfl, hs⟩
    exact ⟨⟨hq, hs⟩, rfl⟩
  · rintro ⟨⟨-, hs⟩, rfl⟩
    exact ⟨rfl, hs⟩

/-- **Queries that share a graph do not interfere.**  An analysis succeeds exactly when
that of every active query alone does.  Then whatever belongs to an active query is on every
waypoint as if the query had been alone, and so are its visits, the waypoints it does
not reach and the part of the table with its exits; and the table holds nothing but
what these tables hold. -/
theorem queries_isolated (hg : g.Reachable) (hne : active ≠ ∅) :
    ((∃ report h, (analyze active options).outcome g = (.ok report, h)) ↔
      ∀ q ∈ active.toList, ∃ r k, (analyze (.singleton q) options).outcome g = (.ok r, k)) ∧
    ∀ report h, (analyze active options).outcome g = (.ok report, h) →
      ∃ t, h.routing = .ok t ∧
        (∀ q ∈ active.toList, ∃ r k s, g.AnalysedAlone options q r k s ∧
          h.only q = k.only q ∧ report.visits.get? q = r.visits.get? q ∧
          report.unreachable.filter (fun p => p.1 = q) = r.unreachable ∧
          s.Holds g.ids fun m n e => t.Carries m n e ∧ e.query = q) ∧
        t.Holds g.ids fun m n e =>
          ∃ q ∈ active.toList, ∃ r k s, g.AnalysedAlone options q r k s ∧ s.Carries m n e := by
  have hwf := hg.wellFormed
  refine ⟨analyze_succeeds_iff hwf hne, fun report h ha => ?_⟩
  obtain ⟨t, ht, hholds⟩ := exists_routing_of_analyze hwf ha
  have halone : ∀ q ∈ active.toList, ∃ r k s, g.AnalysedAlone options q r k s ∧
      s.Holds g.ids (g.Streams (.singleton q)) := by
    intro q hq
    obtain ⟨r, k, hk⟩ := (analyze_succeeds_iff hwf hne).1 ⟨report, h, ha⟩ q hq
    obtain ⟨s, hs, hsholds⟩ := exists_routing_of_analyze hwf hk
    exact ⟨r, k, s, ⟨hk, hs⟩, hsholds⟩
  refine ⟨t, ht, fun q hq => ?_, hholds.congr fun m n e => ⟨fun he => ?_, ?_⟩⟩
  · obtain ⟨r, k, s, hs, hsholds⟩ := halone q hq
    obtain ⟨honly, hvisits, hunreachable⟩ := only_eq_of_analyze hwf ha hq hs.1
    refine ⟨r, k, s, hs, honly, hvisits, hunreachable, hsholds.congr fun m n e => ?_⟩
    rw [streams_singleton_iff hq, hholds.carries]
  · obtain ⟨r, k, s, hs, hsholds⟩ := halone e.query he.1
    exact ⟨e.query, he.1, r, k, s, hs,
      (hsholds.carries m n e).2 ((streams_singleton_iff he.1).2 ⟨he, rfl⟩)⟩
  · rintro ⟨q, hq, r, k, s, ⟨hk, hs⟩, he⟩
    obtain ⟨s', hs', hsholds⟩ := exists_routing_of_analyze hwf hk
    obtain rfl := Except.ok.inj (hs.symm.trans hs')
    exact ((streams_singleton_iff hq).1 ((hsholds.carries m n e).1 he)).1

/-- On a line that two queries share, the second is analysed as if it were alone. -/
theorem queries_isolated_line :
    ∃ report h r k,
      (analyze (.ofList [⟨0⟩, ⟨1⟩]) ⟨64, true, true, 10⟩).outcome
        ((line.along ⟨0⟩ (.filter (.singleton ⟨0⟩))).along ⟨1⟩ .bypass) = (.ok report, h) ∧
      (analyze (.singleton ⟨1⟩) ⟨64, true, true, 10⟩).outcome
        ((line.along ⟨0⟩ (.filter (.singleton ⟨0⟩))).along ⟨1⟩ .bypass) = (.ok r, k) ∧
      h.only ⟨1⟩ = k.only ⟨1⟩ ∧ report.visits.get? ⟨1⟩ = r.visits.get? ⟨1⟩ := by
  have ha : ((analyze (.ofList [⟨0⟩, ⟨1⟩]) ⟨64, true, true, 10⟩).outcome
      ((line.along ⟨0⟩ (.filter (.singleton ⟨0⟩))).along ⟨1⟩ .bypass)).1 =
        .ok ⟨[⟨2⟩, ⟨3⟩, ⟨4⟩], ((∅ : OrdMap QueryId Nat).insert ⟨0⟩ 3).insert ⟨1⟩ 3, []⟩ := by
    decide +kernel
  have hq : (⟨1⟩ : QueryId) ∈ (QuerySet.ofList [⟨0⟩, ⟨1⟩]).toList := by decide +kernel
  obtain ⟨t, -, hone, -⟩ := (queries_isolated
    ((line_reachable.along ⟨0⟩ (.filter (.singleton ⟨0⟩))).along ⟨1⟩ .bypass)
    (by decide)).2 _ _ (Attempt.eq_of_ok ha)
  obtain ⟨r, k, s, ⟨hk, -⟩, honly, hvisits, -⟩ := hone ⟨1⟩ hq
  exact ⟨_, _, r, k, Attempt.eq_of_ok ha, hk, honly, hvisits⟩

end PlanGraph

end SharedPlan
