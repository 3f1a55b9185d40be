import SharedPlan.Proofs.Analysis.Recorded
import SharedPlan.Proofs.Routing.Compiled

/-!
# SharedPlan.Proofs.Routing.Exact

The table compiled after an analysis, told by the graph that was analysed.

Compilation looks at the exits of receivers and at the registrations of senders, and never
at the walks that recorded the one from the other.  `routing_exact` says that nothing
is lost or added between the two: a link carries an exit exactly when a stream of an
active query crosses it on its way to that exit.
-/

namespace SharedPlan

namespace PlanGraph

variable {g h : PlanGraph} {active : QuerySet} {options : PlannerOptions}
  {report : AnalysisReport}

/-- What travels over the edges of an analysed graph are the streams of the active
queries. -/
theorem travels_of_analyze (hg : g.WellFormed)
    (ha : (analyze active options).outcome g = (.ok report, h)) {m n : WaypointId}
    {e : QueryExit} :
    h.Travels m n e ↔ g.Streams active m n e := by
  obtain ⟨q, x⟩ := e
  have hbegin := beginCycle_of_analyze hg ha
  have hids : h.ids = g.ids := ids_eq_of_view Waypoint.id_beginCycle hbegin
  have hlinks : h.links = g.links := links_eq_of_view hbegin
  simp only [Travels, Streams, edges_congr hids hlinks]
  constructor
  · rintro ⟨kind, he, ⟨v, hv, hc⟩, w, hw, hx⟩
    obtain ⟨-, hlink, ht⟩ := mem_edges.1 he
    obtain ⟨hq, hcarries, y, hent, hxy⟩ :=
      (holdsExit_of_analyze hg ha (e := ⟨m, n, kind⟩) hw hlink).1 hx
    obtain ⟨v₀, hv₀, hvb⟩ := find?_of_analyze hg ha hv
    obtain ⟨w₀, hw₀, hwb⟩ := find?_of_analyze hg ha hw
    have hm : m.isSentinel = false := by
      simp only [Edge.touchesSentinel, Bool.or_eq_false_iff] at ht
      exact ht.1
    refine ⟨hq, y, hent, kind, hlink, hm, ⟨v₀, hv₀, ?_⟩, ⟨w₀, hw₀, ?_⟩, hxy⟩
    · rw [← Waypoint.covers_beginCycle, hvb, Waypoint.covers_beginCycle]
      exact hc
    · rw [← Waypoint.carries_beginCycle, hwb, Waypoint.carries_beginCycle]
      exact hcarries
  · rintro ⟨hq, y, hent, kind, hlink, hm, ⟨v₀, hv₀, hc⟩, ⟨w₀, hw₀, hcarries⟩, hxy⟩
    have hn := hg.proper n (mem_ids_iff.2 ⟨w₀, hw₀⟩)
    obtain ⟨v, hv, hvb⟩ := exists_find?_of_view Waypoint.id_beginCycle hbegin.symm hv₀
    obtain ⟨w, hw, hwb⟩ := exists_find?_of_view Waypoint.id_beginCycle hbegin.symm hw₀
    refine ⟨kind, mem_edges.2 ⟨mem_ids_iff.2 ⟨v₀, hv₀⟩, hlink, ?_⟩, ⟨v, hv, ?_⟩, w, hw, ?_⟩
    · simp [Edge.touchesSentinel, hm, hn]
    · rw [← Waypoint.covers_beginCycle, hvb, Waypoint.covers_beginCycle]
      exact hc
    · refine (holdsExit_of_analyze hg ha (e := ⟨m, n, kind⟩) hw hlink).2 ⟨hq, ?_, y, hent, hxy⟩
      rw [← Waypoint.carries_beginCycle, hwb, Waypoint.carries_beginCycle]
      exact hcarries

theorem exists_routing_of_analyze (hg : g.WellFormed)
    (ha : (analyze active options).outcome g = (.ok report, h)) :
    ∃ t, h.routing = .ok t ∧ t.Holds g.ids (g.Streams active) := by
  obtain ⟨t, ht, hholds⟩ := exists_routing (wellFormed_of_analyze hg ha)
  have hids : h.ids = g.ids := ids_eq_of_view Waypoint.id_beginCycle (beginCycle_of_analyze hg ha)
  exact ⟨t, ht, (hids ▸ hholds).congr fun m n e => travels_of_analyze hg ha⟩

/-- **Exactness of the routing.**  After a successful analysis of a graph that can be built,
the table is compiled, lists the waypoints of the graph, and its links carry the streams
of the active queries, each with its exit, and nothing else. -/
theorem routing_exact (hg : g.Reachable)
    (ha : (analyze active options).outcome g = (.ok report, h)) :
    ∃ t, h.routing = .ok t ∧ t.Holds g.ids (g.Streams active) :=
  exists_routing_of_analyze hg.wellFormed ha

/-- On a line with a filter, the table holds the two links of the one stream. -/
theorem routing_exact_line :
    ∃ t, ((analyze (.singleton ⟨0⟩) ⟨64, true, true, 10⟩).outcome
        (line.along ⟨0⟩ (.filter (.singleton ⟨0⟩)))).2.routing = .ok t ∧
      t.Holds (line.along ⟨0⟩ (.filter (.singleton ⟨0⟩))).ids
        ((line.along ⟨0⟩ (.filter (.singleton ⟨0⟩))).Streams (.singleton ⟨0⟩)) := by
  have ha : ((analyze (.singleton ⟨0⟩) ⟨64, true, true, 10⟩).outcome
      (line.along ⟨0⟩ (.filter (.singleton ⟨0⟩)))).1 =
        .ok ⟨[⟨2⟩, ⟨3⟩, ⟨4⟩], (∅ : OrdMap QueryId Nat).insert ⟨0⟩ 3, []⟩ := by
    decide +kernel
  exact routing_exact (line_reachable.along _ _) (Attempt.eq_of_ok ha)

end PlanGraph

end SharedPlan
