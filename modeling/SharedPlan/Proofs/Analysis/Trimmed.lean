import SharedPlan.Proofs.Analysis.Settled
import SharedPlan.Proofs.Waypoint.Narrow

/-!
# SharedPlan.Proofs.Analysis.Trimmed

A graph whose scanners emit less, but everything that is needed.

`PlanGraph.Trims` compares two settled graphs with the same outlines.  What is needed at
a waypoint is closed: what the waypoint asks for in turn is needed at those that send
to it.  Along the order it follows that in the trimmed graph nothing arrives that did
not arrive before (`Trims.inbox_subset`), and everything does that is asked for
(`Trims.mem_inbox`).
-/

namespace SharedPlan

/-- Waypoints with one outline give the same attributes, as far as they emit them. -/
theorem Waypoint.Gives.of_outline {u v : Waypoint} {active : QuerySet} {q : QueryId} {x : SlotId}
    (hx : u.Gives active q x) (hout : v.outline q = u.outline q)
    (hy : x ∈ u.yield q → x ∈ v.yield q) : v.Gives active q x := by
  obtain ⟨hp, hq, hs, hx⟩ := hx
  refine ⟨?_, hq, ?_, hy hx⟩
  · rw [← passesOn_outline q, hout, passesOn_outline, hp]
  · rw [← supplies_outline, hout, supplies_outline, hs]

/-- Whatever a query must find at a waypoint and is computed there as well, for others to
use, has arrived. -/
def Waypoint.FindsOwn (w : Waypoint) (q : QueryId) : Prop :=
  ∀ kind, w.passes kind q = true → ∀ x ∈ w.requires kind q, x ∈ w.own q → x ∈ w.inbox kind q

namespace PlanGraph

/-- The second graph is the first with scanners that emit less for a query, while some
demands that waypoints are asked for are still met. -/
structure Trims (s t : PlanGraph) (active : QuerySet) (order : List WaypointId) (q : QueryId)
    (Needs : WaypointId → SlotSet → Prop) : Prop where
  wellFormed : s.WellFormed
  outline : s.mapWaypoints (·.outline q) = t.mapWaypoints (·.outline q)
  forward : ∀ {m n kind}, m ∈ s.ids → n ∈ s.ids → ⟨m, n, kind⟩ ∈ s.links →
    order.idxOf m < order.idxOf n
  settled : s.Settled order active q
  settled' : t.Settled order active q
  /-- Whatever is asked for below is needed there. -/
  closed : ∀ {m n kind S u w}, Needs n S → s.find? n = some w → w.carries kind q = true →
    s.find? m = some u → u.covers q = true → ⟨m, n, kind⟩ ∈ s.links →
    ∃ T, Needs m T ∧ w.below kind q S ⊆ T
  /-- A scanner emits no more than before. -/
  less : ∀ {n w v}, s.find? n = some w → t.find? n = some v → w.reads q = true →
    v.own q ⊆ w.own q
  /-- A scanner emits what is needed. -/
  enough : ∀ {n w v S}, s.find? n = some w → t.find? n = some v → w.reads q = true →
    Needs n S → S ⊆ v.own q

namespace Trims

variable {s t : PlanGraph} {active : QuerySet} {order : List WaypointId} {q : QueryId}
  {Needs : WaypointId → SlotSet → Prop} (h : Trims s t active order q Needs)
  {n : WaypointId} {w v : Waypoint} {kind : EdgeKind} {S : SlotSet} {x : SlotId}

include h

theorem exists_find? (hw : s.find? n = some w) :
    ∃ v, t.find? n = some v ∧ v.outline q = w.outline q :=
  exists_find?_of_view (Waypoint.id_outline q) h.outline hw

theorem outline_eq (hw : s.find? n = some w) (hv : t.find? n = some v) :
    v.outline q = w.outline q := by
  obtain ⟨v', hv', heq⟩ := h.exists_find? hw
  obtain rfl := Option.some.inj (hv.symm.trans hv')
  exact heq

theorem sound (hw : s.find? n = some w) : w.Sound :=
  h.wellFormed.sound w (mem_of_find? hw)

theorem covers_eq (hw : s.find? n = some w) (hv : t.find? n = some v) :
    v.covers q = w.covers q := by
  rw [← Waypoint.covers_outline, h.outline_eq hw hv, Waypoint.covers_outline]

theorem supplies_eq (hw : s.find? n = some w) (hv : t.find? n = some v) :
    v.supplies q = w.supplies q := by
  rw [← Waypoint.supplies_outline, h.outline_eq hw hv, Waypoint.supplies_outline]

theorem kind_eq (hw : s.find? n = some w) (hv : t.find? n = some v) : v.kind = w.kind := by
  rw [← Waypoint.kind_outline q, h.outline_eq hw hv, Waypoint.kind_outline]

theorem passes_eq (hw : s.find? n = some w) (hv : t.find? n = some v) (kind : EdgeKind) :
    v.passes kind q = w.passes kind q := by
  rw [← Waypoint.passes_outline, h.outline_eq hw hv, Waypoint.passes_outline]

theorem requires_eq (hw : s.find? n = some w) (hv : t.find? n = some v) (kind : EdgeKind) :
    v.requires kind q = w.requires kind q := by
  rw [← Waypoint.requires_outline, h.outline_eq hw hv, Waypoint.requires_outline]

theorem sharesInbox_iff (hw : s.find? n = some w) (hv : t.find? n = some v) {k : EdgeKind} :
    v.sharesInbox kind k ↔ w.sharesInbox kind k := by
  rw [← Waypoint.sharesInbox_outline q, h.outline_eq hw hv, Waypoint.sharesInbox_outline]

/-! ## What is emitted -/

/-- What a waypoint adds that no query reads is told by its outline. -/
theorem own_eq (hw : s.find? n = some w) (hv : t.find? n = some v) (hr : w.reads q = false)
    (hs : w.supplies q = true) : v.own q = w.own q := by
  have hout := h.outline_eq hw hv
  have hkind : v.kind = w.kind := h.kind_eq hw hv
  have hscans : w.role.scans = false := by
    cases hrole : w.role <;>
      simp_all [Role.scans, Waypoint.supplies, Waypoint.reads, Waypoint.scan?]
  have hscans' : v.role.scans = false := by
    cases hrole : w.role <;> cases hrole' : v.role <;>
      simp_all [Role.scans, Waypoint.kind, Role.kind]
  rw [← Waypoint.own_outline hscans', hout, Waypoint.own_outline hscans]

theorem own_subset (hw : s.find? n = some w) (hv : t.find? n = some v)
    (hs : w.supplies q = true) : v.own q ⊆ w.own q := by
  cases hr : w.reads q with
  | true => exact h.less hw hv hr
  | false =>
      rw [h.own_eq hw hv hr hs]
      exact fun _ hx => hx

theorem mem_own (hw : s.find? n = some w) (hv : t.find? n = some v) (hs : w.supplies q = true)
    (hn : Needs n S) (hS : x ∈ S) (hx : x ∈ w.own q) : x ∈ v.own q := by
  cases hr : w.reads q with
  | true => exact h.enough hw hv hr hn x hS
  | false => rwa [h.own_eq hw hv hr hs]

/-! ## What arrives -/

/-- **Nothing arrives that did not arrive before.** -/
theorem inbox_subset (hw : s.find? n = some w) (hv : t.find? n = some v) :
    v.inbox kind q ⊆ w.inbox kind q := by
  intro x hx
  induction hrank : order.idxOf n using Nat.strongRecOn generalizing n w v kind x with
  | ind rank ih =>
      obtain ⟨m, hm, u', hu', hcovers, ⟨k, hlink, hk⟩, hgives⟩ := (h.settled'.inbox hv).1 hx
      obtain ⟨u, hu, houtu⟩ := exists_find?_of_view (Waypoint.id_outline q) h.outline.symm hu'
      have hlink : ⟨m, n, k⟩ ∈ s.links := links_eq_of_view h.outline ▸ hlink
      have hlt := h.forward (mem_ids_iff.2 ⟨u, hu⟩) (mem_ids_iff.2 ⟨w, hw⟩) hlink
      have hs : u.supplies q = true := (h.supplies_eq hu hu').symm.trans hgives.2.2.1
      refine (h.settled.inbox hw).2 ⟨m, hm, u, hu, (h.covers_eq hw hv).symm.trans hcovers,
        ⟨k, hlink, (h.sharesInbox_iff hw hv).1 hk⟩, hgives.of_outline houtu fun hy => ?_⟩
      rw [Waypoint.mem_yield] at hy ⊢
      rcases hy with ⟨k', hp, hin⟩ | hown
      · exact .inl ⟨k', (h.passes_eq hu hu' k').symm.trans hp,
          ih _ (hrank ▸ hlt) hu hu' x hin rfl⟩
      · exact .inr (h.own_subset hu hu' hs x hown)

/-- **Whatever is asked for arrives** if it did so before. -/
theorem mem_inbox (hw : s.find? n = some w) (hv : t.find? n = some v) (hn : Needs n S)
    (hc : w.carries kind q = true) (hb : x ∈ w.below kind q S) (hx : x ∈ w.inbox kind q) :
    x ∈ v.inbox kind q := by
  induction hrank : order.idxOf n using Nat.strongRecOn generalizing n w v S kind x with
  | ind rank ih =>
      obtain ⟨m, hm, u, hu, hcovers, ⟨k, hlink, hk⟩, hgives⟩ := (h.settled.inbox hw).1 hx
      obtain ⟨u', hu', houtu⟩ := h.exists_find? hu
      have hlt := h.forward (mem_ids_iff.2 ⟨u, hu⟩) (mem_ids_iff.2 ⟨w, hw⟩) hlink
      have hbelow : w.below k q S = w.below kind q S := Waypoint.below_of_sharesInbox hk
      have hcarries : w.carries k q = w.carries kind q := Waypoint.carries_of_sharesInbox hk
      obtain ⟨T, hT, hsub⟩ := h.closed hn hw (hcarries.trans hc) hu
        ((h.sound hu).covers_of_supplies hgives.2.2.1) hlink
      have hxT : x ∈ T := hsub x (hbelow ▸ hb)
      refine (h.settled'.inbox hv).2 ⟨m, hm, u', hu', (h.covers_eq hw hv).trans hcovers,
        ⟨k, links_eq_of_view h.outline ▸ hlink, (h.sharesInbox_iff hw hv).2 hk⟩,
        hgives.of_outline houtu fun hy => ?_⟩
      rw [Waypoint.mem_yield] at hy ⊢
      rcases hy with ⟨k', hp, hin⟩ | hown
      · rcases (h.sound hu).passes_below hp hxT hin with hown | hbelow'
        · exact .inr (h.mem_own hu hu' hgives.2.2.1 hT hxT hown)
        · refine .inl ⟨k', (h.passes_eq hu hu' k').trans hp, ?_⟩
          exact ih _ (hrank ▸ hlt) hu hu' hT (Waypoint.carries_of_passes hp) hbelow' hin rfl
      · exact .inr (h.mem_own hu hu' hgives.2.2.1 hT hxT hown)

/-- What is passed on and needed arrives in both graphs or in neither. -/
theorem mem_inbox_iff (hw : s.find? n = some w) (hv : t.find? n = some v) (hn : Needs n S)
    (hp : w.passes kind q = true) (hx : x ∈ S) (hown : x ∉ w.own q) :
    x ∈ v.inbox kind q ↔ x ∈ w.inbox kind q := by
  refine ⟨h.inbox_subset hw hv x, fun hin => ?_⟩
  rcases (h.sound hw).passes_below hp hx hin with hown' | hbelow
  · exact absurd hown' hown
  · exact h.mem_inbox hw hv hn (Waypoint.carries_of_passes hp) hbelow hin

/-- Whatever is needed is emitted if it was so before. -/
theorem mem_yield (hw : s.find? n = some w) (hv : t.find? n = some v) (hn : Needs n S)
    (hs : w.supplies q = true) (hx : x ∈ S) (hy : x ∈ w.yield q) : x ∈ v.yield q := by
  rw [Waypoint.mem_yield] at hy ⊢
  by_cases hown : x ∈ w.own q
  · exact .inr (h.mem_own hw hv hs hn hx hown)
  · obtain ⟨k, hp, hin⟩ := hy.resolve_right hown
    exact .inl ⟨k, (h.passes_eq hw hv k).trans hp, (h.mem_inbox_iff hw hv hn hp hx hown).2 hin⟩

theorem mem_produced (hw : s.find? n = some w) (hv : t.find? n = some v) (hn : Needs n S)
    (hx : x ∈ S) (hp : x ∈ (w.flow q).produced) : x ∈ (v.flow q).produced := by
  rw [h.settled.produced hw] at hp
  rw [h.settled'.produced hv, h.supplies_eq hw hv]
  split at hp
  · rename_i hemits
    rw [if_pos hemits]
    exact h.mem_yield hw hv hn hemits.2.2 hx hp
  · exact absurd hp (OrdSet.not_mem_empty x)

/-! ## Feeding and asking -/

/-- Where every demand is needed, a fed waypoint is fed in the trimmed graph, if what it
computes besides passing it on arrives as well where it must. -/
theorem fed_iff (hw : s.find? n = some w) (hv : t.find? n = some v) (hfed : w.Fed q)
    (hneeded : w.covers q = true → ∃ S, Needs n S) :
    v.Fed q ↔ v.FindsOwn q := by
  refine ⟨fun hv k _ x hx _ => hv k x hx, fun hpassed k x hx => ?_⟩
  have hx' : x ∈ w.requires k q := h.requires_eq hw hv k ▸ hx
  have hcovers := (h.sound hw).covers_of_requires hx'
  obtain ⟨S, hS⟩ := hneeded hcovers
  obtain ⟨hc, hbelow | ⟨hp, hown⟩⟩ := (h.sound hw).requires_below hx'
  · exact h.mem_inbox hw hv hS hc hbelow (hfed k x hx')
  · refine hpassed k ((h.passes_eq hw hv k).trans hp) x hx ?_
    have hreads : w.reads q = false := by
      cases hr : w.role <;> simp_all [Waypoint.reads, Waypoint.scan?, Waypoint.passes]
    have hs : w.supplies q = true := by
      cases hr : w.role <;> simp_all [Waypoint.supplies, Waypoint.passes]
    rw [h.own_eq hw hv hreads hs]
    exact hown

/-- Waypoints ask for the same below, as far as they are asked for what is needed. -/
theorem below_eq (hw : s.find? n = some w) (hv : t.find? n = some v)
    (hS : ∀ x ∈ S, ∃ T, Needs n T ∧ x ∈ T) : v.below kind q S = w.below kind q S := by
  have hout := h.outline_eq hw hv
  have hkind : v.kind = w.kind := h.kind_eq hw hv
  ext x
  rw [Waypoint.mem_below_iff (w := v), Waypoint.mem_below_iff (w := w), hout, hkind,
    h.passes_eq hw hv]
  refine or_congr_right (and_congr_right fun hjoin => and_congr_right fun hp =>
    and_congr_right fun hx => ?_)
  obtain ⟨T, hT, hxT⟩ := hS x hx
  refine h.mem_inbox_iff hw hv hT hp hxT ?_
  cases hr : w.role <;> simp_all [Waypoint.own, Waypoint.kind, Role.kind]

end Trims

end PlanGraph

end SharedPlan
