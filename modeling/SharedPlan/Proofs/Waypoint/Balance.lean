import SharedPlan.Proofs.Waypoint.Step

/-!
# SharedPlan.Proofs.Waypoint.Balance

How the upward and the downward rules of a waypoint fit together.

Of what a query must find in an inbox, a sound waypoint asks for everything below, with
one exception: what it passes on and also computes itself (`Sound.requires_below`).
Of what arrived and is passed on, it asks for whatever is asked of it, unless it
computes that itself (`Sound.passes_below`).
-/

namespace SharedPlan

namespace Waypoint

variable {w : Waypoint} {q : QueryId} {kind k : EdgeKind} {needed : SlotSet} {x : SlotId}

/-- Whatever emits for a query has it registered. -/
theorem Sound.covers_of_supplies (hw : w.Sound) (h : w.supplies q = true) : w.covers q = true := by
  have hq := hw q
  cases hr : w.role with
  | scanner _ _ _ =>
      simp only [hr, Agrees] at hq
      simp only [supplies, hr] at h
      exact hq.2 (.inl h)
  | _ => simpa [supplies, hr] using h

/-- Whatever needs something for a query has it registered. -/
theorem Sound.covers_of_requires (hw : w.Sound) (hx : x ∈ w.requires kind q) :
    w.covers q = true := by
  have hq := hw q
  have hif (b : Bool) (s : SlotSet) (h : x ∈ if b then s else ∅) : b = true := by
    cases b <;> simp_all
  cases hr : w.role with
  | scanner _ _ shares =>
      simp only [hr, Agrees] at hq
      cases kind with
      | flowThrough => simp [requires, hr] at hx
      | terminating =>
          simp only [requires, hr] at hx
          cases hs : (shares.get q).writes with
          | none => simp [hs] at hx
          | some slots => exact hq.2 (.inr (by simp [hs]))
  | textLoader _ _ | ingest _ _ | iterative _ => simp [requires, hr] at hx
  | selection _ | transform _ | cache _ | compact _ =>
      simp only [requires, hr] at hx
      have := hif _ _ hx
      simp only [Bool.and_eq_true] at this
      exact this.1
  | join _ _ _ =>
      cases kind with
      | flowThrough | terminating =>
          simp only [requires, hr] at hx
          have := hif _ _ hx
          simp only [Bool.and_eq_true] at this
          exact this.1
  | aggregate _ | print _ | cluster _ _ =>
      simp only [requires, hr] at hx
      exact hif _ _ hx

/-- A waypoint carries a query on over the edges whose inbox it passes on. -/
theorem carries_of_passes (h : w.passes kind q = true) : w.carries kind q = true := by
  cases hr : w.role <;> cases kind <;> simp_all [passes, carries]

/-- **What must arrive is asked for**, unless it is passed on and computed here. -/
theorem Sound.requires_below (hw : w.Sound) (hx : x ∈ w.requires kind q) :
    w.carries kind q = true ∧
      (x ∈ w.below kind q needed ∨ w.passes kind q = true ∧ x ∈ w.own q) := by
  have hq := hw q
  cases hr : w.role with
  | scanner _ _ shares =>
      cases kind with
      | flowThrough => simp [requires, hr] at hx
      | terminating =>
          simp only [requires, hr] at hx
          cases hs : (shares.get q).writes with
          | none => simp [hs] at hx
          | some slots => simp_all [carries, below]
  | textLoader _ _ | ingest _ _ | iterative _ => simp [requires, hr] at hx
  | selection _ | transform _ | cache _ | compact _ =>
      have hb : (w.flow q).bypassed = false := by
        cases h : (w.flow q).bypassed <;> simp_all [requires]
      have hused : x ∈ (w.flow q).used := by
        cases h : (w.flow q).covered <;> simp_all [requires]
      by_cases hsyn : x ∈ (w.flow q).synthesized
      · simp [carries, passes, own, hr, hb, hsyn]
      · simp [carries, below, hr, hb, Flow.forward, hused, hsyn]
  | join columns _ shares =>
      simp only [hr, Agrees] at hq
      have hb : (w.flow q).bypassed = false := by
        cases h : (w.flow q).bypassed <;> cases kind <;> simp_all [requires]
      cases kind with
      | flowThrough =>
          have hcol : x ∈ columns := by
            cases h : (w.flow q).covered <;> simp_all [requires]
          simp [carries, below, hr, hb, hcol]
      | terminating =>
          have hused : x ∈ (w.flow q).used := by
            cases h : (w.flow q).covered <;> simp_all [requires]
          have hrhs := hq x (OrdSet.mem_union.2 (.inl hused))
          simp [carries, below, hr, hb, hrhs]
  | aggregate _ | print _ | cluster _ _ =>
      have hused : x ∈ (w.flow q).used := by
        cases h : (w.flow q).covered <;> simp_all [requires]
      simp [carries, below, hr, hused]

/-- **What is passed on when asked for is asked for below**, unless it is computed here. -/
theorem Sound.passes_below (hw : w.Sound) (hp : w.passes kind q = true) (hn : x ∈ needed)
    (hx : x ∈ w.inbox kind q) : x ∈ w.own q ∨ x ∈ w.below kind q needed := by
  have hq := hw q
  cases hr : w.role with
  | selection _ =>
      cases hb : (w.flow q).bypassed with
      | true => simp [below, hr, hb, hn]
      | false =>
          by_cases hsyn : x ∈ (w.flow q).synthesized
          · simp [own, hr, hb, hsyn]
          · simp [below, hr, hb, Flow.forward, hn, hsyn]
  | transform _ | cache _ | compact _ =>
      have hb : (w.flow q).bypassed = false := by simpa [hr, Agrees] using hq
      by_cases hsyn : x ∈ (w.flow q).synthesized
      · simp [own, hr, hb, hsyn]
      · simp [below, hr, Flow.forward, hn, hsyn]
  | join _ _ shares =>
      cases kind with
      | flowThrough => cases hb : (w.flow q).bypassed <;> simp_all [below, inbox]
      | terminating => cases hb : (w.flow q).bypassed <;> simp_all [below, inbox, passes]
  | _ => cases kind <;> simp [passes, hr] at hp

/-- Over kinds of edges that lead into one inbox, a waypoint asks alike. -/
theorem below_of_sharesInbox (h : w.sharesInbox kind k) :
    w.below kind q needed = w.below k q needed := by
  cases hr : w.role with
  | scanner _ _ _ | join _ _ _ =>
      simp only [sharesInbox, hr] at h
      exact h ▸ rfl
  | _ => cases kind <;> cases k <;> simp [below, hr]

theorem carries_of_sharesInbox (h : w.sharesInbox kind k) :
    w.carries kind q = w.carries k q := by
  cases hr : w.role with
  | scanner _ _ _ | join _ _ _ =>
      simp only [sharesInbox, hr] at h
      exact h ▸ rfl
  | _ => cases kind <;> cases k <;> simp [carries, hr]

end Waypoint

end SharedPlan
