import SharedPlan.Proofs.Waypoint.Answer

/-!
# SharedPlan.Proofs.Waypoint.Repeat

Several demands of one query at one waypoint.

What a waypoint writes down for a demand is added to what it wrote down before: to the
recorded exits, to the columns projected, to the attributes copied.  So demands may be
answered in any order (`answered_comm`), and two demands over edges of one kind, for one
exit, are answered as their union would be (`answered_answered`).  A waypoint that an
answer does not change `Waypoint.Knows` the demand, and with it every smaller one.  What
it asks for below it asks attribute by attribute (`mem_below`).
-/

namespace SharedPlan

namespace QueryTable

variable {β : Type} [Inhabited β] [DecidableEq β]

/-- Two changes of one record are one change. -/
theorem modify_modify (t : QueryTable β) (q : QueryId) (f f' : β → β) :
    (t.modify q f).modify q f' = t.modify q fun b => f' (f b) := by
  ext r
  simp only [get_modify, if_true]
  by_cases hr : r = q <;> simp [hr]

theorem modify_congr {t : QueryTable β} {q : QueryId} {f f' : β → β}
    (h : f (t.get q) = f' (t.get q)) : t.modify q f = t.modify q f' := by
  rw [modify, modify, h]

end QueryTable

namespace OrdSet

variable {α : Type} [Ord α] [Std.TransOrd α] [Std.LawfulEqOrd α]

theorem union_comm (s t : OrdSet α) : s ∪ t = t ∪ s := by
  ext a
  simp only [mem_union, or_comm]

theorem union_assoc (s t u : OrdSet α) : s ∪ t ∪ u = s ∪ (t ∪ u) := by
  ext a
  simp only [mem_union, or_assoc]

theorem union_eq_left {s t : OrdSet α} : s ∪ t = s ↔ t ⊆ s := by
  refine ⟨fun h a ha => h ▸ mem_union.2 (.inr ha), fun h => ?_⟩
  ext a
  rw [mem_union]
  exact or_iff_left_of_imp (h a)

end OrdSet

theorem mergeSlots_mergeSlots (old : Option SlotSet) (S T : SlotSet) :
    mergeSlots (mergeSlots old S) T = mergeSlots old (S ∪ T) := by
  simp only [mergeSlots, Option.getD_some, OrdSet.union_assoc]

theorem mergeSlots_comm (old : Option SlotSet) (S T : SlotSet) :
    mergeSlots (mergeSlots old S) T = mergeSlots (mergeSlots old T) S := by
  rw [mergeSlots_mergeSlots, mergeSlots_mergeSlots, OrdSet.union_comm]

/-! ## What a role writes down -/

namespace Role

/-- The role once it has written down a demand of a query with this record. -/
def noted (f : Flow) (kind : EdgeKind) (q : QueryId) (needed : SlotSet) (r : Role) : Role :=
  match r, kind with
  | scanner relation columns shares, .flowThrough =>
    scanner relation columns (shares.modify q fun s =>
      { s with
        projected := mergeSlots s.projected needed
        dropped := some (f.used \ (s.projected.getD ∅ ∪ needed)) })
  | join columns keys shares, .flowThrough =>
    if f.bypassed then r
    else join columns keys (shares.modify q fun s =>
      { s with lhsCopy := mergeSlots s.lhsCopy (needed ∩ f.down) })
  | join columns keys shares, .terminating =>
    if f.bypassed then r
    else join columns keys (shares.modify q fun s =>
      { s with
        rhsCopy := mergeSlots s.rhsCopy
          (if s.joinKind.forwardsRight then needed ∩ s.arrived else ∅) })
  | transform shares, _ =>
    transform (shares.modify q fun s =>
      { s with passThrough := mergeSlots s.passThrough (needed \ f.synthesized) })
  | r, _ => r

variable (r : Role) (f : Flow) (kind k : EdgeKind) (q : QueryId) (S T : SlotSet)

/-- What is written down for two demands over edges of one kind is written down for both
together. -/
theorem noted_noted : (r.noted f kind q S).noted f kind q T = r.noted f kind q (S ∪ T) := by
  have hinter (D : SlotSet) : S ∩ D ∪ T ∩ D = (S ∪ T) ∩ D := by
    ext z
    simp only [OrdSet.mem_union, OrdSet.mem_inter, or_and_right]
  have hdiff (D : SlotSet) : S \ D ∪ T \ D = (S ∪ T) \ D := by
    ext z
    simp only [OrdSet.mem_union, OrdSet.mem_sdiff, or_and_right]
  have hright (forwards : Bool) (D : SlotSet) :
      (if forwards then S ∩ D else ∅) ∪ (if forwards then T ∩ D else ∅) =
        if forwards then (S ∪ T) ∩ D else ∅ := by
    cases forwards
    · rfl
    · exact hinter D
  cases r with
  | scanner _ _ _ =>
      cases kind with
      | flowThrough =>
          simp only [noted, QueryTable.modify_modify, mergeSlots_mergeSlots]
          simp only [mergeSlots, Option.getD_some, OrdSet.union_assoc]
      | terminating => rfl
  | join _ _ shares =>
      cases hb : f.bypassed with
      | true => cases kind <;> simp [noted, hb]
      | false =>
          cases kind with
          | flowThrough =>
              simp [noted, hb, QueryTable.modify_modify, mergeSlots_mergeSlots, hinter]
          | terminating =>
              simp only [noted, hb, Bool.false_eq_true, if_false, QueryTable.modify_modify,
                mergeSlots_mergeSlots]
              congr 1
              exact QueryTable.modify_congr (congrArg
                (fun D => { shares.get q with rhsCopy := mergeSlots (shares.get q).rhsCopy D })
                (hright (shares.get q).joinKind.forwardsRight (shares.get q).arrived))
  | transform _ => simp [noted, QueryTable.modify_modify, mergeSlots_mergeSlots, hdiff]
  | _ => rfl

/-- In which order demands are written down does not matter. -/
theorem noted_comm :
    (r.noted f kind q S).noted f k q T = (r.noted f k q T).noted f kind q S := by
  by_cases h : k = kind
  · subst h
    rw [noted_noted, noted_noted, OrdSet.union_comm]
  · cases r with
    | join _ _ _ =>
        -- the two copies are kept apart
        cases hb : f.bypassed <;> cases kind <;> cases k <;>
          first
          | exact absurd rfl h
          | (simp only [noted, hb, Bool.false_eq_true, if_false, if_true, QueryTable.modify_modify]
             try rfl)
    | transform _ => simp only [noted, QueryTable.modify_modify, mergeSlots_comm]
    | _ => cases kind <;> cases k <;> first | rfl | exact absurd rfl h

end Role

namespace Waypoint

variable (w : Waypoint) (kind k : EdgeKind) (q : QueryId) (S T : SlotSet) (x y : WaypointId)

theorem note_eq : w.note kind q S = { w with role := w.role.noted (w.flow q) kind q S } := by
  obtain ⟨id, name, flows, role⟩ := w
  cases role with
  | scanner _ _ shares =>
      cases kind with
      | flowThrough =>
          simp only [note, Role.noted]
          congr 2
      | terminating => rfl
  | join _ _ shares =>
      cases kind <;> simp only [note, Role.noted] <;> split <;> rfl
  | _ => rfl

/-! ## Answers -/

/-- Recording an exit changes nothing that a role looks at. -/
theorem noted_recordExit (r : Role) :
    r.noted ((w.recordExit kind ⟨q, x⟩).flow q) k q S = r.noted (w.flow q) k q S := by
  have hflow : (w.recordExit kind ⟨q, x⟩).flow q =
      { w.flow q with
        exits := ((w.recordExit kind ⟨q, x⟩).flow q).exits
        terminatingExits := ((w.recordExit kind ⟨q, x⟩).flow q).terminatingExits } := by
    cases kind <;> simp [recordExit, flow_modifyFlow]
  rw [hflow]
  cases r <;> cases k <;> rfl

theorem recordExit_comm : (w.recordExit kind ⟨q, x⟩).recordExit k ⟨q, y⟩ =
    (w.recordExit k ⟨q, y⟩).recordExit kind ⟨q, x⟩ := by
  have hinsert (s : OrdSet WaypointId) : (s.insert x).insert y = (s.insert y).insert x := by
    ext z
    simp only [OrdSet.mem_insert, or_left_comm]
  cases kind <;> cases k <;>
    simp only [recordExit, modifyFlow, QueryTable.modify_modify, hinsert]

theorem recordExit_recordExit :
    (w.recordExit kind ⟨q, x⟩).recordExit kind ⟨q, x⟩ = w.recordExit kind ⟨q, x⟩ := by
  have hinsert (s : OrdSet WaypointId) : (s.insert x).insert x = s.insert x := by
    ext z
    simp only [OrdSet.mem_insert, or_self_left]
  cases kind <;> simp only [recordExit, modifyFlow, QueryTable.modify_modify, hinsert]

theorem answered_of_carries (hc : w.carries kind q = true) : w.answered kind q S ⟨q, x⟩ =
    { w.recordExit kind ⟨q, x⟩ with role := w.role.noted (w.flow q) kind q S } := by
  rw [answered, if_pos hc, note_eq]
  rfl

theorem answered_of_not_carries (hc : w.carries kind q = false) :
    w.answered kind q S ⟨q, x⟩ = w := by
  rw [answered, hc]
  rfl

/-- What two answers leave where the waypoint carries the query on over both edges. -/
theorem answered_of_carries_both (hc : w.carries kind q = true) (hk : w.carries k q = true) :
    (w.answered kind q S ⟨q, x⟩).answered k q T ⟨q, y⟩ =
      { (w.recordExit kind ⟨q, x⟩).recordExit k ⟨q, y⟩ with
        role := (w.role.noted (w.flow q) kind q S).noted (w.flow q) k q T } := by
  rw [answered_of_carries _ k q T y (by rw [carries_answered, hk]),
    answered_of_carries w kind q S x hc]
  exact congrArg
    (fun r => { (w.recordExit kind ⟨q, x⟩).recordExit k ⟨q, y⟩ with role := r })
    (noted_recordExit ..)

/-- **In which order a waypoint answers the demands of a query does not matter.** -/
theorem answered_comm :
    (w.answered kind q S ⟨q, x⟩).answered k q T ⟨q, y⟩ =
      (w.answered k q T ⟨q, y⟩).answered kind q S ⟨q, x⟩ := by
  cases hc : w.carries kind q with
  | false =>
      rw [answered_of_not_carries w kind q S x hc,
        answered_of_not_carries _ kind q S x (by rw [carries_answered, hc])]
  | true =>
      cases hk : w.carries k q with
      | false =>
          rw [answered_of_not_carries w k q T y hk,
            answered_of_not_carries _ k q T y (by rw [carries_answered, hk])]
      | true =>
          rw [answered_of_carries_both w kind k q S T x y hc hk,
            answered_of_carries_both w k kind q T S y x hk hc, recordExit_comm, Role.noted_comm]

/-- **Two demands for one exit, over edges of one kind, are answered as one.** -/
theorem answered_answered :
    (w.answered kind q S ⟨q, x⟩).answered kind q T ⟨q, x⟩ = w.answered kind q (S ∪ T) ⟨q, x⟩ := by
  cases hc : w.carries kind q with
  | false => simp only [answered_of_not_carries w kind q _ x hc]
  | true =>
      rw [answered_of_carries_both w kind kind q S T x x hc hc, recordExit_recordExit,
        Role.noted_noted, answered_of_carries w kind q _ x hc]

/-! ## Known demands -/

/-- A demand that has been answered before, or is part of what has been. -/
def Knows : Prop := w.answered kind q S ⟨q, x⟩ = w

variable {w kind k q S T x y}

theorem knows_answered : (w.answered kind q S ⟨q, x⟩).Knows kind q S x := by
  rw [Knows, answered_answered, OrdSet.union_eq_left.2 fun _ h => h]

theorem Knows.union (hS : w.Knows kind q S x) (hT : w.Knows kind q T x) :
    w.Knows kind q (S ∪ T) x := by
  rw [Knows, ← answered_answered, hS, hT]

/-- What is part of a known demand is known. -/
theorem Knows.subset (hT : w.Knows kind q T x) (hST : S ⊆ T) : w.Knows kind q S x := by
  have hunion : T ∪ S = T := OrdSet.union_eq_left.2 hST
  calc w.answered kind q S ⟨q, x⟩
      = (w.answered kind q T ⟨q, x⟩).answered kind q S ⟨q, x⟩ := by rw [hT]
    _ = w := by rw [answered_answered, hunion, hT]

/-- A demand is known if each of its attributes is asked for in a known demand. -/
theorem knows_of_forall (hx : ∃ T, w.Knows kind q T x)
    (h : ∀ z ∈ S, ∃ T, z ∈ T ∧ w.Knows kind q T x) : w.Knows kind q S x := by
  have hlist (l : List SlotId) (hl : ∀ z ∈ l, z ∈ S) : w.Knows kind q (.ofList l) x := by
    induction l with
    | nil =>
        obtain ⟨T, hT⟩ := hx
        exact hT.subset (OrdSet.empty_subset T)
    | cons z rest ih =>
        obtain ⟨T, hz, hT⟩ := h z (hl z List.mem_cons_self)
        refine (hT.union (ih fun u hu => hl u (List.mem_cons_of_mem z hu))).subset fun u hu => ?_
        rcases List.mem_cons.1 (OrdSet.mem_ofList.1 hu) with rfl | hu
        · exact OrdSet.mem_union.2 (.inl hz)
        · exact OrdSet.mem_union.2 (.inr (OrdSet.mem_ofList.2 hu))
  exact (hlist S.toList fun _ hz => hz).subset fun z hz => OrdSet.mem_ofList.2 hz

/-! ## Attribute by attribute -/

/-- An attribute that a waypoint asks for below is asked for whatever the demand, or because
it is demanded itself. -/
theorem mem_below {z : SlotId} (h : z ∈ w.below kind q S) :
    (∀ T, z ∈ w.below kind q T) ∨ z ∈ S ∧ ∀ T, z ∈ T → z ∈ w.below kind q T := by
  cases hr : w.role with
  | join _ _ shares =>
      cases hb : (w.flow q).bypassed <;>
        cases hf : (shares.get q).joinKind.forwardsRight <;>
        cases kind <;>
        simp only [below, hr, hb, hf, if_true, if_false, Bool.false_eq_true, OrdSet.mem_union,
          OrdSet.mem_inter, OrdSet.not_mem_empty] at h ⊢ <;>
        grind
  | selection _ =>
      cases hb : (w.flow q).bypassed <;>
        simp only [below, hr, hb, if_true, if_false, Bool.false_eq_true, Flow.forward,
          OrdSet.mem_sdiff, OrdSet.mem_union] at h ⊢ <;>
        grind
  | transform _ | cache _ | compact _ =>
      simp only [below, hr, Flow.forward, OrdSet.mem_sdiff, OrdSet.mem_union] at h ⊢
      grind
  | scanner _ _ _ => cases kind <;> exact .inl fun T => by simpa only [below, hr] using h
  | _ => exact .inl fun T => by simpa only [below, hr] using h

/-- Who is asked for more asks for more. -/
theorem below_mono (h : S ⊆ T) : w.below kind q S ⊆ w.below kind q T := by
  intro z hz
  rcases mem_below hz with hall | ⟨hzS, hall⟩
  · exact hall T
  · exact hall T (h z hzS)

end Waypoint

end SharedPlan
