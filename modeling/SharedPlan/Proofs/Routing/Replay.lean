import SharedPlan.Proofs.Analysis.Passes
import SharedPlan.Proofs.Routing.Compiled
import SharedPlan.Routing.Record

/-!
# SharedPlan.Proofs.Routing.Replay

What is written of a routing table, replayed.

A record may be written in many ways: exits of a link together or apart, twice, in any
order, or none.  What counts is which exits it `Ships` over which link.  Replay succeeds
exactly when the waypoints are listed once and the ends of every link that ships something
are among them (`RoutingRecord.Replayable`), and makes the one table that holds what is
shipped.  What is written of a table that was grown from the empty one ships what the
table carries, so replaying it gives the table back (`RoutingTable.ofRecord_toRecord`).
-/

namespace SharedPlan

namespace RoutingRecord

/-- Some record lets an exit travel over a link. -/
def Ships (r : RoutingRecord) (m n : WaypointId) (e : QueryExit) : Prop :=
  ∃ l ∈ r.links, l.sender = m ∧ l.receiver = n ∧ e ∈ l.exits

/-- Every waypoint is listed once, and so are the ends of every record with an exit. -/
def Replayable (r : RoutingRecord) : Prop :=
  r.nodes.Nodup ∧
    ∀ l ∈ r.links, l.exits ≠ [] → l.sender ∈ r.nodes ∧ l.receiver ∈ r.nodes

/-- The exits of all records from one waypoint to another. -/
def union (r : RoutingRecord) (m n : WaypointId) : ExitSet :=
  .ofList ((r.links.filter fun l => l.sender = m ∧ l.receiver = n).flatMap (·.exits))

theorem mem_union {r : RoutingRecord} {m n : WaypointId} {e : QueryExit} :
    e ∈ r.union m n ↔ r.Ships m n e := by
  simp only [union, OrdSet.mem_ofList, List.mem_flatMap, List.mem_filter, decide_eq_true_eq, Ships]
  constructor
  · rintro ⟨l, ⟨hl, hm, hn⟩, he⟩
    exact ⟨l, hl, hm, hn, he⟩
  · rintro ⟨l, hl, hm, hn, he⟩
    exact ⟨l, ⟨hl, hm, hn⟩, he⟩

end RoutingRecord

namespace RoutingTable

variable {t s : RoutingTable} {ids : List WaypointId}
  {C : WaypointId → WaypointId → QueryExit → Prop}

/-! ## What growing needs -/

theorem not_mem_of_addNode (h : t.Holds ids C) {id : WaypointId} (hn : t.addNode id = .ok s) :
    id ∉ ids := by
  intro hid
  rw [addNode, if_pos ((h.contains id).2 hid)] at hn
  cases hn

theorem mem_of_addLink (h : t.Holds ids C) {m n : WaypointId} {e : QueryExit}
    (hl : t.addLink m n e = .ok s) : m ∈ ids ∧ n ∈ ids := by
  rw [← h.contains, ← h.contains]
  unfold addLink at hl
  split at hl
  · cases hl
  split at hl
  · cases hl
  rename_i hn hm
  exact ⟨by simpa using hm, by simpa using hn⟩

/-- Waypoints can be listed one after another only if they are all new and different. -/
theorem nodup_of_addNodes {l : List WaypointId} (h : t.Holds ids C)
    (hl : l.foldlM addNode t = .ok s) : l.Nodup ∧ ∀ id ∈ l, id ∉ ids := by
  induction l generalizing t ids with
  | nil => exact ⟨List.nodup_nil, by simp⟩
  | cons id rest ih =>
      rw [List.foldlM_cons] at hl
      obtain ⟨t₁, ht₁, hrest⟩ := bind_eq_ok_iff.1 hl
      have hid := not_mem_of_addNode h ht₁
      obtain ⟨t₁', ht₁', h₁⟩ := exists_addNode h hid
      obtain rfl := Except.ok.inj (ht₁.symm.trans ht₁')
      obtain ⟨hnodup, hnew⟩ := ih h₁ hrest
      refine ⟨List.nodup_cons.2 ⟨fun hmem => hnew id hmem ?_, hnodup⟩, fun j hj hmem => ?_⟩
      · exact List.mem_append_right _ (List.mem_singleton_self id)
      · rcases List.mem_cons.1 hj with rfl | hj
        · exact hid hmem
        · exact hnew j hj (List.mem_append_left _ hmem)

/-! ## Replaying records -/

/-- A record is replayed where the ends of what it ships are listed, and adds that. -/
theorem exists_addRecord (h : t.Holds ids C) {l : LinkRecord}
    (hl : l.exits ≠ [] → l.sender ∈ ids ∧ l.receiver ∈ ids) :
    ∃ t', t.addRecord l = .ok t' ∧ t'.Holds ids fun m n e =>
      C m n e ∨ (l.sender = m ∧ l.receiver = n ∧ e ∈ l.exits) := by
  by_cases hnil : l.exits = []
  · refine ⟨t, ?_, h.congr fun m n e => by simp [hnil]⟩
    rw [addRecord, hnil]
    rfl
  · obtain ⟨hs, hr⟩ := hl hnil
    obtain ⟨t', ht', h'⟩ := exists_addLinks hs hr l.exits h
    exact ⟨t', ht', h'.congr fun m n e => by grind⟩

theorem mem_of_addRecord (h : t.Holds ids C) {l : LinkRecord} (hl : t.addRecord l = .ok s)
    (hne : l.exits ≠ []) : l.sender ∈ ids ∧ l.receiver ∈ ids := by
  obtain ⟨e, rest, heq⟩ := List.exists_cons_of_ne_nil hne
  rw [addRecord, heq, List.foldlM_cons] at hl
  obtain ⟨t₁, ht₁, -⟩ := bind_eq_ok_iff.1 hl
  exact mem_of_addLink h ht₁

/-- Records are replayed one after another, and what they ship is added together. -/
theorem exists_addRecords (h : t.Holds ids C) {l : List LinkRecord}
    (hl : ∀ r ∈ l, r.exits ≠ [] → r.sender ∈ ids ∧ r.receiver ∈ ids) :
    ∃ t', l.foldlM addRecord t = .ok t' ∧ t'.Holds ids fun m n e =>
      C m n e ∨ ∃ r ∈ l, r.sender = m ∧ r.receiver = n ∧ e ∈ r.exits := by
  induction l generalizing t C with
  | nil => exact ⟨t, rfl, h.congr fun m n e => by simp⟩
  | cons r rest ih =>
      obtain ⟨hr, hrest⟩ := List.forall_mem_cons.1 hl
      obtain ⟨t₁, ht₁, h₁⟩ := exists_addRecord h hr
      obtain ⟨t₂, ht₂, h₂⟩ := ih h₁ hrest
      refine ⟨t₂, ?_, h₂.congr fun m n e => by simp [or_assoc]⟩
      rw [List.foldlM_cons, ht₁]
      exact ht₂

theorem mem_of_addRecords (h : t.Holds ids C) {l : List LinkRecord}
    (hl : l.foldlM addRecord t = .ok s) :
    ∀ r ∈ l, r.exits ≠ [] → r.sender ∈ ids ∧ r.receiver ∈ ids := by
  induction l generalizing t C with
  | nil => simp
  | cons r rest ih =>
      rw [List.foldlM_cons] at hl
      obtain ⟨t₁, ht₁, hrest⟩ := bind_eq_ok_iff.1 hl
      have hr := mem_of_addRecord h ht₁
      obtain ⟨t₁', ht₁', h₁⟩ := exists_addRecord h hr
      obtain rfl := Except.ok.inj (ht₁.symm.trans ht₁')
      exact List.forall_mem_cons.2 ⟨hr, ih h₁ hrest⟩

/-- **What can be replayed is replayed**, and the table holds what is shipped. -/
theorem exists_ofRecord {r : RoutingRecord} (hr : r.Replayable) :
    ∃ t, ofRecord r = .ok t ∧ t.Holds r.nodes r.Ships := by
  obtain ⟨hnodup, hends⟩ := hr
  obtain ⟨t₁, ht₁, h₁⟩ := PlanGraph.exists_addNodes r.nodes hnodup holds_empty (by simp)
  rw [List.nil_append] at h₁
  obtain ⟨t₂, ht₂, h₂⟩ := exists_addRecords h₁ hends
  refine ⟨t₂, bind_eq_ok_iff.2 ⟨t₁, ht₁, ht₂⟩, h₂.congr fun m n e => ?_⟩
  rw [false_or, RoutingRecord.Ships]

/-- **Nothing else is replayed.** -/
theorem replayable_of_ofRecord {r : RoutingRecord} (hr : ofRecord r = .ok t) : r.Replayable := by
  obtain ⟨t₁, ht₁, hlinks⟩ := bind_eq_ok_iff.1 hr
  obtain ⟨hnodup, -⟩ := nodup_of_addNodes holds_empty ht₁
  obtain ⟨t₁', ht₁', h₁⟩ := PlanGraph.exists_addNodes r.nodes hnodup holds_empty (by simp)
  obtain rfl := Except.ok.inj (ht₁.symm.trans ht₁')
  rw [List.nil_append] at h₁
  exact ⟨hnodup, mem_of_addRecords h₁ hlinks⟩

/-- A link is stored with all that it carries, and one that carries nothing is not stored. -/
theorem Holds.link?_eq (h : t.Holds ids C) {m n : WaypointId} {exits : ExitSet}
    (hexits : ∀ e, e ∈ exits ↔ C m n e) :
    t.link? m n = if exits.isEmpty then none else some exits := by
  cases hl : t.link? m n with
  | none =>
      have hempty : exits.isEmpty = true := by
        refine OrdSet.isEmpty_iff.2 fun e he => ?_
        obtain ⟨E, hE, -⟩ := (h.carries m n e).2 ((hexits e).1 he)
        rw [hl] at hE
        cases hE
      rw [if_pos hempty]
  | some E =>
      have hsame : E = exits := by
        ext e
        rw [hexits, ← h.carries, Carries, hl]
        simp
      obtain ⟨e, he⟩ := h.inhabited m n E hl
      have hfull : exits.isEmpty = false := by
        refine Bool.eq_false_iff.2 fun hempty => ?_
        exact OrdSet.isEmpty_iff.1 hempty e (hsame ▸ he)
      rw [hfull, hsame]
      rfl

/-! ## Growing and writing -/

/-- A call that grows a table. -/
inductive Growth where
  | node (id : WaypointId)
  | link (sender receiver : WaypointId) (exit : QueryExit)

/-- The table after a call; one that fails changes nothing. -/
def grow (t : RoutingTable) (c : Growth) : RoutingTable :=
  let r := match c with
    | .node id => t.addNode id
    | .link sender receiver exit => t.addLink sender receiver exit
  match r with
  | .ok t' => t'
  | .error _ => t

/-- The table after a sequence of calls. -/
def grown (calls : List Growth) : RoutingTable := calls.foldl grow empty

/-- A call keeps the two ends of links alike, and no link empty. -/
theorem exists_holds_grow (h : t.Holds ids C) (c : Growth) :
    ∃ ids' C', (t.grow c).Holds ids' C' := by
  cases c with
  | node id =>
      cases hn : t.addNode id with
      | error e =>
          refine ⟨ids, C, ?_⟩
          simpa only [grow, hn] using h
      | ok t₁ =>
          obtain ⟨t₁', ht₁', h₁⟩ := exists_addNode h (not_mem_of_addNode h hn)
          obtain rfl := Except.ok.inj (hn.symm.trans ht₁')
          exact ⟨_, _, by simpa only [grow, hn] using h₁⟩
  | link sender receiver exit =>
      cases hl : t.addLink sender receiver exit with
      | error e =>
          refine ⟨ids, C, ?_⟩
          simpa only [grow, hl] using h
      | ok t₁ =>
          obtain ⟨hs, hr⟩ := mem_of_addLink h hl
          obtain ⟨t₁', ht₁', h₁⟩ := exists_addLink h hs hr exit
          obtain rfl := Except.ok.inj (hl.symm.trans ht₁')
          exact ⟨_, _, by simpa only [grow, hl] using h₁⟩

theorem exists_holds_grown (calls : List Growth) : ∃ ids C, (grown calls).Holds ids C := by
  have hfold (calls : List Growth) {t : RoutingTable} (ht : ∃ ids C, t.Holds ids C) :
      ∃ ids C, (calls.foldl grow t).Holds ids C := by
    induction calls generalizing t with
    | nil => exact ht
    | cons c rest ih =>
        obtain ⟨ids, C, h⟩ := ht
        exact ih (exists_holds_grow h c)
  exact hfold calls ⟨_, _, holds_empty⟩

theorem mem_links {m n : WaypointId} {exits : ExitSet} :
    (m, n, exits) ∈ t.links ↔ t.link? m n = some exits := by
  simp only [links, List.mem_flatMap, List.mem_map, Prod.mk.injEq, link?, Option.bind_eq_some_iff,
    OrdMap.get?_eq_some_iff]
  constructor
  · rintro ⟨⟨m', node⟩, hnode, ⟨n', exits'⟩, hexits, rfl, rfl, rfl⟩
    exact ⟨node, hnode, hexits⟩
  · rintro ⟨node, hnode, hexits⟩
    exact ⟨(m, node), hnode, (n, exits), hexits, rfl, rfl, rfl⟩

theorem mem_toRecord {l : LinkRecord} : l ∈ t.toRecord.links ↔
    ∃ exits, t.link? l.sender l.receiver = some exits ∧ l.exits = exits.toList := by
  rw [toRecord, List.mem_map]
  constructor
  · rintro ⟨⟨m, n, exits⟩, hmem, rfl⟩
    exact ⟨exits, mem_links.1 hmem, rfl⟩
  · rintro ⟨exits, hlink, hexits⟩
    refine ⟨(l.sender, l.receiver, exits), mem_links.2 hlink, ?_⟩
    cases l
    exact congrArg _ hexits.symm

theorem mem_nodes_toRecord {id : WaypointId} : id ∈ t.toRecord.nodes ↔ t.contains id = true := by
  rw [toRecord, OrdMap.mem_keys_iff]
  rfl

/-- What is written ships what the table carries. -/
theorem ships_toRecord {m n : WaypointId} {e : QueryExit} :
    t.toRecord.Ships m n e ↔ t.Carries m n e := by
  constructor
  · rintro ⟨l, hl, rfl, rfl, he⟩
    obtain ⟨exits, hlink, hexits⟩ := mem_toRecord.1 hl
    exact ⟨exits, hlink, OrdSet.mem_def.2 (hexits ▸ he)⟩
  · rintro ⟨exits, hlink, he⟩
    exact ⟨⟨m, n, exits.toList⟩, mem_toRecord.2 ⟨exits, hlink, rfl⟩, rfl, rfl, OrdSet.mem_def.1 he⟩

/-- What is written can be replayed: a link that is stored is stored at both of its ends. -/
theorem replayable_toRecord (h : t.Holds ids C) : t.toRecord.Replayable := by
  refine ⟨t.nodes.nodup_keys, fun l hl _ => ?_⟩
  obtain ⟨exits, hlink, -⟩ := mem_toRecord.1 hl
  have hinto : t.linkInto? l.sender l.receiver = some exits := (h.mirrored _ _).trans hlink
  rw [mem_nodes_toRecord, mem_nodes_toRecord]
  obtain ⟨_, hsender, -⟩ := Option.bind_eq_some_iff.1 hlink
  obtain ⟨_, hreceiver, -⟩ := Option.bind_eq_some_iff.1 hinto
  exact ⟨Option.isSome_iff_exists.2 ⟨_, hsender⟩, Option.isSome_iff_exists.2 ⟨_, hreceiver⟩⟩

/-- **Replaying what was written of a table gives the table back**, with both of its maps. -/
theorem ofRecord_toRecord (h : t.Holds ids C) : ofRecord t.toRecord = .ok t := by
  obtain ⟨t', ht', h'⟩ := exists_ofRecord (replayable_toRecord h)
  have hself : t.Holds t.toRecord.nodes t.toRecord.Ships :=
    ⟨fun _ => mem_nodes_toRecord.symm, fun _ _ _ => ships_toRecord.symm, h.inhabited, h.mirrored⟩
  rw [ht', h'.unique hself]

end RoutingTable

end SharedPlan
