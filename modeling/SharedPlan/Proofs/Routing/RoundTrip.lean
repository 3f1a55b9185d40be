import SharedPlan.Proofs.Json.Fields
import SharedPlan.Proofs.Json.Parsed
import SharedPlan.Proofs.Routing.Replay

/-!
# SharedPlan.Proofs.Routing.RoundTrip

Routing tables survive their text, and reading one is replaying it.

Every record is read back as it was written, so parsing the text of a table comes to
replaying its records (`RoutingTable.parse_pretty`).  What replay needs and makes is then what
parsing needs and makes (`RoutingTable.parse_replays`).
-/

namespace SharedPlan

open Json (Written record fields? required list?)

/-! ## Records are read back -/

namespace WaypointId

theorem written_toJson (w : WaypointId) : Written w.toJson := .nat _

@[simp] theorem ofJson?_toJson (w : WaypointId) : ofJson? w.toJson = some w := by
  rw [ofJson?, toJson, Json.natBelow?_ofNat w.val.toNat_lt_size]
  simp

end WaypointId

namespace QueryId

theorem written_toJson (q : QueryId) : Written q.toJson := .nat _

@[simp] theorem ofJson?_toJson (q : QueryId) : ofJson? q.toJson = some q := by
  rw [ofJson?, toJson, Json.natBelow?_ofNat q.val.toNat_lt_size]
  simp

end QueryId

namespace QueryExit

theorem written_toJson (e : QueryExit) : Written e.toJson := by
  refine .record ?_
  simp [QueryId.written_toJson, WaypointId.written_toJson]

theorem ofJson?_toJson (e : QueryExit) : ofJson? e.toJson = some e := by
  rw [ofJson?, toJson, Json.fields?_record (by simp)]
  simp [required, List.lookup_cons]

end QueryExit

namespace LinkRecord

theorem written_toJson (l : LinkRecord) : Written l.toJson := by
  refine .record ?_
  simp [WaypointId.written_toJson, Written.ofList QueryExit.written_toJson]

theorem ofJson?_toJson (l : LinkRecord) : ofJson? l.toJson = some l := by
  have hexits : list? QueryExit.ofJson? (.ofList (·.toJson) l.exits) = some l.exits :=
    Json.list?_ofList fun e _ => e.ofJson?_toJson
  rw [ofJson?, toJson, Json.fields?_record (by simp)]
  simp [required, List.lookup_cons, hexits]

end LinkRecord

namespace RoutingRecord

theorem written_toJson (r : RoutingRecord) : Written r.toJson := by
  refine .record ?_
  simp [Written.ofList WaypointId.written_toJson, Written.ofList LinkRecord.written_toJson]

theorem ofJson?_toJson (r : RoutingRecord) : ofJson? r.toJson = some r := by
  have hnodes : list? WaypointId.ofJson? (.ofList (·.toJson) r.nodes) = some r.nodes :=
    Json.list?_ofList fun w _ => w.ofJson?_toJson
  have hlinks : list? LinkRecord.ofJson? (.ofList (·.toJson) r.links) = some r.links :=
    Json.list?_ofList fun l _ => l.ofJson?_toJson
  rw [ofJson?, toJson, Json.fields?_record (by simp)]
  simp [required, List.lookup_cons, hnodes, hlinks]

/-- Records that list the same waypoints and ship the same can be replayed alike. -/
theorem Replayable.congr {r s : RoutingRecord} (hnodes : r.nodes.Perm s.nodes)
    (hships : ∀ m n e, r.Ships m n e ↔ s.Ships m n e) (h : r.Replayable) : s.Replayable := by
  obtain ⟨hnodup, hends⟩ := h
  refine ⟨hnodes.nodup_iff.1 hnodup, fun l hl hne => ?_⟩
  obtain ⟨e, rest, heq⟩ := List.exists_cons_of_ne_nil hne
  have he : e ∈ l.exits := heq ▸ List.mem_cons_self
  obtain ⟨l', hl', hsender, hreceiver, he'⟩ :=
    (hships l.sender l.receiver e).2 ⟨l, hl, rfl, rfl, he⟩
  obtain ⟨hs, hr⟩ := hends l' hl' (List.ne_nil_of_mem he')
  exact ⟨hnodes.mem_iff.1 (hsender ▸ hs), hnodes.mem_iff.1 (hreceiver ▸ hr)⟩

end RoutingRecord

/-! ## Parsing is replaying -/

namespace RoutingTable

variable {r s : RoutingRecord} {t : RoutingTable}

/-- Parsing the text of a table comes to replaying its records. -/
theorem parse_pretty (r : RoutingRecord) :
    parse r.toJson.pretty = (ofRecord r).mapError fun e => .unreplayableTable e.message := by
  have hread : (Json.parse? r.toJson.pretty).bind RoutingRecord.ofJson? = some r := by
    rw [Json.parse?_pretty r.written_toJson, Option.bind_some, r.ofJson?_toJson]
  simp only [parse, hread]
  cases ofRecord r <;> rfl

/-- A printed record is read as the table that replaying it gives. -/
theorem parse_pretty_eq_ok_iff : parse r.toJson.pretty = .ok t ↔ ofRecord r = .ok t := by
  rw [parse_pretty]
  cases ofRecord r <;> simp [Except.mapError]

/-- Reading succeeds exactly where replay can. -/
theorem exists_parse_pretty_iff : (∃ t, parse r.toJson.pretty = .ok t) ↔ r.Replayable := by
  simp only [parse_pretty_eq_ok_iff]
  constructor
  · rintro ⟨t, ht⟩
    exact replayable_of_ofRecord ht
  · intro hr
    obtain ⟨t, ht, -⟩ := exists_ofRecord hr
    exact ⟨t, ht⟩

/-- The table that is read holds what the records ship. -/
theorem holds_of_parse (h : parse r.toJson.pretty = .ok t) : t.Holds r.nodes r.Ships := by
  rw [parse_pretty_eq_ok_iff] at h
  obtain ⟨t', ht', hholds⟩ := exists_ofRecord (replayable_of_ofRecord h)
  obtain rfl := Except.ok.inj (h.symm.trans ht')
  exact hholds

/-- Splitting, merging, repeating or permuting records does not change the table that is
read. -/
theorem parse_pretty_congr (hnodes : r.nodes.Perm s.nodes)
    (hships : ∀ m n e, r.Ships m n e ↔ s.Ships m n e) (ht : parse r.toJson.pretty = .ok t) :
    parse s.toJson.pretty = .ok t := by
  have hr : r.Replayable := exists_parse_pretty_iff.1 ⟨t, ht⟩
  obtain ⟨t', ht'⟩ := exists_parse_pretty_iff.2 (hr.congr hnodes hships)
  have h := (holds_of_parse ht).congr hships
  have hholds : t.Holds s.nodes s.Ships :=
    ⟨fun id => (h.contains id).trans hnodes.mem_iff, h.carries, h.inhabited, h.mirrored⟩
  rw [ht', hholds.unique (holds_of_parse ht')]

/-- **Routing tables survive their text, and reading one is replaying it.**  A table that was
grown from the empty one, by any calls, is read back from its text with both of its maps.  The
text of any records is read exactly when no waypoint is listed twice and both ends of every
record with an exit are listed; the table has those waypoints, and each of its links lets
through the exits of all records for it, and is absent where these have none.  So records that
list the same waypoints and agree on these exits are read as the same table, or none of them is
read. -/
theorem parse_replays :
    (∀ calls, parse (grown calls).toText = .ok (grown calls)) ∧
    ∀ r : RoutingRecord,
      ((∃ t, parse r.toJson.pretty = .ok t) ↔
        r.nodes.Nodup ∧ ∀ l ∈ r.links, l.exits ≠ [] → l.sender ∈ r.nodes ∧ l.receiver ∈ r.nodes) ∧
      (∀ t, parse r.toJson.pretty = .ok t →
        (∀ id, t.contains id = true ↔ id ∈ r.nodes) ∧
        ∀ m n, t.link? m n = if (r.union m n).isEmpty then none else some (r.union m n)) ∧
      ∀ s : RoutingRecord, r.nodes.Perm s.nodes → (∀ m n, r.union m n = s.union m n) →
        ∀ t, parse r.toJson.pretty = .ok t ↔ parse s.toJson.pretty = .ok t := by
  refine ⟨fun calls => ?_, fun r => ?_⟩
  · obtain ⟨ids, C, h⟩ := exists_holds_grown calls
    exact parse_pretty_eq_ok_iff.2 (ofRecord_toRecord h)
  · refine ⟨exists_parse_pretty_iff, fun t ht => ?_, fun s hnodes hs t => ?_⟩
    · have h := holds_of_parse ht
      exact ⟨h.contains, fun m n => h.link?_eq fun e => RoutingRecord.mem_union⟩
    · have hships (m n : WaypointId) (e : QueryExit) : r.Ships m n e ↔ s.Ships m n e := by
        rw [← RoutingRecord.mem_union, ← RoutingRecord.mem_union, hs m n]
      exact ⟨parse_pretty_congr hnodes hships,
        parse_pretty_congr hnodes.symm fun m n e => (hships m n e).symm⟩

/-- Two records of one link, one of them repeated, and one without exits for a waypoint that is
not listed. -/
def splitRecord : RoutingRecord :=
  ⟨[⟨1⟩, ⟨2⟩], [⟨⟨1⟩, ⟨2⟩, [⟨⟨1⟩, ⟨2⟩⟩]⟩, ⟨⟨2⟩, ⟨9⟩, []⟩, ⟨⟨1⟩, ⟨2⟩, [⟨⟨0⟩, ⟨2⟩⟩]⟩,
    ⟨⟨1⟩, ⟨2⟩, [⟨⟨1⟩, ⟨2⟩⟩]⟩]⟩

/-- The record of that link with the exits of both. -/
def mergedRecord : RoutingRecord := ⟨[⟨2⟩, ⟨1⟩], [⟨⟨1⟩, ⟨2⟩, [⟨⟨0⟩, ⟨2⟩⟩, ⟨⟨1⟩, ⟨2⟩⟩]⟩]⟩

/-- The two are read as one table, in which the waypoint that is not listed has no link. -/
theorem parse_split_records :
    ∃ t, parse splitRecord.toJson.pretty = .ok t ∧ parse mergedRecord.toJson.pretty = .ok t ∧
      t.link? ⟨2⟩ ⟨9⟩ = none := by
  have hunion (m n : WaypointId) : splitRecord.union m n = mergedRecord.union m n := by
    ext e
    simp [RoutingRecord.mem_union, RoutingRecord.Ships, splitRecord, mergedRecord]
    tauto
  obtain ⟨hread, hmeans, halike⟩ := parse_replays.2 splitRecord
  obtain ⟨t, ht⟩ := hread.2 (by decide)
  refine ⟨t, ht, (halike mergedRecord (by decide) hunion t).1 ht, ?_⟩
  rw [(hmeans t ht).2, if_pos (by decide)]

end RoutingTable

end SharedPlan
