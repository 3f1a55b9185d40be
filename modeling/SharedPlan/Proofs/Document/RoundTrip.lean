import SharedPlan.Document.Reader
import SharedPlan.Document.Writer
import SharedPlan.Proofs.Graph.Order
import SharedPlan.Proofs.Json.Fields
import SharedPlan.Proofs.Json.Parsed

/-!
# SharedPlan.Proofs.Document.RoundTrip

Plan documents survive their text.

Waypoints and registrations are tagged records, each form with fields of its own.  What a
form is written as is kept whole, its tag is taken off (`WaypointSpec.ofJson?_tagged`,
`Registration.ofJson?_tagged`), and its fields are read back one by one.  With edges, aliases
and the lists of names this makes reading a document the inverse of writing it
(`PlanDocument.parse_toText`).
-/

namespace SharedPlan

open Json (Written ofText record text? texts? fields? required withDefault keepable)

/-! ## Lists of names -/

theorem written_namesJson (names : List String) : Written (namesJson names) :=
  .ofList .text names

@[simp] theorem texts?_namesJson (names : List String) : texts? (namesJson names) = some names :=
  Json.texts?_ofList names

@[simp] theorem keepable_namesJson (levels : Nat) (names : List String) :
    keepable (levels + 1) (namesJson names) = true := by
  refine Json.keepable_array fun j hj => ?_
  obtain ⟨s, -, rfl⟩ := List.mem_map.1 hj
  exact Json.keepable_ofText levels s

/-! ## Waypoints -/

namespace WaypointSpec

theorem written_toJson (w : WaypointSpec) : Written w.toJson := by
  cases w <;>
    refine .record ?_ <;>
    simp [Written.text, written_namesJson]

/-- The tag is taken off a waypoint that can be kept. -/
theorem ofJson?_tagged (kind : WaypointKind) (name : String) {fields : List (String × Json)}
    (hnames : ("kind" :: "name" :: fields.map (·.1)).Nodup)
    (hkeep : ∀ m ∈ fields, keepable 124 m.2 = true) :
    ofJson? (toJson.tagged kind name fields) =
      ofFields? kind (record (("name", ofText name) :: fields)) := by
  have hkeepable : keepable (124 + 1) (toJson.tagged kind name fields) = true :=
    Json.keepable_record (by simpa using hkeep)
  have hlevels : Json.maxLevels - levelsAround = 124 + 1 := rfl
  rw [ofJson?, hlevels, hkeepable, toJson.tagged, Json.tagged?_record _ hnames]
  simp [WaypointKind.ofName?_name]

/-- **A waypoint of a document is read back.** -/
@[simp] theorem ofJson?_toJson (w : WaypointSpec) : ofJson? w.toJson = some w := by
  cases w with
  | scanner | textLoader | ingest | join | cluster =>
      rw [toJson, ofJson?_tagged _ _ (by simp) (by simp), ofFields?, Json.fields?_record (by simp)]
      simp [required, withDefault, List.lookup_cons]
  | selection | aggregate | transform | iterative | print | cache | compact =>
      rw [toJson, ofJson?_tagged _ _ (by simp) (by simp), ofFields?, ofFields?.named,
        Json.fields?_record (by simp)]
      simp [required, List.lookup_cons]

end WaypointSpec

/-! ## Registrations -/

namespace Registration

theorem written_toJson (r : Registration) : Written r.toJson := by
  have hheader (header : Option String) : Written ((header.map ofText).getD .null) := by
    cases header with
    | none => exact .null
    | some s => exact .text s
  cases r <;>
    refine .record ?_ <;>
    simp [Written.text, Written.nat, Written.bool, written_namesJson, hheader]

/-- The tag is taken off a registration that can be kept. -/
theorem ofJson?_tagged (form : String) {fields : List (String × Json)}
    (hnames : ("op" :: fields.map (·.1)).Nodup) (hkeep : ∀ m ∈ fields, keepable 124 m.2 = true) :
    ofJson? (record (("op", ofText form) :: fields)) = ofFields? form (record fields) := by
  have hkeepable : keepable (124 + 1) (record (("op", ofText form) :: fields)) = true :=
    Json.keepable_record (by simpa using hkeep)
  have hlevels : Json.maxLevels - levelsAround = 124 + 1 := rfl
  rw [ofJson?, hlevels, hkeepable, Json.tagged?_record _ hnames]
  rfl

theorem word?_ofNat (n : UInt64) : ofFields?.word? (.ofNat n.toNat) = some n := by
  rw [ofFields?.word?, Json.natBelow?_ofNat n.toNat_lt_size]
  simp

theorem keepable_header (levels : Nat) (header : Option String) :
    keepable levels ((header.map ofText).getD .null) = true := by
  cases header with
  | none => rfl
  | some s => exact Json.keepable_ofText levels s

/-- **A registration of a document is read back.** -/
@[simp] theorem ofJson?_toJson (r : Registration) : ofJson? r.toJson = some r := by
  cases r with
  | scanner | textLoader | ingest =>
      rw [toJson, toJson.shared, ofJson?_tagged _ (by simp) (by simp)]
      simp only [ofFields?, ofFields?.shared]
      rw [Json.fields?_record (by simp)]
      simp [required, List.lookup_cons]
  | bypass | cache | compact | cluster =>
      rw [toJson, toJson.single, ofJson?_tagged _ (by simp) (by simp)]
      simp only [ofFields?, ofFields?.single]
      rw [Json.fields?_record (by simp)]
      simp [required, List.lookup_cons]
  | scanRange w q range =>
      have hkeep (n : UInt64) : keepable 124 (.ofNat n.toNat) = true :=
        Json.keepable_ofNat 124 n.toNat_lt_size
      rw [toJson, toJson.single, ofJson?_tagged _ (by simp) (by simp [hkeep])]
      simp only [ofFields?]
      rw [Json.fields?_record (by simp)]
      simp [required, List.lookup_cons, word?_ofNat]
  | join w q columns keys kind =>
      rw [toJson, toJson.single, ofJson?_tagged _ (by simp) (by simp)]
      simp only [ofFields?]
      rw [Json.fields?_record (by simp)]
      simp [required, withDefault, List.lookup_cons, JoinKind.ofName?_name]
  | aggregate w q outputs inputs states asState =>
      have hbool : keepable 124 (.bool asState) = true := rfl
      rw [toJson, toJson.single, ofJson?_tagged _ (by simp) (by simp [hbool])]
      simp only [ofFields?]
      rw [Json.fields?_record (by simp)]
      simp [required, withDefault, List.lookup_cons, Json.bool?]
  | print w q columns header =>
      rw [toJson, toJson.single, ofJson?_tagged _ (by simp) (by simp [keepable_header])]
      simp only [ofFields?]
      rw [Json.fields?_record (by simp)]
      simp [required, withDefault, List.lookup_cons, Json.nullable_text?]
  | writer | filter | synthesized | transform | iterative =>
      rw [toJson, toJson.single, ofJson?_tagged _ (by simp) (by simp)]
      simp only [ofFields?]
      rw [Json.fields?_record (by simp)]
      simp [required, withDefault, List.lookup_cons]

end Registration

/-! ## Edges -/

namespace EdgeSpec

theorem written_toJson (e : EdgeSpec) : Written e.toJson := by
  refine .record ?_
  simp [Written.text]

/-- **An edge of a document is read back.** -/
@[simp] theorem ofJson?_toJson (e : EdgeSpec) : ofJson? e.toJson = some e := by
  rw [toJson, ofJson?, Json.fields?_record (by simp)]
  simp [required, withDefault, List.lookup_cons, EdgeKind.ofName?_name]

end EdgeSpec

/-! ## Aliases -/

namespace OrdMap

variable {κ ν : Type} [Ord κ]

theorem eq_empty_of_isEmpty {m : OrdMap κ ν} (h : m.isEmpty = true) : m = ∅ := by
  obtain ⟨entries, _⟩ := m
  obtain rfl : entries = [] := List.isEmpty_iff.1 h
  rfl

variable [Std.TransOrd κ] [Std.LawfulEqOrd κ] [DecidableEq κ]

theorem mem_of_get?_foldl {l : List (κ × ν)} {m : OrdMap κ ν} {k : κ} {v : ν}
    (h : (l.foldl (fun m e => m.insert e.1 e.2) m).get? k = some v) :
    (k, v) ∈ l ∨ m.get? k = some v := by
  induction l generalizing m with
  | nil => exact .inr h
  | cons e rest ih =>
      rcases ih h with hrest | hinsert
      · exact .inl (List.mem_cons_of_mem e hrest)
      · rw [get?_insert] at hinsert
        split at hinsert
        · rename_i hk
          obtain rfl := Option.some.inj hinsert
          exact .inl (hk ▸ List.mem_cons_self)
        · exact .inr hinsert

/-- **A map is the map of its own entries.** -/
theorem ofList_entries (m : OrdMap κ ν) : ofList m.entries = m := by
  ext k : 1
  refine Option.ext fun v => ⟨fun h => ?_, fun h => ?_⟩
  · rcases mem_of_get?_foldl h with hmem | hempty
    · exact get?_eq_some_iff.2 hmem
    · cases hempty
  · exact get?_ofList m.nodup_keys (get?_eq_some_iff.1 h)

end OrdMap

namespace PlanDocument

theorem written_aliasesJson (aliases : OrdMap String String) : Written (aliasesJson aliases) := by
  refine .record fun m hm => ?_
  obtain ⟨e, -, rfl⟩ := List.mem_map.1 hm
  exact .text e.2

/-- The aliases of a document are read back. -/
theorem aliases?_aliasesJson (aliases : OrdMap String String) :
    aliases? (aliasesJson aliases) = some aliases := by
  have hentries : (aliases.entries.map fun e => (e.1, ofText e.2)).mapM
      (fun m => (text? m.2).map (m.1, ·)) = some aliases.entries :=
    Json.mapM_map_eq_some fun e _ => by rw [Json.text?_ofText, Option.map_some]
  rw [aliases?, aliasesJson, Json.members?_record]
  simp only [bind, Option.bind, hentries, OrdMap.ofList_entries]
  rfl

/-! ## Documents -/

theorem written_toJson (d : PlanDocument) : Written d.toJson := by
  have hwaypoints := Written.ofList WaypointSpec.written_toJson d.waypoints
  have hedges := Written.ofList EdgeSpec.written_toJson d.edges
  have hregistrations := Written.ofList Registration.written_toJson d.registrations
  refine .record ?_
  cases d.aliases.isEmpty <;>
    simp [written_namesJson, written_aliasesJson, hwaypoints, hedges, hregistrations]

/-- Every field of a document is read back, and aliases that were left out are none. -/
theorem ofJson?_toJson (d : PlanDocument) : ofJson? d.toJson = some d := by
  have hwaypoints : Json.list? WaypointSpec.ofJson? (.ofList (·.toJson) d.waypoints) =
      some d.waypoints := Json.list?_ofList fun w _ => w.ofJson?_toJson
  have hedges : Json.list? EdgeSpec.ofJson? (.ofList (·.toJson) d.edges) = some d.edges :=
    Json.list?_ofList fun e _ => e.ofJson?_toJson
  have hregistrations : Json.list? Registration.ofJson? (.ofList (·.toJson) d.registrations) =
      some d.registrations := Json.list?_ofList fun r _ => r.ofJson?_toJson
  cases haliases : d.aliases.isEmpty with
  | true =>
      have hnone : d.aliases = ∅ := OrdMap.eq_empty_of_isEmpty haliases
      simp only [toJson, haliases, if_true]
      rw [ofJson?, Json.fields?_record (by simp)]
      simp [withDefault, List.lookup_cons, hwaypoints, hedges, hregistrations, ← hnone]
  | false =>
      simp only [toJson, haliases]
      rw [ofJson?, Json.fields?_record (by simp)]
      simp [withDefault, List.lookup_cons, hwaypoints, hedges, hregistrations, aliases?_aliasesJson]

/-- **Plan documents survive their text form.**  Every document, written with one item or member
to a line and parsed again, is the same document. -/
theorem parse_toText (d : PlanDocument) : parse d.toText = .ok d := by
  rw [parse, toText, Json.parse?_pretty d.written_toJson, Option.bind_some, ofJson?_toJson]

end PlanDocument

end SharedPlan
