import Mathlib.Data.List.Nodup
import SharedPlan.Json.Fields
import SharedPlan.Proofs.Json.Number
import SharedPlan.Proofs.Json.Text

/-!
# SharedPlan.Proofs.Json.Fields

Values that were written are read as what they were written from.

For each way of writing there is the lemma that its reader takes it back: texts, lists,
the fields of a record (`fields?_record`), and the form of a tagged record together with the
record behind the tag (`tagged?_record`).  What is kept before it is read can be kept
(`keepable_record`), one level for each list or record.
-/

namespace SharedPlan

namespace Json

variable {α : Type}

/-! ## Plain values -/

/-- A written text is read back. -/
@[simp] theorem text?_ofText (s : String) : text? (ofText s) = some s := by
  rw [ofText, text?, decode_encode, Option.map_some, String.ofList_toList]

@[simp] theorem name?_ofText (ofName? : String → Option α) (isUnit : Json → Bool) (s : String) :
    name? ofName? isUnit (ofText s) = ofName? s := by
  rw [ofText, name?, decode_encode, Option.bind_some, String.ofList_toList]

/-- A missing text is written as a null and read back as missing. -/
theorem nullable_text? (s : Option String) :
    nullable text? ((s.map ofText).getD .null) = some s := by
  cases s with
  | none => rfl
  | some s =>
      have hsome : nullable text? (ofText s) = (text? (ofText s)).map some := rfl
      rw [Option.map_some, Option.getD_some, hsome, text?_ofText, Option.map_some]

/-- A list of steps over a list gives the list back where each step does. -/
theorem mapM_map_eq_some {β : Type} {f : β → Option α} {g : α → β} {l : List α}
    (h : ∀ x ∈ l, f (g x) = some x) : (l.map g).mapM f = some l := by
  induction l with
  | nil => rfl
  | cons x rest ih =>
      obtain ⟨hx, hrest⟩ := List.forall_mem_cons.1 h
      rw [List.map_cons, List.mapM_cons, hx, ih hrest]
      rfl

/-- **A list is read back** where its items are. -/
theorem list?_ofList {f : Json → Option α} {g : α → Json} {l : List α}
    (h : ∀ x ∈ l, f (g x) = some x) : list? f (ofList g l) = some l :=
  mapM_map_eq_some h

@[simp] theorem texts?_ofList (l : List String) : texts? (ofList ofText l) = some l :=
  list?_ofList fun s _ => text?_ofText s

/-! ## Records -/

/-- The members of a record are read back in their order. -/
@[simp] theorem members?_record (members : List (String × Json)) :
    members? (record members) = some members := by
  refine mapM_map_eq_some fun m _ => ?_
  rw [decode_encode, Option.map_some, String.ofList_toList]

/-- Among members with different names, what is given for a field is what stands under its
name. -/
theorem field?_eq {members : List (String × Json)} (hm : (members.map (·.1)).Nodup)
    (name : String) : field? members name = some (members.lookup name) := by
  induction members with
  | nil => rfl
  | cons m rest ih =>
      obtain ⟨hnot, hrest⟩ := List.nodup_cons.1 hm
      obtain ⟨key, j⟩ := m
      by_cases hkey : key = name
      · subst hkey
        have hnone : rest.filter (·.1 = key) = [] := by
          refine List.filter_eq_nil_iff.2 fun m hmem heq => hnot ?_
          exact List.mem_map.2 ⟨m, hmem, of_decide_eq_true heq⟩
        rw [field?, List.filter_cons_of_pos (by simp), hnone, List.lookup_cons_self]
      · have hlookup : List.lookup name ((key, j) :: rest) = rest.lookup name := by
          rw [List.lookup_cons, beq_false_of_ne (Ne.symm hkey)]
        rw [field?, List.filter_cons_of_neg (by simpa using hkey), hlookup, ← ih hrest, field?]

/-- **The fields of a record are read back**, in the order that is asked for. -/
theorem fields?_record {members : List (String × Json)} (hm : (members.map (·.1)).Nodup)
    (names : List String) :
    fields? names (record members) = some (names.map fun name => members.lookup name) := by
  have hfields : fields? names (record members) =
      (members? (record members)).bind fun ms => names.mapM (field? ms) := rfl
  have hfield : field? members = fun name => some (members.lookup name) :=
    funext (field?_eq hm)
  rw [hfields, members?_record, Option.bind_some, hfield]
  induction names with
  | nil => rfl
  | cons name rest ih =>
      rw [List.mapM_cons, ih (by rfl)]
      rfl

/-- **A tagged record is read as its form and the record behind the tag.** -/
theorem tagged?_record {tag : String} (form : String) {members : List (String × Json)}
    (hm : (tag :: members.map (·.1)).Nodup) :
    tagged? tag (record ((tag, ofText form) :: members)) = some (form, record members) := by
  obtain ⟨hnot, -⟩ := List.nodup_cons.1 hm
  have hnames : (((tag, ofText form) :: members).map (·.1)).Nodup := hm
  have hmembers := members?_record ((tag, ofText form) :: members)
  have hfield : field? ((tag, ofText form) :: members) tag = some (some (ofText form)) := by
    rw [field?_eq hnames, List.lookup_cons_self]
  have hrest : ((((tag, ofText form) :: members).map fun m => (encode m.1.toList, m.2)).filter
      fun m => decode m.1 ≠ some tag.toList) = members.map fun m => (encode m.1.toList, m.2) := by
    rw [List.map_cons, List.filter_cons_of_neg (by simp)]
    refine List.filter_eq_self.2 fun m' hmem' => ?_
    obtain ⟨m, hmem, rfl⟩ := List.mem_map.1 hmem'
    have hne : m.1 ≠ tag := fun h => hnot (h ▸ List.mem_map_of_mem hmem)
    simpa using fun h => hne (String.toList_injective h)
  have hobject (ms : List (List Char × Json)) : tagged? tag (object ms) =
      (members? (object ms)).bind fun named =>
        (field? named tag).bind fun given => given.bind fun j => (text? j).bind fun form =>
          some (form, object (ms.filter fun m => decode m.1 ≠ some tag.toList)) := by
    rw [tagged?]
    rfl
  have htagged := hobject (((tag, ofText form) :: members).map fun m => (encode m.1.toList, m.2))
  rw [hrest] at htagged
  rw [record, htagged, ← record, hmembers]
  simp only [Option.bind_some, hfield, text?_ofText]
  rfl

/-! ## Keeping -/

@[simp] theorem keepable_ofText (levels : Nat) (s : String) :
    keepable levels (ofText s) = true := by
  rw [ofText, keepable, decode_encode, Option.isSome_some]

theorem keepable_ofNat (levels : Nat) {n : Nat} (hn : n < UInt64.size) :
    keepable levels (ofNat n) = true := by
  rw [ofNat, keepable, inRange_toDigits hn]

/-- An array nests one level deeper than its items. -/
theorem keepable_array {levels : Nat} {items : List Json}
    (h : ∀ j ∈ items, keepable levels j = true) : keepable (levels + 1) (array items) = true := by
  have hitems : keepableItems levels items = true := by
    induction items with
    | nil => rfl
    | cons j rest ih =>
        obtain ⟨hj, hrest⟩ := List.forall_mem_cons.1 h
        rw [keepableItems, hj, ih hrest, Bool.and_self]
  simpa [keepable] using hitems

/-- A record nests one level deeper than its members. -/
theorem keepable_record {levels : Nat} {members : List (String × Json)}
    (h : ∀ m ∈ members, keepable levels m.2 = true) :
    keepable (levels + 1) (record members) = true := by
  have hmembers : keepableMembers levels (members.map fun m => (encode m.1.toList, m.2)) =
      true := by
    induction members with
    | nil => rfl
    | cons m rest ih =>
        obtain ⟨hm, hrest⟩ := List.forall_mem_cons.1 h
        rw [List.map_cons, keepableMembers, decode_encode, hm, ih hrest]
        rfl
  simpa [keepable, record] using hmembers

end Json

end SharedPlan
