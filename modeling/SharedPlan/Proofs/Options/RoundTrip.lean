import SharedPlan.Options.Text
import SharedPlan.Proofs.Toml.Settings

/-!
# SharedPlan.Proofs.Options.RoundTrip

Planner options in a file.

The text of options is one of plain settings (`PlannerOptions.toText_eq`), so its reader
finds every setting under its key.  Whatever can be written is read back as it was, and
only then is its range looked at (`PlannerOptions.survives_iff_legal`).
-/

namespace SharedPlan

namespace PlannerOptions

variable {o : PlannerOptions} {path text : String}

/-! ## The text -/

/-- Options as settings, in the order in which they are written. -/
def settings (o : PlannerOptions) : List Toml.Setting :=
  [⟨"max_queries", .number o.maxQueries.toNat⟩, ⟨"verify_exits", .truth o.verifyExits⟩,
    ⟨"warn_unreachable", .truth o.warnUnreachable⟩, ⟨"max_walk_steps", .number o.maxWalkSteps.toNat⟩]

/-- Whether the format has the integers of options. -/
def Writable (o : PlannerOptions) : Prop :=
  o.maxQueries.toNat ≤ maxInteger ∧ o.maxWalkSteps.toNat ≤ maxInteger

/-- A line with a number is a written setting. -/
theorem toList_settingLine_number (name : String) (n : Nat) :
    (settingLine name (toString n)).toList = Toml.Setting.written ⟨name, .number n⟩ := by
  simp only [settingLine, String.toList_append, Json.toList_toString]
  rfl

/-- So is a line with a truth value. -/
theorem toList_settingLine_truth (name : String) (b : Bool) :
    (settingLine name (boolText b)).toList = Toml.Setting.written ⟨name, .truth b⟩ := by
  cases b <;> simp only [settingLine, String.toList_append, boolText] <;> rfl

/-- What can be written is written as one setting after another. -/
theorem toText_eq (h : o.Writable) :
    o.toText = .ok (String.ofList (o.settings.flatMap Toml.Setting.written)) := by
  rw [toText, if_pos (And.intro h.1 h.2)]
  refine congrArg Except.ok ?_
  rw [← String.toList_inj, String.toList_ofList]
  simp only [String.toList_append, toList_settingLine_number, toList_settingLine_truth, settings,
    List.flatMap_cons, List.flatMap_nil, List.append_nil, List.append_assoc]

/-- What cannot be written has a number above the greatest signed one. -/
theorem not_writable_iff :
    ¬ o.Writable ↔
      Nat.pow 2 63 - 1 < o.maxQueries.toNat ∨ Nat.pow 2 63 - 1 < o.maxWalkSteps.toNat := by
  rw [Writable, Decidable.not_and_iff_or_not, Nat.not_le, Nat.not_le]
  rfl

/-- Writing fails exactly then. -/
theorem toText_eq_error_iff : (∃ e, o.toText = .error e) ↔ ¬ o.Writable := by
  constructor
  · rintro ⟨e, he⟩ hwrite
    rw [toText_eq hwrite] at he
    cases he
  · intro hwrite
    refine ⟨.optionsUnwritable, ?_⟩
    rw [toText]
    exact if_neg hwrite

theorem writable_of_toText (h : o.toText = .ok text) : o.Writable := by
  by_contra hwrite
  obtain ⟨e, he⟩ := toText_eq_error_iff.2 hwrite
  rw [h] at he
  cases he

/-! ## Reading it -/

/-- Settings that can be written can be read. -/
theorem readable_settings (h : o.Writable) : ∀ t ∈ o.settings, t.Readable := by
  have hkeys : ∀ name ∈ (["max_queries", "verify_exits", "warn_unreachable", "max_walk_steps"] :
      List String), Toml.isBareKey name = true := by decide
  have hmax : maxInteger < Toml.maxMagnitude := by decide
  have hqueries : o.maxQueries.toNat < Toml.maxMagnitude := Nat.lt_of_le_of_lt h.1 hmax
  have hsteps : o.maxWalkSteps.toNat < Toml.maxMagnitude := Nat.lt_of_le_of_lt h.2 hmax
  simp only [settings, List.forall_mem_cons, List.not_mem_nil, false_imp_iff, implies_true,
    and_true]
  exact ⟨⟨hkeys _ (by simp), hqueries⟩, ⟨hkeys _ (by simp), trivial⟩,
    ⟨hkeys _ (by simp), trivial⟩, ⟨hkeys _ (by simp), hsteps⟩⟩

/-- No two settings have one name. -/
theorem nodup_settings (o : PlannerOptions) : (o.settings.map (·.name)).Nodup := by
  change (["max_queries", "verify_exits", "warn_unreachable", "max_walk_steps"] : List String).Nodup
  decide

/-! ### Settings in a table -/

/-- A number below the bound is read back, whatever the default. -/
theorem natSetting?_number {t : Toml.Table} {name : String} {n : UInt64}
    (h : t.get? name = some (.value (.integer n.toNat))) (d : UInt64) :
    natSetting? t name d = some n := by
  rw [natSetting?, h]
  change (if 0 ≤ (n.toNat : Int) then some (n.toNat : Int).toNat.toUInt64 else none) = _
  rw [if_pos (Int.natCast_nonneg _), Int.toNat_natCast]
  simp

/-- So is a truth value. -/
theorem boolSetting?_truth {t : Toml.Table} {name : String} {b : Bool}
    (h : t.get? name = some (.value (.boolean b))) (d : Bool) :
    boolSetting? t name d = some b := by
  rw [boolSetting?, h]

/-- Every option is found under its key. -/
theorem ofTable?_tableOf (o : PlannerOptions) : ofTable? (Toml.tableOf o.settings) = some o := by
  have hget (name : String) : (Toml.tableOf o.settings).get? name =
      if name = "max_walk_steps" then some (.value (.integer o.maxWalkSteps.toNat))
      else if name = "warn_unreachable" then some (.value (.boolean o.warnUnreachable))
      else if name = "verify_exits" then some (.value (.boolean o.verifyExits))
      else if name = "max_queries" then some (.value (.integer o.maxQueries.toNat))
      else none := by
    simp only [Toml.tableOf, settings, List.foldl_cons, List.foldl_nil, Toml.Setting.into,
      Toml.Table.get?_put]
    rfl
  rw [ofTable?, natSetting?_number (n := o.maxQueries), boolSetting?_truth (b := o.verifyExits),
    boolSetting?_truth (b := o.warnUnreachable), natSetting?_number (n := o.maxWalkSteps)]
  · rfl
  all_goals
    rw [hget]
    rfl

/-- What was written is read as it was, and then looked at. -/
theorem parse_of_toText (h : o.toText = .ok text) (path : String) :
    parse path text = o.validated path := by
  have hwrite := writable_of_toText h
  rw [toText_eq hwrite] at h
  rw [← Except.ok.inj h, parse, Toml.parse?_settings (readable_settings hwrite) (nodup_settings o),
    Option.bind_some, ofTable?_tableOf]

/-- **Options survive their text exactly when they are legal.**  They can be written if and only
if the format has their integers, and what was written is read back as it was, unless one of
the settings is out of range: then the reader says which, the number of queries first. -/
theorem survives_iff_legal (o : PlannerOptions) (path : String) :
    ((∃ e, o.toText = .error e) ↔
        Nat.pow 2 63 - 1 < o.maxQueries.toNat ∨ Nat.pow 2 63 - 1 < o.maxWalkSteps.toNat) ∧
      ∀ text, o.toText = .ok text →
        parse path text =
          if 1 ≤ o.maxQueries.toNat ∧ o.maxQueries.toNat ≤ 64 then
            if 1 ≤ o.maxWalkSteps.toNat then .ok o else .error (.maxWalkStepsZero path)
          else .error (.maxQueriesOutOfRange path o.maxQueries.toNat) := by
  constructor
  · rw [toText_eq_error_iff, not_writable_iff]
  · intro text htext
    have hzero (n : UInt64) : n = 0 ↔ n.toNat = 0 := UInt64.toNat_inj.symm
    have hqueries : ¬ (o.maxQueries = 0 ∨ QuerySet.capacity < o.maxQueries.toNat) ↔
        1 ≤ o.maxQueries.toNat ∧ o.maxQueries.toNat ≤ 64 := by
      rw [hzero, QuerySet.capacity]
      omega
    have hsteps : ¬ o.maxWalkSteps = 0 ↔ 1 ≤ o.maxWalkSteps.toNat := by
      rw [hzero]
      omega
    rw [parse_of_toText htext, validated]
    simp only [← hqueries, ← hsteps, ite_not]

/-- Options that fit into a signed number: their text, and what is read from it. -/
theorem survives_iff_legal_sixteen :
    toText ⟨16, true, false, 1⟩ = .ok ("max_queries = 16\nverify_exits = true\n" ++
        "warn_unreachable = false\nmax_walk_steps = 1\n") ∧
      parse "" ("max_queries = 16\nverify_exits = true\n" ++
        "warn_unreachable = false\nmax_walk_steps = 1\n") = .ok ⟨16, true, false, 1⟩ := by
  have htext : toText ⟨16, true, false, 1⟩ = .ok ("max_queries = 16\nverify_exits = true\n" ++
      "warn_unreachable = false\nmax_walk_steps = 1\n") := by decide +kernel
  exact ⟨htext, (survives_iff_legal ⟨16, true, false, 1⟩ "").2 _ htext⟩

end PlannerOptions

end SharedPlan
