import SharedPlan.Ident

/-!
# SharedPlan.QuerySet

Sets of queries packed into one 64-bit word: bit `q` is set when query `q` is a
member.  The query ids are therefore 0 to 63, and the lowest free id
can be read off the word.
-/

namespace SharedPlan

/-- A set of queries with ids below 64. -/
structure QuerySet where
  /-- Bit `q` tells whether query `q` is a member. -/
  bits : UInt64
  deriving DecidableEq, Inhabited

namespace QuerySet

/-- The number of distinct query ids. -/
def capacity : Nat := 64

/-- Every query id of the universe, ascending. -/
def ids : List QueryId := (List.range capacity).map fun i => ⟨i.toUInt8⟩

/-- The word whose only bit is that of `q`. -/
def bit (q : QueryId) : UInt64 := 1 <<< q.val.toUInt64

/-- The set without members. -/
def empty : QuerySet := ⟨0⟩

instance : EmptyCollection QuerySet := ⟨empty⟩

/-- Whether `q` is a member. -/
def contains (s : QuerySet) (q : QueryId) : Bool := s.bits &&& bit q != 0

instance : Membership QueryId QuerySet := ⟨fun s q => s.contains q = true⟩

instance (q : QueryId) (s : QuerySet) : Decidable (q ∈ s) :=
  inferInstanceAs (Decidable (s.contains q = true))

/-- Add a member. -/
def insert (s : QuerySet) (q : QueryId) : QuerySet := ⟨s.bits ||| bit q⟩

/-- Take a member out. -/
def erase (s : QuerySet) (q : QueryId) : QuerySet := ⟨s.bits &&& ~~~bit q⟩

/-- The set with one member. -/
def singleton (q : QueryId) : QuerySet := empty.insert q

/-- The members of either set. -/
def union (s t : QuerySet) : QuerySet := ⟨s.bits ||| t.bits⟩

/-- The members of both sets. -/
def inter (s t : QuerySet) : QuerySet := ⟨s.bits &&& t.bits⟩

/-- The members of the first set that are not in the second. -/
def diff (s t : QuerySet) : QuerySet := ⟨s.bits &&& ~~~t.bits⟩

instance : Union QuerySet := ⟨union⟩

instance : Inter QuerySet := ⟨inter⟩

instance : SDiff QuerySet := ⟨diff⟩

/-- The members, ascending. -/
def toList (s : QuerySet) : List QueryId := ids.filter s.contains

/-- The set of the members of a list. -/
def ofList (l : List QueryId) : QuerySet := l.foldl insert empty

/-- The number of members. -/
def size (s : QuerySet) : Nat := s.toList.length

/-- Whether the set has no member. -/
def isEmpty (s : QuerySet) : Bool := s.bits == 0

/-- The lowest id that is not a member, if there is one. -/
def firstFree? (s : QuerySet) : Option QueryId := ids.find? fun q => !s.contains q

/-- The members as a debug listing. -/
def text (s : QuerySet) : String :=
  braced (s.toList.map fun q => "QueryId(" ++ toString q.val.toNat ++ ")")

/-! ## Membership

Every operation is told by the members of its result.  Insertion, erasure and the
listing speak of ids below 64 only, the places that the word has. -/

theorem mem_def {s : QuerySet} {q : QueryId} : q ∈ s ↔ s.contains q = true := Iff.rfl

/-- The bit of a query stands at its id. -/
theorem toBitVec_bit (q : QueryId) :
    (bit q).toBitVec = BitVec.twoPow 64 (q.val.toNat % 64) := by
  apply BitVec.eq_of_toNat_eq
  simp [bit, BitVec.twoPow, UInt64.toBitVec_shiftLeft]

/-- A query is a member when its bit is set. -/
theorem mem_iff_getLsbD {s : QuerySet} {q : QueryId} :
    q ∈ s ↔ s.bits.toBitVec.getLsbD (q.val.toNat % 64) = true := by
  have hbit : s.contains q =
      (s.bits.toBitVec &&& BitVec.twoPow 64 (q.val.toNat % 64) != 0#64) := by
    rw [← toBitVec_bit]
    simp [contains, bne, ← UInt64.toBitVec_inj, BEq.beq]
  have hpow : BitVec.twoPow 64 (q.val.toNat % 64) ≠ 0#64 := by
    intro h
    have hlsb := congrArg (·.getLsbD (q.val.toNat % 64)) h
    simp [Nat.mod_lt] at hlsb
  rw [mem_def, hbit, BitVec.and_twoPow]
  split <;> simp_all

@[simp] theorem not_mem_empty (q : QueryId) : q ∉ (∅ : QuerySet) := by
  rw [mem_iff_getLsbD]
  simp [EmptyCollection.emptyCollection, empty]

@[simp] theorem mem_union {s t : QuerySet} {q : QueryId} : q ∈ s ∪ t ↔ q ∈ s ∨ q ∈ t := by
  simp only [mem_iff_getLsbD, Union.union, union, UInt64.toBitVec_or, BitVec.getLsbD_or,
    Bool.or_eq_true]

@[simp] theorem mem_inter {s t : QuerySet} {q : QueryId} : q ∈ s ∩ t ↔ q ∈ s ∧ q ∈ t := by
  simp only [mem_iff_getLsbD, Inter.inter, inter, UInt64.toBitVec_and, BitVec.getLsbD_and,
    Bool.and_eq_true]

@[simp] theorem mem_sdiff {s t : QuerySet} {q : QueryId} : q ∈ s \ t ↔ q ∈ s ∧ q ∉ t := by
  simp [mem_iff_getLsbD, SDiff.sdiff, diff, Nat.mod_lt]

/-- Below 64, two queries with the same bit are the same. -/
theorem eq_of_mod_eq {q r : QueryId} (hq : q.val < 64) (hr : r.val < 64)
    (h : q.val.toNat % 64 = r.val.toNat % 64) : q = r := by
  obtain ⟨q⟩ := q
  obtain ⟨r⟩ := r
  have hq : q.toNat < 64 := UInt8.lt_iff_toNat_lt.1 hq
  have hr : r.toNat < 64 := UInt8.lt_iff_toNat_lt.1 hr
  have h : q.toNat % 64 = r.toNat % 64 := h
  congr 1
  rw [← UInt8.toNat_inj]
  omega

/-- Setting a bit adds the member whose bit it is. -/
theorem mem_insert {s : QuerySet} {q r : QueryId} (hq : q.val < 64) (hr : r.val < 64) :
    r ∈ s.insert q ↔ r = q ∨ r ∈ s := by
  rw [mem_iff_getLsbD, mem_iff_getLsbD, insert, UInt64.toBitVec_or, toBitVec_bit]
  by_cases h : q.val.toNat % 64 = r.val.toNat % 64
  · simp [eq_of_mod_eq hq hr h, Nat.mod_lt]
  · have hne : r ≠ q := fun e => h (e ▸ rfl)
    simp [h, hne]

/-- Clearing a bit takes it out. -/
theorem mem_erase {s : QuerySet} {q r : QueryId} (hq : q.val < 64) (hr : r.val < 64) :
    r ∈ s.erase q ↔ r ≠ q ∧ r ∈ s := by
  rw [mem_iff_getLsbD, mem_iff_getLsbD, erase, UInt64.toBitVec_and, UInt64.toBitVec_not,
    toBitVec_bit]
  by_cases h : q.val.toNat % 64 = r.val.toNat % 64
  · simp [eq_of_mod_eq hq hr h, Nat.mod_lt]
  · have hne : r ≠ q := fun e => h (e ▸ rfl)
    simp [Ne.symm h, hne, Nat.mod_lt]

/-- The ids of the universe are those below 64. -/
theorem mem_ids {q : QueryId} : q ∈ ids ↔ q.val < 64 := by
  obtain ⟨q⟩ := q
  simp only [ids, List.mem_map, List.mem_range, capacity, QueryId.mk.injEq,
    UInt8.lt_iff_toNat_lt]
  constructor
  · rintro ⟨i, hi, rfl⟩
    simp
    omega
  · intro h
    exact ⟨q.toNat, h, by simp⟩

/-- The least id is one of the universe. -/
theorem zero_mem_ids : ⟨0⟩ ∈ ids :=
  mem_ids.2 (by decide)

/-- The members below 64 are listed. -/
theorem mem_toList {s : QuerySet} {q : QueryId} : q ∈ s.toList ↔ q ∈ s ∧ q.val < 64 := by
  rw [toList, List.mem_filter, mem_ids, mem_def, and_comm]

/-- A query of the universe is listed once it is inserted. -/
theorem mem_toList_insert {s : QuerySet} {q t : QueryId} (hq : q ∈ ids) :
    t ∈ (s.insert q).toList ↔ t = q ∨ t ∈ s.toList := by
  rw [mem_ids] at hq
  rw [mem_toList, mem_toList]
  constructor
  · rintro ⟨hmem, ht⟩
    exact ((mem_insert hq ht).1 hmem).imp_right fun h => ⟨h, ht⟩
  · rintro (rfl | ⟨hmem, ht⟩)
    · exact ⟨(mem_insert hq hq).2 (.inl rfl), hq⟩
    · exact ⟨(mem_insert hq ht).2 (.inr hmem), ht⟩

/-- It is listed no more once it is erased. -/
theorem mem_toList_erase {s : QuerySet} {q t : QueryId} (hq : q ∈ ids) :
    t ∈ (s.erase q).toList ↔ t ≠ q ∧ t ∈ s.toList := by
  rw [mem_ids] at hq
  rw [mem_toList, mem_toList, ← and_assoc]
  exact and_congr_left fun ht => mem_erase hq ht

theorem nodup_ids : ids.Nodup := by
  decide

/-- No member is listed twice. -/
theorem nodup_toList (s : QuerySet) : s.toList.Nodup := nodup_ids.filter _

/-- Sets with the same members are equal. -/
theorem ext {s t : QuerySet} (h : ∀ q : QueryId, q.val < 64 → (q ∈ s ↔ q ∈ t)) : s = t := by
  obtain ⟨a⟩ := s
  obtain ⟨b⟩ := t
  congr 1
  rw [← UInt64.toBitVec_inj]
  apply BitVec.eq_of_getLsbD_eq
  intro i hi
  have hmod : i.toUInt8.toNat % 64 = i := by
    simp
    omega
  have hlt : i.toUInt8 < 64 := by
    simp [UInt8.lt_iff_toNat_lt]
    omega
  have hbit := h ⟨i.toUInt8⟩ hlt
  rw [mem_iff_getLsbD, mem_iff_getLsbD, hmod] at hbit
  exact Bool.eq_iff_iff.2 hbit

end QuerySet

end SharedPlan
