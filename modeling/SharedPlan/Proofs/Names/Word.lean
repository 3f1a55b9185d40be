import Mathlib.Data.Finset.Card
import SharedPlan.Proofs.Names.Ledger

/-!
# SharedPlan.Proofs.Names.Word

The word of a query set, worked on bit by bit.

`QuerySet` lists, counts and searches its members by asking for every id.  Here the same is
done on the word alone: its lowest bit is found by its trailing zeros and cleared by
subtracting one, until none is left (`QuerySet.drawAll`).  Clearing the lowest bit is taking
the least member out (`QuerySet.clear_lowest`), so both list the same members, and what a
word stands for is a finite set of ids (`QuerySet.word_faithful`).
-/

namespace SharedPlan

namespace QuerySet

variable {s t : QuerySet} {q r : QueryId} {bits : UInt64}

/-! ## Working on the word -/

/-- Add a member, and answer whether it was missing. -/
def add (q : QueryId) : StateM QuerySet Bool := do
  let fresh := (← get).bits &&& bit q == 0
  modify fun s => ⟨s.bits ||| bit q⟩
  return fresh

/-- Take a member out, and answer whether it was there. -/
def remove (q : QueryId) : StateM QuerySet Bool := do
  let present := (← get).bits &&& bit q != 0
  modify fun s => ⟨s.bits &&& ~~~bit q⟩
  return present

/-- The number of zeros below the lowest bit. -/
def trailingZeros (bits : UInt64) : Nat := bits.toBitVec.ctz.toNat

/-- The id of the lowest bit. -/
def lowest (bits : UInt64) : QueryId := ⟨(trailingZeros bits).toUInt8⟩

/-- Draw the id of the lowest bit that is left. -/
def draw : StateM UInt64 (Option QueryId) := fun bits =>
  if bits = 0 then (none, bits) else (some (lowest bits), bits &&& (bits - 1))

/-- The number of bits. -/
def countOnes (bits : UInt64) : Nat := bits.toBitVec.cpop.toNat

/-- The lowest id whose bit is not set. -/
def lowestFree? (s : QuerySet) : Option QueryId :=
  if s.bits = 0xFFFFFFFFFFFFFFFF then none else some (lowest (~~~s.bits))

/-! ## The lowest bit -/

theorem toBitVec_ne_zero (h : bits ≠ 0) : bits.toBitVec ≠ 0#64 :=
  fun hzero => h (UInt64.toBitVec_inj.1 hzero)

/-- An id below 64 is the place of its bit. -/
theorem toNat_mod_eq (hq : q.val < 64) : q.val.toNat % 64 = q.val.toNat :=
  Nat.mod_eq_of_lt (UInt8.lt_iff_toNat_lt.1 hq)

/-- A word with a bit set has fewer than 64 trailing zeros. -/
theorem trailingZeros_lt (h : bits ≠ 0) : trailingZeros bits < 64 :=
  BitVec.lt_def.1 (BitVec.ctz_lt_iff_ne_zero.2 (toBitVec_ne_zero h))

/-- The lowest member stands behind the trailing zeros. -/
theorem toNat_lowest (h : bits ≠ 0) : (lowest bits).val.toNat = trailingZeros bits := by
  have hlt := trailingZeros_lt h
  exact Nat.mod_eq_of_lt (by omega)

theorem lowest_lt (h : bits ≠ 0) : (lowest bits).val < 64 := by
  rw [UInt8.lt_iff_toNat_lt, toNat_lowest h]
  exact trailingZeros_lt h

/-- The lowest member is one. -/
theorem lowest_mem (h : bits ≠ 0) : lowest bits ∈ (⟨bits⟩ : QuerySet) := by
  rw [mem_iff_getLsbD, toNat_lowest h, Nat.mod_eq_of_lt (trailingZeros_lt h)]
  exact BitVec.getLsbD_true_ctz_of_ne_zero (toBitVec_ne_zero h)

/-- No member is below the lowest bit. -/
theorem lowest_le (hq : q ∈ (⟨bits⟩ : QuerySet)) (hlt : q.val < 64) :
    (lowest bits).val ≤ q.val := by
  have hne : bits ≠ 0 := by
    rintro rfl
    exact not_mem_empty q hq
  rw [mem_iff_getLsbD, toNat_mod_eq hlt] at hq
  rw [UInt8.le_iff_toNat_le, toNat_lowest hne]
  by_contra hbelow
  rw [BitVec.getLsbD_false_of_lt_ctz (Nat.lt_of_not_le hbelow)] at hq
  cases hq

/-- One less than a power of two has all the bits below set. -/
theorem getLsbD_twoPow_sub_one {k : Nat} (hk : k < 64) (j : Nat) :
    (BitVec.twoPow 64 k - 1#64).getLsbD j = decide (j < k) := by
  have hpos := Nat.two_pow_pos k
  have hpow : 2 ^ k < 2 ^ 64 := Nat.pow_lt_pow_right (by decide) hk
  have hnat : (BitVec.twoPow 64 k - 1#64).toNat = 2 ^ k - 1 := by
    rw [BitVec.toNat_sub, BitVec.toNat_twoPow_of_lt hk, BitVec.toNat_ofNat]
    omega
  rw [BitVec.getLsbD, hnat, Nat.testBit_two_pow_sub_one]

/-- Masking clears one bit and keeps the others. -/
theorem getLsbD_and_not_twoPow {w : BitVec 64} {k j : Nat} (hj : j < 64) :
    (w &&& ~~~BitVec.twoPow 64 k).getLsbD j = (w.getLsbD j && !decide (j = k)) := by
  simp [hj]

/-- Subtracting one takes the lowest bit away and sets those below it. -/
theorem sub_one_eq {w : BitVec 64} {k : Nat} (hk : k < 64) (hset : w.getLsbD k = true)
    (hlow : ∀ j < k, w.getLsbD j = false) :
    w - 1#64 = (w &&& ~~~BitVec.twoPow 64 k) ||| (BitVec.twoPow 64 k - 1#64) := by
  -- the word is the sum of its lowest bit and the rest, so nothing is borrowed from the rest
  have hsplit : (w &&& ~~~BitVec.twoPow 64 k) + BitVec.twoPow 64 k = w := by
    rw [BitVec.add_eq_or_of_and_eq_zero]
    · refine BitVec.eq_of_getLsbD_eq fun j hj => ?_
      rw [BitVec.getLsbD_or, getLsbD_and_not_twoPow hj, BitVec.getLsbD_twoPow]
      by_cases hjk : j = k
      · simp [hjk, hset, hk]
      · simp [hjk, Ne.symm hjk]
    · refine BitVec.eq_of_getLsbD_eq fun j hj => ?_
      rw [BitVec.getLsbD_and, getLsbD_and_not_twoPow hj, BitVec.getLsbD_twoPow]
      by_cases hjk : j = k
      · simp [hjk]
      · simp [Ne.symm hjk]
  calc w - 1#64
      = (w &&& ~~~BitVec.twoPow 64 k) + (BitVec.twoPow 64 k - 1#64) := by
        conv_lhs => rw [← hsplit]
        simp [BitVec.sub_eq_add_neg, BitVec.add_assoc]
    _ = (w &&& ~~~BitVec.twoPow 64 k) ||| (BitVec.twoPow 64 k - 1#64) := by
        refine BitVec.add_eq_or_of_and_eq_zero _ _ (BitVec.eq_of_getLsbD_eq fun j hj => ?_)
        rw [BitVec.getLsbD_and, getLsbD_and_not_twoPow hj, getLsbD_twoPow_sub_one hk]
        by_cases hjk : j < k
        · simp [hlow j hjk]
        · simp [hjk]

/-- Taking one off and masking clears the lowest set bit. -/
theorem and_sub_one_eq {w : BitVec 64} {k : Nat} (hk : k < 64) (hset : w.getLsbD k = true)
    (hlow : ∀ j < k, w.getLsbD j = false) :
    w &&& (w - 1#64) = w &&& ~~~BitVec.twoPow 64 k := by
  refine BitVec.eq_of_getLsbD_eq fun j hj => ?_
  rw [sub_one_eq hk hset hlow, BitVec.getLsbD_and, BitVec.getLsbD_or, getLsbD_and_not_twoPow hj,
    getLsbD_twoPow_sub_one hk]
  by_cases hjk : j < k
  · simp [hlow j hjk]
  · simp [hjk]

/-- Clearing the lowest bit is taking the least member out. -/
theorem clear_lowest (h : bits ≠ 0) :
    (⟨bits &&& (bits - 1)⟩ : QuerySet) = (⟨bits⟩ : QuerySet).erase (lowest bits) := by
  have hk := trailingZeros_lt h
  rw [erase, mk.injEq, ← UInt64.toBitVec_inj, UInt64.toBitVec_and, UInt64.toBitVec_and,
    UInt64.toBitVec_not, toBitVec_bit, toNat_lowest h, Nat.mod_eq_of_lt hk]
  exact and_sub_one_eq hk (BitVec.getLsbD_true_ctz_of_ne_zero (toBitVec_ne_zero h))
    fun j hj => BitVec.getLsbD_false_of_lt_ctz hj

/-! ## Drawing one member after another -/

theorem draw_zero : draw.run 0 = (none, 0) := rfl

/-- From a word with members the lowest one is drawn. -/
theorem draw_of_ne (h : bits ≠ 0) :
    draw.run bits = (some (lowest bits), bits &&& (bits - 1)) :=
  if_neg h

/-- A draw leaves a smaller word. -/
theorem clear_lt (h : bits ≠ 0) : (bits &&& (bits - 1)).toNat < bits.toNat := by
  have hpos : 0 < bits.toNat := Nat.pos_of_ne_zero fun e => h (UInt64.toNat_inj.1 e)
  have hone : (1 : UInt64) ≤ bits := UInt64.le_iff_toNat_le.2 hpos
  rw [UInt64.toNat_and, UInt64.toNat_sub_of_le _ _ hone]
  exact Nat.lt_of_le_of_lt Nat.and_le_right (Nat.sub_lt hpos Nat.one_pos)

theorem lt_of_draw {rest : UInt64} (h : draw.run bits = (some q, rest)) :
    rest.toNat < bits.toNat := by
  by_cases hne : bits = 0
  · rw [hne, draw_zero] at h
    cases h
  · rw [draw_of_ne hne] at h
    cases h
    exact clear_lt hne

/-- The ids that are drawn until no bit is left. -/
def drawAll (bits : UInt64) : List QueryId :=
  match _ : draw.run bits with
  | (none, _) => []
  | (some q, rest) => q :: drawAll rest
termination_by bits.toNat
decreasing_by exact lt_of_draw ‹_›

/-- What is left of the word after a number of draws. -/
def left (bits : UInt64) : Nat → UInt64
  | 0 => bits
  | n + 1 => left (draw.run bits).2 n

theorem drawAll_zero : drawAll 0 = [] := by
  rw [drawAll]
  rfl

/-- The rest is drawn from what the first draw left. -/
theorem drawAll_of_ne (h : bits ≠ 0) :
    drawAll bits = lowest bits :: drawAll (bits &&& (bits - 1)) := by
  rw [drawAll]
  split
  · rename_i hdraw
    rw [draw_of_ne h] at hdraw
    cases hdraw
  · rename_i hdraw
    rw [draw_of_ne h] at hdraw
    cases hdraw
    rfl

/-- Induction over the word, one bit after another. -/
theorem clear_induction {P : UInt64 → Prop} (zero : P 0)
    (clear : ∀ bits, bits ≠ 0 → P (bits &&& (bits - 1)) → P bits) (bits : UInt64) : P bits := by
  by_cases h : bits = 0
  · exact h ▸ zero
  · exact clear bits h (clear_induction zero clear _)
termination_by bits.toNat
decreasing_by exact clear_lt h

/-- The members are drawn, all of them and nothing else. -/
theorem mem_drawAll : q ∈ drawAll bits ↔ q ∈ (⟨bits⟩ : QuerySet).toList := by
  induction bits using clear_induction with
  | zero =>
      rw [drawAll_zero]
      exact iff_of_false List.not_mem_nil fun h => not_mem_empty q (mem_toList.1 h).1
  | clear bits h ih =>
      have hlowest : lowest bits ∈ ids := mem_ids.2 (lowest_lt h)
      rw [drawAll_of_ne h, List.mem_cons, ih, clear_lowest h, mem_toList_erase hlowest]
      constructor
      · rintro (rfl | ⟨-, hq⟩)
        · exact mem_toList.2 ⟨lowest_mem h, lowest_lt h⟩
        · exact hq
      · intro hq
        by_cases he : q = lowest bits
        · exact .inl he
        · exact .inr ⟨he, hq⟩

/-- Every draw gives a greater id than the one before. -/
theorem pairwise_drawAll (bits : UInt64) : (drawAll bits).Pairwise fun q r => q.val < r.val := by
  induction bits using clear_induction with
  | zero =>
      rw [drawAll_zero]
      exact .nil
  | clear bits h ih =>
      rw [drawAll_of_ne h, List.pairwise_cons]
      refine ⟨fun q hq => ?_, ih⟩
      rw [mem_drawAll, clear_lowest h, mem_toList_erase (mem_ids.2 (lowest_lt h))] at hq
      obtain ⟨hne, hq⟩ := hq
      obtain ⟨hmem, hlt⟩ := mem_toList.1 hq
      refine UInt8.lt_of_le_of_ne (lowest_le hmem hlt) fun he => hne ?_
      exact congrArg QueryId.mk he.symm

/-- The members are listed in ascending order. -/
theorem pairwise_toList (s : QuerySet) : s.toList.Pairwise fun q r => q.val < r.val := by
  have hids : ids.Pairwise fun q r => q.val < r.val := by decide +kernel
  exact hids.filter _

/-- Drawing lists the members. -/
theorem drawAll_eq_toList (s : QuerySet) : drawAll s.bits = s.toList := by
  have hnodup : (drawAll s.bits).Nodup :=
    (pairwise_drawAll s.bits).imp fun {q r} (hlt : q.val < r.val) (he : q = r) =>
      UInt8.lt_irrefl _ (he ▸ hlt)
  refine List.Perm.eq_of_pairwise (fun q r _ _ hqr hrq => ?_) (pairwise_drawAll s.bits)
    (pairwise_toList s) ((List.perm_ext_iff_of_nodup hnodup s.nodup_toList).2 fun q => mem_drawAll)
  exact absurd hrq (UInt8.lt_asymm hqr)

/-- A draw answers the next member, and nothing after the last. -/
theorem draw_left (bits : UInt64) (n : Nat) :
    (draw.run (left bits n)).1 = (drawAll bits)[n]? := by
  induction n generalizing bits with
  | zero =>
      by_cases h : bits = 0
      · rw [h, drawAll_zero]
        rfl
      · rw [drawAll_of_ne h, left, draw_of_ne h]
        rfl
  | succ n ih =>
      rw [left, ih]
      by_cases h : bits = 0
      · rw [h, draw_zero, drawAll_zero, List.getElem?_nil, List.getElem?_nil]
      · rw [drawAll_of_ne h, draw_of_ne h, List.getElem?_cons_succ]

/-! ## Counting and searching -/

/-- Whether a member is contained is told by its bit. -/
theorem contains_eq_getLsbD {i : Nat} (hi : i < 64) :
    s.contains ⟨i.toUInt8⟩ = s.bits.toBitVec.getLsbD i := by
  have hmod : i.toUInt8.toNat % 64 = i := by
    simp
    omega
  rw [Bool.eq_iff_iff, ← mem_def, mem_iff_getLsbD, hmod]

/-- Counting the bits of a word counts the places where one is set. -/
theorem cpopNatRec_eq_countP (w : BitVec 64) (n : Nat) :
    w.cpopNatRec n 0 = (List.range n).countP w.getLsbD := by
  induction n with
  | zero => rfl
  | succ n ih =>
      rw [BitVec.cpopNatRec_succ, BitVec.cpopNatRec_add, ih, List.range_succ, List.countP_append,
        List.countP_singleton]
      cases w.getLsbD n <;> rfl

/-- There are as many members as bits. -/
theorem countOnes_eq_size (s : QuerySet) : countOnes s.bits = s.size := by
  rw [countOnes, BitVec.toNat_cpop, cpopNatRec_eq_countP, size, toList,
    ← List.countP_eq_length_filter, ids, List.countP_map]
  refine List.countP_congr fun i hi => ?_
  rw [Function.comp_apply, contains_eq_getLsbD (List.mem_range.1 hi)]

/-- The complement has the members that the word has not. -/
theorem mem_not : q ∈ (⟨~~~s.bits⟩ : QuerySet) ↔ q ∉ s := by
  rw [mem_iff_getLsbD, mem_iff_getLsbD, UInt64.toBitVec_not]
  simp [Nat.mod_lt]

/-- The lowest bit that is not set is that of the first free id. -/
theorem lowestFree?_eq_firstFree? (s : QuerySet) : s.lowestFree? = s.firstFree? := by
  rw [lowestFree?]
  split
  · rename_i hfull
    refine (List.find?_eq_none.2 fun q _ => ?_).symm
    have hmem : q ∈ s := by
      by_contra hfree
      rw [← mem_not, hfull] at hfree
      exact not_mem_empty q hfree
    simpa [mem_def] using hmem
  · rename_i hfree
    have hne : ~~~s.bits ≠ 0 := fun e => hfree (by rw [← UInt64.not_not (a := s.bits), e]; rfl)
    have hmem : lowest (~~~s.bits) ∉ s := mem_not.1 (lowest_mem hne)
    have hids := mem_ids.2 (lowest_lt hne)
    cases hfirst : s.firstFree? with
    | none => exact absurd hmem (by simpa [mem_def] using List.find?_eq_none.1 hfirst _ hids)
    | some q =>
        obtain ⟨hq, hfree, hleast⟩ := firstFree?_eq_some hfirst
        rw [mem_toList, not_and] at hfree
        have hq' := mem_ids.1 hq
        have hle := hleast _ hids fun h => hmem (mem_toList.1 h).1
        have hge : (lowest (~~~s.bits)).val ≤ q.val :=
          lowest_le (mem_not.2 fun h => hfree h hq') hq'
        exact congrArg (some ∘ QueryId.mk) (UInt8.le_antisymm hge hle)

/-! ## The set that a word stands for -/

/-- The ids whose bits are set. -/
def members (s : QuerySet) : Finset QueryId :=
  ids.toFinset.filter fun q => s.bits.toBitVec.getLsbD q.val.toNat

theorem mem_members : q ∈ s.members ↔ q ∈ s.toList := by
  rw [members, Finset.mem_filter, List.mem_toFinset, mem_ids, mem_toList, and_comm]
  exact and_congr_left fun hq => by rw [mem_iff_getLsbD, toNat_mod_eq hq]

/-- For ids below 64, the members are what the word contains. -/
theorem mem_members_of_lt (hq : q.val < 64) : q ∈ s.members ↔ q ∈ s := by
  rw [mem_members, mem_toList, and_iff_left hq]

/-- A word is determined by its members. -/
theorem members_inj : s.members = t.members ↔ s = t := by
  refine ⟨fun h => ext fun q hq => ?_, congrArg members⟩
  rw [← mem_members_of_lt hq, h, mem_members_of_lt hq]

theorem toFinset_toList (s : QuerySet) : s.toList.toFinset = s.members :=
  Finset.ext fun q => by rw [List.mem_toFinset, mem_members]

/-- The size is the number of members. -/
theorem card_members (s : QuerySet) : s.members.card = s.size := by
  rw [← toFinset_toList, List.toFinset_card_of_nodup s.nodup_toList, size]

/-- Every finite set of ids is that of a word. -/
theorem members_ofList {l : List QueryId} (hl : ∀ q ∈ l, q.val < 64) :
    (ofList l).members = l.toFinset := by
  refine Finset.ext fun q => ?_
  rw [mem_members, mem_toList, List.mem_toFinset]
  constructor
  · rintro ⟨hq, hlt⟩
    exact (mem_ofList hl hlt).1 hq
  · intro hq
    exact ⟨(mem_ofList hl (hl q hq)).2 hq, hl q hq⟩

/-- Collecting the listed members gives the word back. -/
theorem ofList_toList (s : QuerySet) : ofList s.toList = s := by
  rw [← members_inj, members_ofList fun q hq => (mem_toList.1 hq).2, toFinset_toList]

/-! ### Operations -/

/-- Setting a bit inserts a member. -/
theorem members_insert (hq : q.val < 64) : (s.insert q).members = Insert.insert q s.members := by
  refine Finset.ext fun r => ?_
  rw [Finset.mem_insert, mem_members, mem_members, mem_toList_insert (mem_ids.2 hq)]

/-- Clearing a bit erases it. -/
theorem members_erase (hq : q.val < 64) : (s.erase q).members = s.members.erase q := by
  refine Finset.ext fun r => ?_
  rw [Finset.mem_erase, mem_members, mem_members, mem_toList_erase (mem_ids.2 hq)]

theorem members_empty : (∅ : QuerySet).members = ∅ :=
  Finset.eq_empty_of_forall_notMem fun q hq =>
    not_mem_empty q (mem_toList.1 (mem_members.1 hq)).1

theorem members_singleton (hq : q.val < 64) : (singleton q).members = {q} := by
  rw [singleton, members_insert hq]
  exact congrArg (Insert.insert q) members_empty

/-- Or is the union. -/
theorem members_union (s t : QuerySet) : (s ∪ t).members = s.members ∪ t.members := by
  refine Finset.ext fun q => ?_
  simp only [Finset.mem_union, mem_members, mem_toList, mem_union, or_and_right]

/-- And is the intersection. -/
theorem members_inter (s t : QuerySet) : (s ∩ t).members = s.members ∩ t.members := by
  refine Finset.ext fun q => ?_
  by_cases hq : q.val < 64 <;>
    simp [Finset.mem_inter, mem_members, mem_toList, mem_inter, hq]

/-- And with the complement is the difference. -/
theorem members_sdiff (s t : QuerySet) : (s \ t).members = s.members \ t.members := by
  refine Finset.ext fun q => ?_
  by_cases hq : q.val < 64 <;>
    simp [Finset.mem_sdiff, mem_members, mem_toList, mem_sdiff, hq]

/-- Whether a bit is set decides membership. -/
theorem decide_mem_members (hq : q.val < 64) : decide (q ∈ s.members) = s.contains q := by
  rw [Bool.eq_iff_iff, decide_eq_true_iff, mem_members_of_lt hq, mem_def]

/-- An addition tells whether the query is new. -/
theorem run_add (hq : q.val < 64) :
    (add q).run s = (decide (q ∉ s.members), s.insert q) := by
  have hfresh : (s.bits &&& bit q == 0) = !s.contains q := by rw [contains, bne, Bool.not_not]
  rw [decide_not, decide_mem_members hq, ← hfresh]
  rfl

/-- A removal tells whether the query was there. -/
theorem run_remove (hq : q.val < 64) :
    (remove q).run s = (decide (q ∈ s.members), s.erase q) := by
  rw [decide_mem_members hq]
  rfl

/-- No id is free exactly when every one is taken. -/
theorem firstFree?_eq_none_iff :
    s.firstFree? = none ↔ ∀ q : QueryId, q.val < 64 → q ∈ s.members := by
  rw [firstFree?, List.find?_eq_none]
  refine forall_congr' fun q => ?_
  rw [mem_ids]
  refine imp_congr_right fun hq => ?_
  rw [mem_members_of_lt hq, mem_def, Bool.not_eq_true', Bool.not_eq_false]

/-- The first free id is the least that is missing. -/
theorem firstFree?_eq_some_iff :
    s.firstFree? = some q ↔
      q.val < 64 ∧ q ∉ s.members ∧ ∀ r : QueryId, r.val < 64 → r ∉ s.members → q.val ≤ r.val := by
  constructor
  · simp only [mem_members, ← mem_ids]
    exact firstFree?_eq_some
  · rintro ⟨hq, hfree, hleast⟩
    cases hfirst : s.firstFree? with
    | none => exact absurd (firstFree?_eq_none_iff.1 hfirst q hq) hfree
    | some r =>
        obtain ⟨hr, hfree', hbelow⟩ := firstFree?_eq_some hfirst
        rw [← mem_members] at hfree'
        have hle := hbelow q (mem_ids.2 hq) fun h => hfree (mem_members.2 h)
        have hge := hleast r (mem_ids.1 hr) hfree'
        exact congrArg (some ∘ QueryId.mk) (UInt8.le_antisymm hle hge)

/-- **A word is a finite set of ids.**  Two words with the same members are the same, and every
finite set of ids is that of a word.  The operations on words are those on sets, and adding and
removing answer whether the set has changed.  Drawing lists the members once each, ascending,
and answers nothing from then on; collecting them again gives the word back.  The bits are
counted by the number of members, and the lowest free bit is that of the least id that is
missing, if one is. -/
theorem word_faithful (s t : QuerySet) :
    (s.members = t.members ↔ s = t) ∧
      (∀ F : Finset QueryId, (∀ q ∈ F, q.val < 64) ↔ ∃ u : QuerySet, u.members = F) ∧
      (∀ q : QueryId, q.val < 64 →
        (s.contains q = true ↔ q ∈ s.members) ∧
        ((add q).run s = (decide (q ∉ s.members), s.insert q) ∧
          (s.insert q).members = Insert.insert q s.members) ∧
        ((remove q).run s = (decide (q ∈ s.members), s.erase q) ∧
          (s.erase q).members = s.members.erase q) ∧
        (singleton q).members = {q}) ∧
      ((∅ : QuerySet).members = ∅ ∧ (s ∪ t).members = s.members ∪ t.members ∧
        (s ∩ t).members = s.members ∩ t.members ∧ (s \ t).members = s.members \ t.members) ∧
      (drawAll s.bits = s.toList ∧ (∀ n, (draw.run (left s.bits n)).1 = s.toList[n]?) ∧
        s.toList.toFinset = s.members ∧ s.toList.Pairwise (fun q r => q.val < r.val) ∧
        ofList (drawAll s.bits) = s) ∧
      (countOnes s.bits = s.members.card ∧ s.size = s.members.card) ∧
      s.lowestFree? = s.firstFree? ∧
        (∀ q, s.firstFree? = some q ↔
          q.val < 64 ∧ q ∉ s.members ∧
            ∀ r : QueryId, r.val < 64 → r ∉ s.members → q.val ≤ r.val) ∧
        (s.firstFree? = none ↔ ∀ q : QueryId, q.val < 64 → q ∈ s.members) := by
  refine ⟨members_inj, fun F => ⟨fun hF => ?_, ?_⟩, fun q hq => ?_, ?_, ?_, ?_, ?_⟩
  · refine ⟨ofList F.toList, ?_⟩
    rw [members_ofList fun q hq => hF q (Finset.mem_toList.1 hq), Finset.toList_toFinset]
  · rintro ⟨u, rfl⟩ q hq
    exact (mem_toList.1 (mem_members.1 hq)).2
  · exact ⟨(mem_members_of_lt hq).symm, ⟨run_add hq, members_insert hq⟩,
      ⟨run_remove hq, members_erase hq⟩, members_singleton hq⟩
  · exact ⟨members_empty, members_union s t, members_inter s t, members_sdiff s t⟩
  · refine ⟨drawAll_eq_toList s, fun n => ?_, toFinset_toList s, pairwise_toList s, ?_⟩
    · rw [draw_left, drawAll_eq_toList]
    · rw [drawAll_eq_toList, ofList_toList]
  · rw [countOnes_eq_size, card_members, and_self]
  · exact ⟨lowestFree?_eq_firstFree? s, fun q => firstFree?_eq_some_iff, firstFree?_eq_none_iff⟩

/-- The word whose only member is the last id: adding it again tells so, and it is drawn once. -/
theorem word_faithful_at_last_bit :
    (add ⟨63⟩).run ⟨0x8000000000000000⟩ = (false, ⟨0x8000000000000000⟩) ∧
      (draw.run (left 0x8000000000000000 0)).1 = some ⟨63⟩ ∧
      (draw.run (left 0x8000000000000000 1)).1 = none ∧
      countOnes 0x8000000000000000 = 1 := by
  obtain ⟨-, -, hmember, -, ⟨-, hdraw, -⟩, ⟨hcount, -⟩, -⟩ := word_faithful ⟨0x8000000000000000⟩ ∅
  obtain ⟨-, ⟨hadd, -⟩, -⟩ := hmember ⟨63⟩ (by decide)
  exact ⟨hadd.trans (congrArg₂ Prod.mk (by decide +kernel) (by decide +kernel)),
    (hdraw 0).trans (by decide +kernel), (hdraw 1).trans (by decide +kernel),
    hcount.trans (by decide +kernel)⟩

end QuerySet

end SharedPlan
