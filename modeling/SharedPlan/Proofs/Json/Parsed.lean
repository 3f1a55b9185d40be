import SharedPlan.Json.Reader
import SharedPlan.Proofs.Json.Scanned

/-!
# SharedPlan.Proofs.Json.Parsed

The value of a text that was printed.

The machine that reads values takes the tokens of a value where it waits for one, and is
then where the value is complete (`Wait.run_tokens`).  With the tokens of a printed text
this makes reading the inverse of printing (`parse?_pretty`).
-/

namespace SharedPlan

namespace Json

namespace Wait

theorem run_cons {w v : Wait} {t : Token} (h : w.step t = some v) (more : List Token) :
    w.run (t :: more) = v.run more := by
  rw [run, List.foldlM_cons, h]
  rfl

/-- The tokens of a value do not begin with a closing bracket. -/
theorem head_tokens (j : Json) : ∃ t rest, tokens j = t :: rest ∧ t ≠ .closeArray := by
  cases j with
  | null | bool _ | number _ | string _ => exact ⟨_, _, by rw [tokens], by simp⟩
  | array items =>
      cases items with
      | nil => exact ⟨_, _, by rw [tokens], by simp⟩
      | cons j rest => exact ⟨_, _, by rw [tokens, List.cons_append, List.cons_append], by simp⟩
  | object members =>
      cases members with
      | nil => exact ⟨_, _, by rw [tokens], by simp⟩
      | cons m rest =>
          obtain ⟨key, j⟩ := m
          exact ⟨_, _, by rw [tokens, List.cons_append, List.cons_append], by simp⟩

/-- The first item of an array is read like any other. -/
theorem run_firstItem (j : Json) (frames : List Frame) (more : List Token) :
    (firstItem frames).run (tokens j ++ more) =
      (value (.array [] :: frames)).run (tokens j ++ more) := by
  obtain ⟨t, rest, heq, ht⟩ := head_tokens j
  have hstep : (firstItem frames).step t = (value (.array [] :: frames)).step t := if_neg ht
  rw [heq, List.cons_append, run, run, List.foldlM_cons, List.foldlM_cons, hstep]

mutual

/-- **Where a value is waited for, its tokens complete it.** -/
theorem run_tokens (j : Json) (frames : List Frame) (more : List Token) :
    (value frames).run (tokens j ++ more) = (complete j frames).run more := by
  match j with
  | .null | .bool _ | .number _ | .string _ | .array [] | .object [] => rfl
  | .array (j :: rest) =>
    simp only [tokens, List.cons_append, List.nil_append, List.append_assoc]
    rw [run_cons rfl, run_firstItem, run_tokens j, complete, run_itemTokens rest, run_cons rfl]
    simp
  | .object ((key, j) :: rest) =>
    simp only [tokens, List.cons_append, List.nil_append, List.append_assoc]
    rw [run_cons rfl, run_cons rfl, run_cons rfl, run_tokens j, complete, run_memberTokens rest,
      run_cons rfl]
    simp

/-- Further items join those that were read. -/
theorem run_itemTokens (rest items : List Json) (frames : List Frame) (more : List Token) :
    (moreItems items frames).run (itemTokens rest ++ more) =
      (moreItems (rest.reverse ++ items) frames).run more := by
  match rest with
  | [] => rfl
  | j :: rest =>
    simp only [itemTokens, List.cons_append, List.append_assoc]
    rw [run_cons rfl, run_tokens j, complete, run_itemTokens rest]
    simp

/-- Further members join those that were read. -/
theorem run_memberTokens (rest members : List (List Char × Json)) (frames : List Frame)
    (more : List Token) : (moreMembers members frames).run (memberTokens rest ++ more) =
      (moreMembers (rest.reverse ++ members) frames).run more := by
  match rest with
  | [] => rfl
  | (key, j) :: rest =>
    simp only [memberTokens, List.cons_append, List.append_assoc]
    rw [run_cons rfl, run_cons rfl, run_cons rfl, run_tokens j, complete, run_memberTokens rest]
    simp

end

end Wait

theorem ofTokens?_tokens (j : Json) : ofTokens? (tokens j) = some j := by
  have hrun := Wait.run_tokens j [] []
  rw [List.append_nil] at hrun
  rw [ofTokens?, hrun]
  rfl

/-- **Reading is the inverse of printing**, for all values that are written. -/
theorem parse?_pretty {j : Json} (h : Written j) : parse? j.pretty = some j := by
  rw [parse?, pretty, String.toList_ofList, tokens?_prettyChars h, Option.bind_some,
    ofTokens?_tokens]

end Json

end SharedPlan
