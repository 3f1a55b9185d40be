import SharedPlan.Json.Token
import SharedPlan.Proofs.Json.Number
import SharedPlan.Proofs.Json.Text

/-!
# SharedPlan.Proofs.Json.Scanned

The tokens of a text that was printed.

`Json.Written` are the values that are made of texts, natural numbers, lists and records.
The machine that finds tokens is followed over each piece of their text: blanks,
punctuation, string bodies, numbers.  A number ends only where something behind it says so
(`Stops`), which a comma, a bracket, a line break and the end of the text do.  So the
printed text of a written value has the tokens of the value (`run_prettyChars`).
-/

namespace SharedPlan

namespace Json

/-- The values that are written. -/
inductive Written : Json → Prop
  | null : Written null
  | bool (b : Bool) : Written (bool b)
  | nat (n : Nat) : Written (ofNat n)
  | text (s : String) : Written (ofText s)
  | array {items : List Json} : (∀ j ∈ items, Written j) → Written (array items)
  | record {members : List (String × Json)} :
      (∀ m ∈ members, Written m.2) → Written (record members)

theorem Written.ofList {α : Type} {f : α → Json} (hf : ∀ x, Written (f x)) (l : List α) :
    Written (.ofList f l) := by
  refine .array fun j hj => ?_
  obtain ⟨x, -, rfl⟩ := List.mem_map.1 hj
  exact hf x

mutual

/-- The tokens of a value. -/
def tokens : Json → List Token
  | null => [.null]
  | bool b => [.bool b]
  | number lexeme => [.number lexeme]
  | string body => [.string body]
  | array [] => [.openArray, .closeArray]
  | array (j :: rest) => .openArray :: tokens j ++ itemTokens rest ++ [.closeArray]
  | object [] => [.openObject, .closeObject]
  | object ((key, j) :: rest) =>
    .openObject :: .string key :: .colon :: tokens j ++ memberTokens rest ++ [.closeObject]

/-- The tokens of the items behind the first one. -/
def itemTokens : List Json → List Token
  | [] => []
  | j :: rest => .comma :: tokens j ++ itemTokens rest

/-- The tokens of the members behind the first one. -/
def memberTokens : List (List Char × Json) → List Token
  | [] => []
  | (key, j) :: rest => .comma :: .string key :: .colon :: tokens j ++ memberTokens rest

end

namespace Scan

/-! ## Pieces of text -/

/-- A character that completes no token moves the machine on. -/
theorem run_cons {s t : Scan} {c : Char} (h : s.step c = some ([], t)) (rest : List Char) :
    s.run (c :: rest) = t.run rest := by
  rw [run, h]

/-- A character that completes a token gives it away. -/
theorem run_cons_token {s t : Scan} {c : Char} {token : Token}
    (h : s.step c = some ([token], t)) (rest : List Char) :
    s.run (c :: rest) = (t.run rest).map (token :: ·) := by
  rw [run, h]
  rfl

/-- A character that completes a token before it begins the next one does both. -/
theorem run_before {s : Scan} {c : Char} {token : Token}
    (h : s.step c = (begin? c).map fun r => (token :: r.1, r.2)) (rest : List Char) :
    s.run (c :: rest) = (between.run (c :: rest)).map (token :: ·) := by
  have hbegin : between.step c = begin? c := rfl
  rw [run, run, h, hbegin]
  rcases begin? c with _ | ⟨_ | ⟨first, more⟩, t⟩
  · rfl
  · rfl
  · simp only [Option.map_some, Option.map_map]
    rfl

theorem run_newline (level : Nat) (rest : List Char) :
    between.run (newline level ++ rest) = between.run rest := by
  have hblanks (n : Nat) : between.run (List.replicate n ' ' ++ rest) = between.run rest := by
    induction n with
    | zero => rfl
    | succ n ih => rw [List.replicate_succ, List.cons_append, run_cons rfl, ih]
  rw [newline, List.cons_append, run_cons rfl, hblanks]

theorem run_colon (rest : List Char) :
    between.run (": ".toList ++ rest) = (between.run rest).map (.colon :: ·) := by
  have hcolon : ": ".toList ++ rest = ':' :: ' ' :: rest := rfl
  rw [hcolon, run_cons_token rfl, run_cons rfl]

theorem run_null (rest : List Char) :
    between.run ("null".toList ++ rest) = (between.run rest).map (.null :: ·) := by
  have hword : "null".toList ++ rest = 'n' :: 'u' :: 'l' :: 'l' :: rest := rfl
  rw [hword, run_cons rfl, run_cons rfl, run_cons rfl, run_cons_token rfl]

theorem run_boolText (b : Bool) (rest : List Char) :
    between.run (boolText b ++ rest) = (between.run rest).map (.bool b :: ·) := by
  cases b with
  | false =>
      have hword : boolText false ++ rest = 'f' :: 'a' :: 'l' :: 's' :: 'e' :: rest := rfl
      rw [hword, run_cons rfl, run_cons rfl, run_cons rfl, run_cons rfl, run_cons_token rfl]
  | true =>
      have hword : boolText true ++ rest = 't' :: 'r' :: 'u' :: 'e' :: rest := rfl
      rw [hword, run_cons rfl, run_cons rfl, run_cons rfl, run_cons_token rfl]

/-! ### Strings -/

theorem isSome_hexValue? {n : Nat} (hn : n < 16) : (hexValue? (hexDigit n)).isSome = true := by
  rw [hexValue?_hexDigit n hn, Option.isSome_some]

/-- However a character is written, the machine takes it into the string. -/
theorem run_spelled {c : Char} {body : List Char} (h : Spelled c body) (read rest : List Char) :
    (string read).run (body ++ rest) = (string (body.reverse ++ read)).run rest := by
  cases h with
  | @short e he =>
      have hu : e ≠ 'u' := by
        rintro rfl
        cases he
      have hescape : (escape ('\\' :: read)).step e = some ([], string (e :: '\\' :: read)) := by
        rw [step, if_neg hu, if_pos (by rw [he, Option.isSome_some])]
      exact (run_cons rfl _).trans (run_cons hescape rest)
  | control hc =>
      have hlt : c.toNat < 32 := hc
      have hhigh := isSome_hexValue? (n := c.toNat / 16) (by omega)
      have hlow := isSome_hexValue? (n := c.toNat % 16) (by omega)
      have hfirst (r : List Char) : (hex r 4).step '0' = some ([], hex ('0' :: r) 3) := rfl
      have hsecond (r : List Char) : (hex r 3).step '0' = some ([], hex ('0' :: r) 2) := rfl
      have hthird (r : List Char) : (hex r 2).step (hexDigit (c.toNat / 16)) =
          some ([], hex (hexDigit (c.toNat / 16) :: r) 1) := by
        rw [step, if_pos hhigh]
        rfl
      have hfourth (r : List Char) : (hex r 1).step (hexDigit (c.toNat % 16)) =
          some ([], string (hexDigit (c.toNat % 16) :: r)) := by
        rw [step, if_pos hlow]
        rfl
      simp only [List.cons_append, List.nil_append]
      rw [run_cons rfl, run_cons rfl, run_cons (hfirst _), run_cons (hsecond _),
        run_cons (hthird _), run_cons (hfourth _)]
      rfl
  | plain hbackslash hquote hc =>
      have htaken : (string read).step c = some ([], string (c :: read)) := by
        rw [step, if_neg hquote, if_neg hbackslash, if_neg hc]
      exact run_cons htaken rest

theorem run_encode (text read rest : List Char) :
    (string read).run (encode text ++ rest) =
      (string ((encode text).reverse ++ read)).run rest := by
  induction text generalizing read with
  | nil => rfl
  | cons c text ih =>
      have hcons : encode (c :: text) = encodeChar c ++ encode text := rfl
      rw [hcons, List.append_assoc, run_spelled (spelled_encodeChar c), ih, List.reverse_append,
        List.append_assoc]

/-- **A text between quotation marks is one token.** -/
theorem run_quoted (text rest : List Char) :
    between.run (quoted (encode text) ++ rest) =
      (between.run rest).map (.string (encode text) :: ·) := by
  have hquoted : quoted (encode text) ++ rest = '"' :: (encode text ++ '"' :: rest) := by
    simp [quoted]
  have hend : (string ((encode text).reverse ++ [])).step '"' =
      some ([.string (encode text)], between) := by
    rw [step, if_pos rfl, List.append_nil, List.reverse_reverse]
  rw [hquoted, run_cons rfl, run_encode, run_cons_token hend]

/-! ### Numbers -/

/-- A text at whose beginning a number ends. -/
def Stops (rest : List Char) : Prop :=
  rest = [] ∨ ∃ c tail, rest = c :: tail ∧ (c = ',' ∨ c = ']' ∨ c = '\x7d' ∨ c = '\n')

theorem stops_newline (level : Nat) (rest : List Char) : Stops (newline level ++ rest) :=
  .inr ⟨'\n', _, rfl, .inr (.inr (.inr rfl))⟩

theorem run_digits {digits : List Char} (hd : ∀ c ∈ digits, c.isDigit = true)
    (read rest : List Char) : (number read .digits).run (digits ++ rest) =
      (number (digits.reverse ++ read) .digits).run rest := by
  induction digits generalizing read with
  | nil => rfl
  | cons c digits ih =>
      obtain ⟨hc, hd⟩ := List.forall_mem_cons.1 hd
      have hstep : (number read .digits).step c = some ([], number (c :: read) .digits) := by
        rw [step, NumberPart.extend?, if_pos hc]
      rw [List.cons_append, run_cons hstep, ih hd, List.reverse_cons, List.append_assoc]
      rfl

/-- Where a number may end, it ends at what stops it. -/
theorem run_number {part : NumberPart} (hp : part = .zero ∨ part = .digits) (read : List Char)
    {rest : List Char} (hr : Stops rest) :
    (number read part).run rest = (between.run rest).map (.number read.reverse :: ·) := by
  rcases hr with rfl | ⟨c, tail, rfl, hc⟩
  · rcases hp with rfl | rfl <;> rfl
  · have hstep : (number read part).step c =
        (begin? c).map fun r => (.number read.reverse :: r.1, r.2) := by
      rcases hp with rfl | rfl <;> rcases hc with rfl | rfl | rfl | rfl <;> rfl
    exact run_before hstep tail

theorem begin?_digit {c : Char} (hdigit : c.isDigit = true) (hc : c ≠ '0') :
    begin? c = some ([], number [c] .digits) := by
  have hother {d : Char} (hd : d.isDigit = false) : c ≠ d := ne_of_isDigit hdigit hd
  have hblank : isBlank c = false := by
    simp [isBlank, hother (d := ' ') rfl, hother (d := '\n') rfl, hother (d := '\t') rfl,
      hother (d := '\r') rfl]
  rw [begin?]
  any_goals exact hother rfl
  · rw [hblank, if_pos hdigit]
    rfl
  · exact hc

/-- **The digits of a number are one token**, where something stops it. -/
theorem run_toDigits (n : Nat) {rest : List Char} (hr : Stops rest) :
    between.run (Nat.toDigits 10 n ++ rest) =
      (between.run rest).map (.number (Nat.toDigits 10 n) :: ·) := by
  have hdigits : ∀ c ∈ Nat.toDigits 10 n, c.isDigit = true := fun _ => isDigit_of_mem
  rcases head_toDigits n with hzero | ⟨c, digits, heq, hc⟩
  · rw [hzero]
    exact (run_cons rfl rest).trans (run_number (.inl rfl) ['0'] hr)
  · rw [heq] at hdigits ⊢
    obtain ⟨hdigit, hdigits⟩ := List.forall_mem_cons.1 hdigits
    have hbegin : between.step c = some ([], number [c] .digits) := begin?_digit hdigit hc
    rw [List.cons_append, run_cons hbegin, run_digits hdigits, run_number (.inr rfl) _ hr,
      List.reverse_append, List.reverse_reverse]
    rfl

/-! ## Values -/

/-- At every indentation level the text of a value has its tokens. -/
def Prints (j : Json) : Prop :=
  ∀ level rest, Stops rest →
    between.run (prettyChars level j ++ rest) = (between.run rest).map (tokens j ++ ·)

theorem stops_prettyItems (level : Nat) (items : List Json) {rest : List Char} (hr : Stops rest) :
    Stops (prettyItems level items ++ rest) := by
  cases items with
  | nil => exact hr
  | cons j items =>
      rw [prettyItems]
      exact .inr ⟨',', _, rfl, .inl rfl⟩

theorem stops_prettyMembers (level : Nat) (members : List (List Char × Json)) {rest : List Char}
    (hr : Stops rest) : Stops (prettyMembers level members ++ rest) := by
  cases members with
  | nil => exact hr
  | cons m members =>
      rw [prettyMembers]
      exact .inr ⟨',', _, rfl, .inl rfl⟩

theorem run_prettyItems {items : List Json} (h : ∀ j ∈ items, Prints j) (level : Nat)
    {rest : List Char} (hr : Stops rest) :
    between.run (prettyItems level items ++ rest) =
      (between.run rest).map (itemTokens items ++ ·) := by
  induction items with
  | nil => simp [prettyItems, itemTokens]
  | cons j items ih =>
      obtain ⟨hj, hitems⟩ := List.forall_mem_cons.1 h
      simp only [prettyItems, itemTokens, List.cons_append, List.append_assoc]
      rw [run_cons_token rfl, run_newline, hj _ _ (stops_prettyItems level items hr), ih hitems,
        Option.map_map, Option.map_map]
      rfl

/-- The first member of a record, or one behind it, up to its value. -/
theorem run_key (level : Nat) (key : String) (rest : List Char) :
    between.run (newline level ++ (quoted (encode key.toList) ++ (": ".toList ++ rest))) =
      (between.run rest).map (.string (encode key.toList) :: .colon :: ·) := by
  rw [run_newline, run_quoted, run_colon, Option.map_map]
  rfl

theorem run_prettyMembers {members : List (String × Json)} (h : ∀ m ∈ members, Prints m.2)
    (level : Nat) {rest : List Char} (hr : Stops rest) :
    between.run
        (prettyMembers level (members.map fun m => (encode m.1.toList, m.2)) ++ rest) =
      (between.run rest).map
        (memberTokens (members.map fun m => (encode m.1.toList, m.2)) ++ ·) := by
  induction members with
  | nil => simp [prettyMembers, memberTokens]
  | cons m members ih =>
      obtain ⟨hm, hmembers⟩ := List.forall_mem_cons.1 h
      simp only [List.map_cons, prettyMembers, memberTokens, List.cons_append, List.append_assoc]
      rw [run_cons_token rfl, run_key, hm _ _ (stops_prettyMembers level _ hr), ih hmembers,
        Option.map_map, Option.map_map, Option.map_map]
      rfl

/-- **The printed text of a value has the tokens of the value.** -/
theorem run_prettyChars {j : Json} (h : Written j) : Prints j := by
  induction h with
  | null => exact fun _ rest _ => run_null rest
  | bool b => exact fun _ rest _ => run_boolText b rest
  | nat n => exact fun _ rest hr => run_toDigits n hr
  | text s => exact fun _ rest _ => run_quoted s.toList rest
  | @array items _ ih =>
      intro level rest _
      cases items with
      | nil =>
        have htext : prettyChars level (.array []) ++ rest = '[' :: ']' :: rest := rfl
        rw [htext, run_cons_token rfl, run_cons_token rfl, Option.map_map]
        rfl
      | cons j items =>
          obtain ⟨hj, hitems⟩ := List.forall_mem_cons.1 ih
          have hstops : Stops (newline level ++ ']' :: rest) := stops_newline ..
          simp only [prettyChars, tokens, List.cons_append, List.nil_append, List.append_assoc]
          rw [run_cons_token rfl, run_newline, hj _ _ (stops_prettyItems _ items hstops),
            run_prettyItems hitems _ hstops, run_newline, run_cons_token rfl]
          simp only [Option.map_map]
          rfl
  | @record members _ ih =>
      intro level rest _
      cases members with
      | nil =>
          have htext : prettyChars level (.record []) ++ rest = '\x7b' :: '\x7d' :: rest := rfl
          rw [htext, run_cons_token rfl, run_cons_token rfl, Option.map_map]
          rfl
      | cons m members =>
          obtain ⟨hm, hmembers⟩ := List.forall_mem_cons.1 ih
          have hstops : Stops (newline level ++ '\x7d' :: rest) := stops_newline ..
          simp only [Json.record, List.map_cons, prettyChars, tokens, List.cons_append,
            List.nil_append, List.append_assoc]
          rw [run_cons_token rfl, run_key, hm _ _ (stops_prettyMembers _ _ hstops),
            run_prettyMembers hmembers _ hstops, run_newline, run_cons_token rfl]
          simp only [Option.map_map]
          rfl

end Scan

/-- The printed text of a value that is written, as tokens. -/
theorem tokens?_prettyChars {j : Json} (h : Written j) :
    tokens? (prettyChars 0 j) = some (tokens j) := by
  have hrun := Scan.run_prettyChars h 0 [] (.inl rfl)
  rw [List.append_nil] at hrun
  rw [tokens?, hrun]
  simp [Scan.run, Scan.finish]

end Json

end SharedPlan
