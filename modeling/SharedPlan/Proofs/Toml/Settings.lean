import SharedPlan.Proofs.Json.Number
import SharedPlan.Toml.Document

/-!
# SharedPlan.Proofs.Toml.Settings

Texts of plain settings.

A setting is a bare key and a natural number or truth value on a line of its own.  The
readers try every other kind of value first; none of them takes a numeral that a line end
follows (`Toml.scalar_numeral`).  So settings with names of their own are read as the table
that holds each value under its name (`Toml.parse?_settings`).
-/

namespace SharedPlan

namespace Toml

open Reader

/-! ## One reader after another -/

section

variable {α β : Type} {r q : Reader α} {f : α → Reader β} {s rest : List Char} {a : α}

/-- Two readers in a row read what the first reads and, behind it, what the second does. -/
theorem bind_eq_some_iff {x : β × List Char} :
    (r >>= f) s = some x ↔ ∃ a rest, r s = some (a, rest) ∧ f a rest = some x := by
  change (r s).bind (fun p => f p.1 p.2) = some x ↔ _
  rw [Option.bind_eq_some_iff, Prod.exists]

/-- Nothing is read in a row when the second reader refuses whatever the first leaves. -/
theorem bind_eq_none (h : ∀ a rest, r s = some (a, rest) → f a rest = none) :
    (r >>= f) s = none := by
  change (r s).bind (fun p => f p.1 p.2) = none
  exact Option.bind_eq_none_iff.2 fun p hp => h p.1 p.2 hp

theorem bind_of_some (h : r s = some (a, rest)) : (r >>= f) s = f a rest := by
  change (r s).bind (fun p => f p.1 p.2) = _
  rw [h, Option.bind_some]

theorem bind_of_none (h : r s = none) : (r >>= f) s = none :=
  bind_eq_none fun _ _ hr => absurd (h.symm.trans hr) (by simp)

/-- The second choice is read where the first refuses. -/
theorem orElse_of_none (h : r s = none) : (r <|> q) s = q s := by
  change (r s <|> q s) = _
  rw [h]
  rfl

theorem char_cons (c : Char) (s : List Char) : char c (c :: s) = some ((), s) := if_pos rfl

/-- A character is read where it stands, not where another does. -/
theorem char_of_ne {c d : Char} (h : d ≠ c) : char c (d :: s) = none := if_neg h

/-- What may be missing reads nothing where it is missing. -/
theorem maybe_of_none (h : r s = none) : maybe r s = some (none, s) := by
  rw [maybe, h]

end

/-! ## Numerals -/

/- Readers of dates and times take a number of digits first and ask for a mark that is no
digit next.  Whatever they have taken, a numeral is left, and there is no such mark. -/

/-- Digits up to the end of a line. -/
def Numeral (s : List Char) : Prop :=
  ∃ digits rest, s = digits ++ '\n' :: rest ∧ ∀ c ∈ digits, c.isDigit = true

section

variable {s rest : List Char} {c : Char}

/-- Digits up to the end of the line begin with one of them or with the end. -/
theorem Numeral.head_cases (h : Numeral s) :
    ∃ c rest, s = c :: rest ∧ (c.isDigit = true ∧ Numeral rest ∨ c = '\n') := by
  obtain ⟨digits, tail, rfl, hdigits⟩ := h
  cases digits with
  | nil => exact ⟨'\n', tail, rfl, .inr rfl⟩
  | cons d digits =>
      obtain ⟨hd, hdigits⟩ := List.forall_mem_cons.1 hdigits
      exact ⟨d, digits ++ '\n' :: tail, rfl, .inl ⟨hd, digits, tail, rfl, hdigits⟩⟩

/-- Reading a digit leaves digits up to the end of the line. -/
theorem Numeral.of_one (h : Numeral s) (hread : one Char.isDigit s = some (c, rest)) :
    Numeral rest := by
  obtain ⟨d, tail, rfl, ⟨hd, htail⟩ | rfl⟩ := h.head_cases
  · rw [one, if_pos hd] at hread
    cases hread
    exact htail
  · cases hread

/-- So does reading a given number of digits. -/
theorem Numeral.of_exactly {n : Nat} {cs : List Char} (h : Numeral s)
    (hread : exactly Char.isDigit n s = some (cs, rest)) : Numeral rest := by
  induction n generalizing s cs with
  | zero =>
      cases hread
      exact h
  | succ n ih =>
      obtain ⟨c, mid, hone, hread⟩ := bind_eq_some_iff.1 hread
      obtain ⟨cs, tail, hmore, hread⟩ := bind_eq_some_iff.1 hread
      cases hread
      exact ih (h.of_one hone) hmore

/-- So does reading a number within bounds. -/
theorem Numeral.of_numberWithin {digits least most n : Nat} (h : Numeral s)
    (hread : numberWithin digits least most s = some (n, rest)) : Numeral rest := by
  obtain ⟨cs, mid, hdigits, hread⟩ := bind_eq_some_iff.1 hread
  obtain ⟨_, tail, hrequire, hread⟩ := bind_eq_some_iff.1 hread
  cases hread
  rw [require] at hrequire
  split at hrequire
  · cases hrequire
    exact h.of_exactly hdigits
  · cases hrequire

/-- What is no digit does not stand in a numeral. -/
theorem Numeral.char_eq_none (h : Numeral s) (hdigit : c.isDigit = false) (hline : c ≠ '\n') :
    char c s = none := by
  obtain ⟨d, tail, rfl, ⟨hd, -⟩ | rfl⟩ := h.head_cases
  · exact char_of_ne (Json.ne_of_isDigit hd hdigit)
  · exact char_of_ne hline.symm

/-- Digits up to the end of the line are no date, which has a hyphen behind the year. -/
theorem Numeral.date_eq_none (h : Numeral s) : date s = none :=
  bind_eq_none fun _ _ hyear =>
    bind_of_none ((h.of_numberWithin hyear).char_eq_none rfl (by decide))

/-- Nor are they a time, which has a colon behind the hour. -/
theorem Numeral.time_eq_none (h : Numeral s) : time s = none :=
  bind_eq_none fun _ _ hhour =>
    bind_of_none ((h.of_numberWithin hhour).char_eq_none rfl (by decide))

/-- Nor both. -/
theorem Numeral.dateTime_eq_none (h : Numeral s) : dateTime s = none := by
  rw [dateTime, orElse_of_none (bind_of_none h.date_eq_none), bind_of_none h.time_eq_none]

/-- Nor does any word begin here that begins with something else. -/
theorem Numeral.chars_eq_none (h : Numeral s) (hdigit : c.isDigit = false) (hline : c ≠ '\n')
    (cs : List Char) : chars (c :: cs) s = none :=
  bind_of_none (h.char_eq_none hdigit hline)

/-- Nor a truth value. -/
theorem Numeral.boolean_eq_none (h : Numeral s) : boolean s = none := by
  rw [boolean, orElse_of_none, bind_of_none]
  · exact h.chars_eq_none rfl (by decide) _
  · exact bind_of_none (h.chars_eq_none rfl (by decide) _)

/-- Nor a string. -/
theorem Numeral.stringValue_eq_none (h : Numeral s) : stringValue s = none := by
  obtain ⟨d, tail, rfl, ⟨hd, -⟩ | rfl⟩ := h.head_cases
  · have hbasic := Json.ne_of_isDigit hd (d := '"') rfl
    have hliteral := Json.ne_of_isDigit hd (d := '\'') rfl
    unfold stringValue
    split <;> simp_all
  · rfl

/-- No sign stands before digits. -/
theorem Numeral.sign_eq (h : Numeral s) : sign s = some (false, s) := by
  obtain ⟨d, tail, rfl, ⟨hd, -⟩ | rfl⟩ := h.head_cases
  · have hminus := Json.ne_of_isDigit hd (d := '-') rfl
    have hplus := Json.ne_of_isDigit hd (d := '+') rfl
    rw [sign, bind_of_some (a := some d) rfl]
    simp only [hminus, hplus, Option.some.injEq, imp_self]
    rfl
  · rfl

/-! ## Numbers -/

/-- The decimal digits of a number have its value. -/
theorem digitsValue_toDigits (n : Nat) : digitsValue 10 (Nat.toDigits 10 n) = n := by
  have hvalue (digits : List Char) (hdigits : ∀ c ∈ digits, c.isDigit = true) (m : Nat) :
      digits.foldl (fun n c => n * 10 + hexValue c) m = Nat.ofDigitChars 10 digits m := by
    induction digits generalizing m with
    | nil => rfl
    | cons d digits ih =>
        obtain ⟨hd, hdigits⟩ := List.forall_mem_cons.1 hdigits
        rw [List.foldl_cons, ih hdigits, Nat.ofDigitChars_cons, hexValue, if_pos hd, Nat.mul_comm]
        rfl
  rw [digitsValue, hvalue _ (fun _ => Json.isDigit_of_mem), Nat.ofDigitChars_ten_toDigits]

/-- All digits up to the end of the line are read, given enough fuel. -/
theorem moreDigits_eq {digits : List Char} (hdigits : ∀ c ∈ digits, c.isDigit = true) {n : Nat}
    (hn : digits.length < n) (rest : List Char) :
    moreDigits Char.isDigit n (digits ++ '\n' :: rest) = some (digits, '\n' :: rest) := by
  induction digits generalizing n with
  | nil =>
      cases n with
      | zero => cases hn
      | succ n => rfl
  | cons d digits ih =>
      cases n with
      | zero => cases hn
      | succ n =>
          obtain ⟨hd, hdigits⟩ := List.forall_mem_cons.1 hdigits
          -- a digit is no underscore, so it is the last branch that takes it
          have hline := Json.ne_of_isDigit hd (d := '_') rfl
          rw [moreDigits, List.cons_append, bind_of_some (a := some d) rfl]
          simp only [hd, if_true]
          rw [bind_of_some (char_cons d _),
            bind_of_some (ih hdigits (Nat.lt_of_succ_lt_succ hn))]
          rfl

/-- A run of digits is read up to the end of the line. -/
theorem digitRun_eq {d : Char} {digits : List Char} (hd : d.isDigit = true)
    (hdigits : ∀ c ∈ digits, c.isDigit = true) (rest : List Char) :
    digitRun Char.isDigit (d :: digits ++ '\n' :: rest) = some (d :: digits, '\n' :: rest) := by
  have hlength : digits.length < (digits ++ '\n' :: rest).length := by
    rw [List.length_append, List.length_cons]
    omega
  rw [digitRun, List.cons_append, bind_of_some (a := d) (if_pos hd), bind_of_some rfl,
    bind_of_some (moreDigits_eq hdigits hlength rest)]
  rfl

/-- A number is written as digits up to the end of its line. -/
theorem numeral_toDigits (n : Nat) (rest : List Char) :
    Numeral (Nat.toDigits 10 n ++ '\n' :: rest) :=
  ⟨_, rest, rfl, fun _ => Json.isDigit_of_mem⟩

/-- A number is read up to the end of its line. -/
theorem decimalDigits_eq (n : Nat) (rest : List Char) :
    decimalDigits (Nat.toDigits 10 n ++ '\n' :: rest) =
      some (Nat.toDigits 10 n, '\n' :: rest) := by
  -- only the number zero begins with a zero, which is read on its own
  obtain hzero | ⟨d, digits, hdigits, hd⟩ := Json.head_toDigits n
  · rw [hzero]
    rfl
  · have hall : ∀ c ∈ d :: digits, c.isDigit = true := hdigits ▸ fun _ => Json.isDigit_of_mem
    obtain ⟨hdigit, hrest⟩ := List.forall_mem_cons.1 hall
    rw [hdigits, decimalDigits, bind_of_some (a := some d) rfl, if_neg (by simpa using hd)]
    exact digitRun_eq hdigit hrest rest

/-- A number without fraction or exponent is no float. -/
theorem float_eq_none (n : Nat) (rest : List Char) :
    float (Nat.toDigits 10 n ++ '\n' :: rest) = none := by
  have hnumeral := numeral_toDigits n rest
  have hword : (chars "inf".toList <|> chars "nan".toList) (Nat.toDigits 10 n ++ '\n' :: rest) =
      none := by
    rw [orElse_of_none]
    · exact hnumeral.chars_eq_none rfl (by decide) _
    · exact hnumeral.chars_eq_none rfl (by decide) _
  rw [float, bind_of_some hnumeral.sign_eq, bind_of_some (maybe_of_none hword)]
  change (decimalDigits >>= _) _ = none
  rw [bind_of_some (decimalDigits_eq n rest)]
  rfl

/-- A decimal number does not begin with a zero and the mark of another base. -/
theorem basedInteger_eq_none {mark : Char} {base : Nat} {p : Char → Bool}
    (hline : mark ≠ '\n') (n : Nat) (rest : List Char) :
    basedInteger mark base p (Nat.toDigits 10 n ++ '\n' :: rest) = none := by
  refine bind_of_none ?_
  obtain hzero | ⟨d, digits, hdigits, hd⟩ := Json.head_toDigits n
  · have hmark : chars [mark] ('\n' :: rest) = none := bind_of_none (char_of_ne hline.symm)
    rw [hzero, chars, List.singleton_append]
    exact (bind_of_some (char_cons '0' _)).trans hmark
  · rw [hdigits]
    exact bind_of_none (char_of_ne hd)

/-- **A decimal number below the bound reads back.** -/
theorem integer_eq {n : Nat} (hn : n < maxMagnitude) (rest : List Char) :
    integer (Nat.toDigits 10 n ++ '\n' :: rest) = some (.integer n, '\n' :: rest) := by
  have hrequire : require (decide (n < maxMagnitude)) ('\n' :: rest) =
      some ((), '\n' :: rest) := by
    rw [require, if_pos (decide_eq_true hn)]
    rfl
  rw [integer, orElse_of_none (basedInteger_eq_none (by decide) n rest),
    orElse_of_none (basedInteger_eq_none (by decide) n rest),
    orElse_of_none (basedInteger_eq_none (by decide) n rest),
    decimalInteger, bind_of_some (numeral_toDigits n rest).sign_eq,
    bind_of_some (decimalDigits_eq n rest), digitsValue_toDigits]
  exact bind_of_some hrequire

/-- **A numeral is read as its number.**  It stands for no value of another kind. -/
theorem scalar_numeral {n : Nat} (hn : n < maxMagnitude) (rest : List Char) :
    scalar (Nat.toDigits 10 n ++ '\n' :: rest) = some (.integer n, '\n' :: rest) := by
  have hnumeral := numeral_toDigits n rest
  rw [scalar, orElse_of_none (bind_of_none hnumeral.stringValue_eq_none),
    orElse_of_none hnumeral.boolean_eq_none, orElse_of_none hnumeral.dateTime_eq_none,
    orElse_of_none (float_eq_none n rest), integer_eq hn]

end

/-! ## Settings -/

/-- A natural number or a truth value. -/
inductive PlainValue where
  | number (n : Nat)
  | truth (b : Bool)

namespace PlainValue

/-- A value as it is written. -/
def written : PlainValue → List Char
  | number n => Nat.toDigits 10 n
  | truth true => "true".toList
  | truth false => "false".toList

/-- A value as it is read. -/
def toValue : PlainValue → Value
  | number n => .integer n
  | truth b => .boolean b

/-- Whether a value can be read: a number has to be a signed one of 64 bits. -/
def Readable : PlainValue → Prop
  | number n => n < maxMagnitude
  | truth _ => True

end PlainValue

/-- Whether a key can be written bare. -/
def isBareKey (name : String) : Bool := !name.toList.isEmpty && name.toList.all isBareChar

/-- A key with its value. -/
structure Setting where
  name : String
  value : PlainValue

namespace Setting

/-- A setting on its line. -/
def written (s : Setting) : List Char := s.name.toList ++ " = ".toList ++ s.value.written ++ ['\n']

/-- A setting can be read if its key is a bare one and its value can be read. -/
structure Readable (s : Setting) : Prop where
  key : isBareKey s.name = true
  value : s.value.Readable

/-- A name that can be read is not empty. -/
theorem Readable.name_ne {s : Setting} (h : s.Readable) : s.name.toList ≠ [] := by
  have hname := (Bool.and_eq_true_iff.1 h.key).1
  simpa using hname

/-- Such a name consists of bare characters. -/
theorem Readable.bare {s : Setting} (h : s.Readable) : ∀ c ∈ s.name.toList, isBareChar c = true :=
  List.all_eq_true.1 (Bool.and_eq_true_iff.1 h.key).2

end Setting

section

variable {s rest : List Char} {c : Char} {name : String}

/-- Where no blank stands there is nothing to skip. -/
theorem blanks_of_not_blank (h : isBlank c = false) :
    blanks (c :: s) = some ((), c :: s) := by
  change some ((), (c :: s).dropWhile isBlank) = _
  rw [List.dropWhile_cons_of_neg (by simp [h])]

/-- What opens neither an array nor a table is a scalar. -/
theorem value_eq_scalar (harray : c ≠ '[') (htable : c ≠ '\x7b') :
    value (c :: s) = scalar (c :: s) := by
  rw [value, maxLevels, valueWithin, bind_of_some (a := some c) rfl]
  simp only [harray, htable, Option.some.injEq, imp_self]

/-- A number is written with at least one digit. -/
theorem exists_head_toDigits (n : Nat) :
    ∃ d digits, Nat.toDigits 10 n = d :: digits ∧ d.isDigit = true := by
  cases hdigits : Nat.toDigits 10 n with
  | nil => exact absurd hdigits Nat.toDigits_ne_nil
  | cons d digits =>
      exact ⟨d, digits, rfl, Json.isDigit_of_mem (n := n) (hdigits ▸ List.mem_cons_self)⟩

/-- **A written value reads back**, up to the end of its line. -/
theorem value_written {v : PlainValue} (hv : v.Readable) (rest : List Char) :
    value (v.written ++ '\n' :: rest) = some (v.toValue, '\n' :: rest) := by
  cases v with
  | number n =>
      obtain ⟨d, digits, hdigits, hd⟩ := exists_head_toDigits n
      have hscalar := scalar_numeral hv rest
      rw [PlainValue.written, PlainValue.toValue, ← hscalar, hdigits]
      exact value_eq_scalar (Json.ne_of_isDigit hd rfl) (Json.ne_of_isDigit hd rfl)
  | truth b => cases b <;> rfl

/-- A value begins with no blank. -/
theorem blanks_written (v : PlainValue) (rest : List Char) :
    blanks (v.written ++ rest) = some ((), v.written ++ rest) := by
  cases v with
  | number n =>
      obtain ⟨d, digits, hdigits, hd⟩ := exists_head_toDigits n
      rw [PlainValue.written, hdigits]
      refine blanks_of_not_blank ?_
      simp [isBlank, Json.ne_of_isDigit hd (d := ' ') rfl, Json.ne_of_isDigit hd (d := '\t') rfl]
  | truth b => cases b <;> rfl

/-- A bare character is none of those that are not bare. -/
theorem ne_of_isBareChar {d : Char} (hc : isBareChar c = true) (hd : isBareChar d = false) :
    c ≠ d := by
  rintro rfl
  rw [hc] at hd
  cases hd

/-- No bare character is a blank. -/
theorem isBlank_of_isBareChar (hc : isBareChar c = true) : isBlank c = false := by
  simp [isBlank, ne_of_isBareChar hc (d := ' ') rfl, ne_of_isBareChar hc (d := '\t') rfl]

/-- Everything is read up to the first character that does not belong. -/
theorem many_eq {p : Char → Bool} {front : List Char} (hfront : ∀ c ∈ front, p c = true)
    (hc : p c = false) (rest : List Char) :
    many p (front ++ c :: rest) = some (front, c :: rest) := by
  have hstop : ¬ p c = true := by simp [hc]
  rw [many, List.takeWhile_append_of_pos hfront, List.dropWhile_append_of_pos hfront,
    List.takeWhile_cons_of_neg hstop, List.dropWhile_cons_of_neg hstop, List.append_nil]

/-- A bare key is read up to the blank behind it. -/
theorem keyPart_eq (hne : name.toList ≠ []) (hbare : ∀ c ∈ name.toList, isBareChar c = true)
    (rest : List Char) :
    keyPart (name.toList ++ ' ' :: rest) = some (name, ' ' :: rest) := by
  obtain ⟨c, cs, hname⟩ := List.exists_cons_of_ne_nil hne
  have hmany := many_eq hbare (c := ' ') (by decide) rest
  have hc : isBareChar c = true := hbare c (hname ▸ List.mem_cons_self)
  have hbasic := ne_of_isBareChar hc (d := '"') rfl
  have hliteral := ne_of_isBareChar hc (d := '\'') rfl
  have hpeek : peek (name.toList ++ ' ' :: rest) = some (some c, name.toList ++ ' ' :: rest) := by
    rw [hname]
    rfl
  have hnonempty : (!name.toList.isEmpty) = true := by simp [hname]
  rw [keyPart, bind_of_some hpeek]
  simp only [hbasic, hliteral, Option.some.injEq, imp_self]
  rw [bind_of_some hmany, hnonempty]
  change some (String.ofList name.toList, ' ' :: rest) = _
  rw [String.ofList_toList]

/-- A bare name is a key of one part. -/
theorem key_eq (hne : name.toList ≠ []) (hbare : ∀ c ∈ name.toList, isBareChar c = true)
    (rest : List Char) : key (name.toList ++ ' ' :: '=' :: rest) = some ([name], '=' :: rest) := by
  obtain ⟨c, cs, hname⟩ := List.exists_cons_of_ne_nil hne
  have hblanks : blanks (name.toList ++ ' ' :: '=' :: rest) =
      some ((), name.toList ++ ' ' :: '=' :: rest) := by
    rw [hname]
    exact blanks_of_not_blank (isBlank_of_isBareChar (hbare c (hname ▸ List.mem_cons_self)))
  rw [key, maxLevels, keyParts, bind_of_some hblanks, bind_of_some (keyPart_eq hne hbare _)]
  rfl

end

namespace Setting

variable {t : Setting} {table : Table}

/-- A setting is its name, an equals sign and its value, each behind a blank. -/
theorem written_append (t : Setting) (rest : List Char) :
    t.written ++ rest = t.name.toList ++ ' ' :: '=' :: ' ' :: (t.value.written ++ '\n' :: rest) := by
  simp [written]

/-- A written setting reads back as its key and its value. -/
theorem keyValue_eq (ht : t.Readable) (rest : List Char) :
    keyValue Toml.value (t.written ++ rest) = some (([t.name], t.value.toValue), '\n' :: rest) := by
  have hblanks : blanks (' ' :: (t.value.written ++ '\n' :: rest)) =
      some ((), t.value.written ++ '\n' :: rest) :=
    blanks_written t.value ('\n' :: rest)
  rw [written_append, keyValue, bind_of_some (key_eq ht.name_ne ht.bare _),
    bind_of_some (char_cons '=' _), bind_of_some hblanks, bind_of_some (value_written ht.value rest)]
  rfl

/-- The table that a setting leads to. -/
def into (table : Table) (t : Setting) : Table := table.put t.name (.value t.value.toValue)

/-- A setting gives its key a value, which must be a new one. -/
theorem pair_eq (ht : t.Readable) (hdotted : table.dotted = false)
    (hnew : table.get? t.name = none) (rest : List Char) :
    pair ⟨table, []⟩ (t.written ++ rest) = some (⟨into table t, []⟩, '\n' :: rest) := by
  have hassign : table.descend false (Table.assign [t.name] t.value.toValue) [] =
      some (into table t) := by
    rw [Table.descend, Table.assign]
    simp [Table.descend, Table.insertNew, hdotted, hnew, into]
  rw [pair, bind_of_some (keyValue_eq ht rest)]
  simp only [hassign]
  rfl

/-- A setting begins with a character of its key. -/
theorem exists_head_written (ht : t.Readable) (rest : List Char) :
    ∃ c s, t.written ++ rest = c :: s ∧ isBareChar c = true := by
  obtain ⟨c, cs, hname⟩ := List.exists_cons_of_ne_nil ht.name_ne
  exact ⟨c, _, by rw [written_append, hname, List.cons_append],
    ht.bare c (hname ▸ List.mem_cons_self)⟩

/-- A line with a setting that the table has not yet adds it to the table. -/
theorem line_eq (ht : t.Readable) (hdotted : table.dotted = false)
    (hnew : table.get? t.name = none) (rest : List Char) :
    line ⟨table, []⟩ (t.written ++ rest) = some (⟨into table t, []⟩, rest) := by
  obtain ⟨c, s, hs, hc⟩ := exists_head_written ht rest
  have hcomment := ne_of_isBareChar hc (d := '#') rfl
  have hfeed := ne_of_isBareChar hc (d := '\n') rfl
  have hreturn := ne_of_isBareChar hc (d := '\r') rfl
  have hheader := ne_of_isBareChar hc (d := '[') rfl
  have hpeek : peek (t.written ++ rest) = some (some c, t.written ++ rest) := by
    rw [hs]
    rfl
  have hend : restOfLine ('\n' :: rest) = some ((), rest) := rfl
  rw [line, bind_of_some hpeek]
  simp only [hcomment, hfeed, hreturn, hheader, Option.some.injEq, imp_self]
  rw [bind_of_some (pair_eq ht hdotted hnew rest), bind_of_some hend]
  rfl

end Setting

/-! ## Texts -/

/-- Putting an item under a key changes what the table has for that key and nothing else. -/
theorem Table.get?_put (t : Table) (k j : String) (i : Item) :
    (t.put k i).get? j = if j = k then some i else t.get? j := by
  have hfilter (items : List (String × Item)) (h : j ≠ k) :
      (items.filter (·.1 ≠ k)).lookup j = items.lookup j := by
    induction items with
    | nil => rfl
    | cons e items ih =>
        obtain ⟨key, item⟩ := e
        rw [List.filter_cons, List.lookup_cons]
        split
        · rw [List.lookup_cons, ih]
        · rename_i hkey
          have hne : (j == key) = false := by
            rw [beq_eq_false_iff_ne]
            rintro rfl
            exact hkey (decide_eq_true h)
          rw [ih, hne]
  rw [Table.get?, Table.put, List.lookup_cons]
  split
  · rename_i heq
    rw [if_pos (eq_of_beq heq)]
  · rename_i hne
    have hjk : j ≠ k := fun h => by simp [h] at hne
    rw [if_neg hjk]
    exact hfilter t.items hjk

/-- The table of settings. -/
def tableOf (settings : List Setting) : Table := settings.foldl Setting.into .root

/-- Settings with different names are read one after another into the table. -/
theorem lines_eq {settings : List Setting} (hread : ∀ t ∈ settings, t.Readable)
    (hnames : (settings.map (·.name)).Nodup) {table : Table} (hdotted : table.dotted = false)
    (hnew : ∀ t ∈ settings, table.get? t.name = none) {n : Nat} (hn : settings.length < n) :
    lines n ⟨table, []⟩ (settings.flatMap Setting.written) =
      some (⟨settings.foldl Setting.into table, []⟩, []) := by
  -- the keys to come are new in the table so far, and stay so because none stands there twice
  induction settings generalizing table n with
  | nil =>
      cases n with
      | zero => cases hn
      | succ n => rfl
  | cons t settings ih =>
      cases n with
      | zero => cases hn
      | succ n =>
          obtain ⟨ht, hread⟩ := List.forall_mem_cons.1 hread
          obtain ⟨hfresh, hnew⟩ := List.forall_mem_cons.1 hnew
          obtain ⟨hname, hnames⟩ := List.nodup_cons.1 hnames
          have hrest : ∀ u ∈ settings, (Setting.into table t).get? u.name = none := by
            intro u hu
            rw [Setting.into, Table.get?_put, if_neg, hnew u hu]
            exact fun h => hname (List.mem_map.2 ⟨u, hu, h⟩)
          have hstill : (Setting.into table t).dotted = false := hdotted
          obtain ⟨c, s, hs, hc⟩ := t.exists_head_written ht (settings.flatMap Setting.written)
          have hblanks := blanks_of_not_blank (s := s) (isBlank_of_isBareChar hc)
          rw [List.flatMap_cons, lines]
          rw [← hs] at hblanks
          have hpeek : peek (t.written ++ settings.flatMap Setting.written) =
              some (some c, t.written ++ settings.flatMap Setting.written) := by
            rw [hs]
            rfl
          rw [bind_of_some hblanks, bind_of_some hpeek, if_neg (by simp),
            bind_of_some (t.line_eq ht hdotted hfresh _)]
          exact ih hread hnames hstill hrest (Nat.lt_of_succ_lt_succ hn)

/-- Each setting is written with at least one character, so the fuel suffices. -/
theorem length_le_length_written (settings : List Setting) :
    settings.length ≤ (settings.flatMap Setting.written).length := by
  induction settings with
  | nil => exact Nat.le_refl 0
  | cons t settings ih =>
      rw [List.flatMap_cons, List.length_cons, List.length_append, Setting.written,
        List.length_append, List.length_singleton]
      omega

/-- **A text of settings is read as their table**, if no key stands there twice. -/
theorem parse?_settings {settings : List Setting} (hread : ∀ t ∈ settings, t.Readable)
    (hnames : (settings.map (·.name)).Nodup) :
    parse? (String.ofList (settings.flatMap Setting.written)) = some (tableOf settings) := by
  have hmark : withoutMark (settings.flatMap Setting.written) =
      settings.flatMap Setting.written := by
    cases settings with
    | nil => rfl
    | cons t settings =>
        obtain ⟨c, s, hs, hc⟩ :=
          t.exists_head_written (hread t List.mem_cons_self) (settings.flatMap Setting.written)
        have hne := ne_of_isBareChar hc (d := '\ufeff') rfl
        rw [List.flatMap_cons, hs, withoutMark]
        exact fun _ h => hne (List.cons.inj h).1
  have hlines : lines _ ⟨.root, []⟩ (settings.flatMap Setting.written) = _ :=
    lines_eq hread hnames rfl (fun _ _ => rfl)
      (Nat.lt_succ_of_le (length_le_length_written settings))
  rw [parse?, String.toList_ofList, hmark]
  rw [hlines]
  rfl

end Toml

end SharedPlan
