import SharedPlan.Json.Text

/-!
# SharedPlan.Proofs.Json.Text

String bodies are texts again.

A character is written in one of three ways (`Json.Spelled`): as a short escape, as the
four digits of a control character, or as itself.  Reading takes each of them back, so a
text that is written as a body is read as the same text (`decode_encode`).
-/

namespace SharedPlan

namespace Json

/-! ## How characters are written -/

/-- The ways of writing a character. -/
inductive Spelled (c : Char) : List Char → Prop
  | short {e : Char} : shortEscape? e = some c → Spelled c ['\\', e]
  | control : c < ' ' →
      Spelled c ['\\', 'u', '0', '0', hexDigit (c.toNat / 16), hexDigit (c.toNat % 16)]
  | plain : c ≠ '\\' → c ≠ '"' → ¬c < ' ' → Spelled c [c]

/-- Every character is spelled by what is written for it. -/
theorem spelled_encodeChar (c : Char) : Spelled c (encodeChar c) := by
  unfold encodeChar
  split
  any_goals exact .short rfl
  rename_i hquote hbackslash _ _ _ _ _
  split
  · rename_i hc
    exact .control hc
  · rename_i hc
    exact .plain hbackslash hquote hc

/-! ## Reading them back -/

theorem hexValue?_hexDigit : ∀ n < 16, hexValue? (hexDigit n) = some n := by decide

/-- The two digits of a control character read back as its number. -/
theorem hexUnit?_control {c : Char} (hc : c < ' ') :
    hexUnit? '0' '0' (hexDigit (c.toNat / 16)) (hexDigit (c.toNat % 16)) = some c.toNat := by
  have hlt : c.toNat < 32 := hc
  have hzero : hexValue? '0' = some 0 := by decide
  have hhigh := hexValue?_hexDigit (c.toNat / 16) (by omega)
  have hlow := hexValue?_hexDigit (c.toNat % 16) (by omega)
  simp only [hexUnit?, hzero, hhigh, hlow, bind, Option.bind, pure, Option.some.injEq]
  omega

/-- A short escape stands for its character. -/
theorem decode_short {c d : Char} (h : shortEscape? c = some d) (rest : List Char) :
    decode ('\\' :: c :: rest) = (decode rest).map (d :: ·) := by
  have hu : c ≠ 'u' := by
    rintro rfl
    cases h
  rw [decode]
  · rw [h]
    cases decode rest <;> rfl
  · intro _ _ _ _ _ hc
    exact absurd hc hu

/-- A control character is read from its number. -/
theorem decode_control {c : Char} (hc : c < ' ') (rest : List Char) :
    decode ('\\' :: 'u' :: '0' :: '0' :: hexDigit (c.toNat / 16) :: hexDigit (c.toNat % 16) ::
      rest) = (decode rest).map (c :: ·) := by
  have hlow : c.toNat < 0xD800 ∨ 0xDFFF < c.toNat := by
    have hlt : c.toNat < 32 := hc
    omega
  rw [decode, hexUnit?_control hc]
  simp only [bind, Option.bind, if_pos hlow, Char.ofNat_toNat]
  cases decode rest <;> rfl

/-- Any other character stands for itself. -/
theorem decode_plain {c : Char} (hbackslash : c ≠ '\\') (hquote : c ≠ '"') (hc : ¬c < ' ')
    (rest : List Char) : decode (c :: rest) = (decode rest).map (c :: ·) := by
  rw [decode]
  · simp only [hbackslash, hquote, hc, or_self, if_false]
    cases decode rest <;> rfl
  · intro _ _ _ _ _ h
    exact absurd h hbackslash
  · intro _ _ h
    exact absurd h hbackslash

/-- **A spelling reads back as its character**, whatever follows. -/
theorem Spelled.decode {c : Char} {body : List Char} (h : Spelled c body) (rest : List Char) :
    decode (body ++ rest) = (decode rest).map (c :: ·) := by
  cases h with
  | short h => exact decode_short h rest
  | control hc => exact decode_control hc rest
  | plain hbackslash hquote hc => exact decode_plain hbackslash hquote hc rest

/-- **A text that is written is read as the same text.** -/
@[simp] theorem decode_encode (text : List Char) : decode (encode text) = some text := by
  induction text with
  | nil => rfl
  | cons c rest ih =>
      have hcons : encode (c :: rest) = encodeChar c ++ encode rest := rfl
      rw [hcons, (spelled_encodeChar c).decode, ih, Option.map_some]

end Json

end SharedPlan
