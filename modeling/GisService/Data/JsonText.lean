import GisService.Data.Json

/-! What the JSON reader accepts: texts without NUL bytes, and the values whose
texts a writer has assembled piece by piece. -/
namespace Json

open ByteString

/-- Reading got from `input` to `rest` over bytes other than NUL. -/
def Consumed (input rest : Bytes) : Prop := ∃ used, input = used ++ rest ∧ (0 : UInt8) ∉ used

namespace Consumed

theorem refl (input : Bytes) : Consumed input input := ⟨[], by simp⟩

theorem cons {ch : UInt8} {input rest : Bytes} (hCh : ch ≠ 0) (h : Consumed input rest) :
    Consumed (ch :: input) rest := by
  obtain ⟨used, rfl, hUsed⟩ := h
  exact ⟨ch :: used, rfl, by simp [hCh.symm, hUsed]⟩

theorem trans {input middle rest : Bytes} (left : Consumed input middle)
    (right : Consumed middle rest) : Consumed input rest := by
  obtain ⟨used, rfl, hUsed⟩ := left
  obtain ⟨more, rfl, hMore⟩ := right
  exact ⟨used ++ more, by simp, by simp [hUsed, hMore]⟩

theorem dropWhile {p : UInt8 → Bool} (hZero : p 0 = false) (input : Bytes) :
    Consumed input (input.dropWhile p) := by
  refine ⟨input.takeWhile p, List.takeWhile_append_dropWhile.symm, fun h => ?_⟩
  simpa [hZero] using List.mem_takeWhile_imp h

end Consumed

/-- A reader that never passes a NUL. -/
def ZeroFree {α : Type} (read : Bytes → Option (α × Bytes)) : Prop :=
  ∀ input result rest, read input = some (result, rest) → Consumed input rest

theorem ZeroFree.of_map {α β : Type} {read : Bytes → Option (α × Bytes)} (h : ZeroFree read)
    {f : α × Bytes → β × Bytes} {input rest : Bytes} {result : β}
    (hRead : (read input).map f = some (result, rest)) (hf : ∀ p, (f p).2 = p.2) :
    Consumed input rest := by
  obtain ⟨⟨inner, rest'⟩, hInner, hEq⟩ := Option.map_eq_some_iff.mp hRead
  have hRest := hf (inner, rest')
  rw [hEq] at hRest
  obtain rfl : rest = rest' := hRest
  exact h _ _ _ hInner

/-- Blanks are passed without a NUL among them. -/
theorem consumed_skipSpace (input : Bytes) : Consumed input (skipSpace input) :=
  .dropWhile rfl input

theorem consumed_expect {ch : UInt8} (hCh : ch ≠ 0) {input rest : Bytes}
    (h : expect ch input = some rest) : Consumed input rest := by
  refine (consumed_skipSpace input).trans ?_
  unfold expect at h
  cases hSkip : skipSpace input with
  | nil => simp [hSkip] at h
  | cons next text =>
      simp only [hSkip, Option.ite_none_right_eq_some, Option.some.injEq] at h
      obtain ⟨rfl, rfl⟩ := h
      exact .cons hCh (.refl text)

theorem consumed_expectText {pattern : Bytes} (hPattern : (0 : UInt8) ∉ pattern) {input rest : Bytes}
    (h : expectText pattern input = some rest) : Consumed input rest := by
  simp only [expectText, Option.ite_none_right_eq_some, Option.some.injEq] at h
  obtain ⟨⟨text, rfl⟩, hRest⟩ := h
  rw [List.drop_left] at hRest
  exact ⟨pattern, by rw [hRest], hPattern⟩

theorem zeroFree_readDigits : ZeroFree readDigits := by
  intro input digits rest h
  simp only [readDigits, Option.ite_none_left_eq_some, Option.some.injEq, Prod.mk.injEq] at h
  obtain ⟨-, -, rfl⟩ := h
  exact .dropWhile rfl input

theorem zeroFree_readInteger : ZeroFree readInteger := by
  intro input digits rest h
  cases input with
  | nil => simp [readInteger] at h
  | cons ch input =>
      rw [readInteger] at h
      split at h
      · next hCh =>
          simp only [Option.some.injEq, Prod.mk.injEq] at h
          obtain ⟨-, rfl⟩ := h
          exact .cons (by rw [hCh]; decide) (.refl _)
      · exact zeroFree_readDigits _ _ _ h

theorem zeroFree_readFraction : ZeroFree readFraction := by
  intro input digits rest h
  cases input with
  | nil =>
      simp only [readFraction, Option.some.injEq, Prod.mk.injEq] at h
      obtain ⟨-, rfl⟩ := h
      exact .refl _
  | cons ch input =>
      rw [readFraction] at h
      split at h
      · next hCh =>
          exact .cons (by rw [hCh]; decide) (zeroFree_readDigits.of_map h fun _ => rfl)
      · simp only [Option.some.injEq, Prod.mk.injEq] at h
        obtain ⟨-, rfl⟩ := h
        exact .refl _

theorem zeroFree_readExponent : ZeroFree readExponent := by
  intro input digits rest h
  cases input with
  | nil =>
      simp only [readExponent, Option.some.injEq, Prod.mk.injEq] at h
      obtain ⟨-, rfl⟩ := h
      exact .refl _
  | cons ch input =>
      rw [readExponent.eq_def] at h
      dsimp only at h
      split at h
      · next hCh =>
          have hZero : ch ≠ 0 := by rcases hCh with rfl | rfl <;> decide
          refine .cons hZero ?_
          cases input with
          | nil => simp at h
          | cons sign more =>
              dsimp only at h
              split at h
              · next hSign =>
                  have hSignZero : sign ≠ 0 := by rcases hSign with rfl | rfl <;> decide
                  exact .cons hSignZero (zeroFree_readDigits.of_map h fun _ => rfl)
              · exact zeroFree_readDigits.of_map h fun _ => rfl
      · simp only [Option.some.injEq, Prod.mk.injEq] at h
        obtain ⟨-, rfl⟩ := h
        exact .refl _

theorem zeroFree_readUnsigned : ZeroFree readUnsigned := by
  intro input literal rest h
  simp only [readUnsigned, Option.bind_eq_bind, Option.bind_eq_some_iff, Prod.exists,
    Option.pure_def, Option.some.injEq, Prod.mk.injEq] at h
  obtain ⟨whole, input₁, hWhole, fraction, input₂, hFraction, exponent, input₃, hExponent, -, rfl⟩ := h
  exact (zeroFree_readInteger _ _ _ hWhole).trans
    ((zeroFree_readFraction _ _ _ hFraction).trans (zeroFree_readExponent _ _ _ hExponent))

/-- No part of a number is a NUL. -/
theorem zeroFree_readNumber : ZeroFree readNumber := by
  intro input literal rest h
  cases input with
  | nil => simp [readNumber] at h
  | cons ch input =>
      rw [readNumber] at h
      split at h
      · next hCh => exact .cons (by rw [hCh]; decide) (zeroFree_readUnsigned.of_map h fun _ => rfl)
      · exact zeroFree_readUnsigned _ _ _ h

theorem hexValue_zero : hexValue 0 = none := rfl

theorem zeroFree_readHex : ZeroFree readHex := by
  intro input n rest h
  match input with
  | a :: b :: c :: d :: input =>
      simp only [readHex, Option.bind_eq_bind, Option.bind_eq_some_iff, Option.pure_def,
        Option.some.injEq, Prod.mk.injEq] at h
      obtain ⟨a', ha, b', hb, c', hc, d', hd, -, rfl⟩ := h
      have hDigit {hex : UInt8} {v : Nat} (hv : hexValue hex = some v) : hex ≠ 0 := by
        rintro rfl
        simp [hexValue_zero] at hv
      exact .cons (hDigit ha) (.cons (hDigit hb) (.cons (hDigit hc) (.cons (hDigit hd) (.refl _))))
  | [] | [_] | [_, _] | [_, _, _] => simp [readHex] at h

theorem zeroFree_readCodePoint : ZeroFree readCodePoint := by
  intro input n rest h
  simp only [readCodePoint, Option.bind_eq_bind, Option.bind_eq_some_iff, Prod.exists] at h
  obtain ⟨unit, input₁, hUnit, h⟩ := h
  refine (zeroFree_readHex _ _ _ hUnit).trans ?_
  split at h
  · simp only [Option.bind_eq_some_iff, Prod.exists] at h
    obtain ⟨input₂, hEscape, second, input₃, hSecond, h⟩ := h
    simp only [Option.pure_def, Option.ite_none_right_eq_some, Option.some.injEq, Prod.mk.injEq] at h
    obtain ⟨-, -, rfl⟩ := h
    exact (consumed_expectText (by decide) hEscape).trans (zeroFree_readHex _ _ _ hSecond)
  · simp only [Option.pure_def, Option.ite_none_left_eq_some, Option.some.injEq, Prod.mk.injEq] at h
    obtain ⟨-, -, rfl⟩ := h
    exact .refl _

theorem zeroFree_readEscape : ZeroFree readEscape := by
  intro input c rest h
  cases input with
  | nil => simp [readEscape] at h
  | cons ch input =>
      rw [readEscape] at h
      split at h
      · next hCh =>
          exact .cons (by rw [hCh]; decide) (zeroFree_readCodePoint.of_map h fun _ => rfl)
      · obtain ⟨v, hv, hEq⟩ := Option.map_eq_some_iff.mp h
        simp only [Prod.mk.injEq] at hEq
        obtain ⟨-, rfl⟩ := hEq
        have hNone : simpleEscape 0 = none := by decide
        refine .cons ?_ (.refl _)
        rintro rfl
        simp [hNone] at hv

theorem zeroFree_readChars (fuel : Nat) : ZeroFree (readChars fuel) := by
  induction fuel with
  | zero => intro input s rest h; simp [readChars] at h
  | succ fuel ih =>
      intro input s rest h
      cases input with
      | nil => simp [readChars] at h
      | cons ch input =>
          rw [readChars] at h
          split at h
          · next hCh =>
              simp only [Option.some.injEq, Prod.mk.injEq] at h
              obtain ⟨-, rfl⟩ := h
              exact .cons (by rw [hCh]; decide) (.refl _)
          · split at h
            · simp at h
            · next hControl =>
                have hZero : ch ≠ 0 := by
                  rintro rfl
                  exact hControl (by decide)
                refine .cons hZero ?_
                split at h
                · simp only [Option.bind_eq_bind, Option.bind_eq_some_iff, Prod.exists,
                    Option.pure_def, Option.some.injEq, Prod.mk.injEq] at h
                  obtain ⟨front, input₁, hEscape, back, input₂, hBack, -, rfl⟩ := h
                  exact (zeroFree_readEscape _ _ _ hEscape).trans (ih _ _ _ hBack)
                · simp only [Option.bind_eq_bind, Option.bind_eq_some_iff, Prod.exists,
                    Option.pure_def, Option.some.injEq, Prod.mk.injEq] at h
                  obtain ⟨back, input₁, hBack, -, rfl⟩ := h
                  exact ih _ _ _ hBack

/-- A NUL would end a string, since it cannot stand in one. -/
theorem zeroFree_readString : ZeroFree readString :=
  fun input s rest h => zeroFree_readChars _ input s rest h

theorem consumed_literal {pattern : Bytes} (hPattern : (0 : UInt8) ∉ pattern) {v w : Json}
    {input rest : Bytes}
    (h : (expectText pattern input).map (fun rest => (v, rest)) = some (w, rest)) :
    Consumed input rest := by
  obtain ⟨text, hText, hEq⟩ := Option.map_eq_some_iff.mp h
  obtain rfl := (Prod.mk.inj hEq).2
  exact consumed_expectText hPattern hText

/-- An object or an array behind its opening bracket. -/
theorem consumed_bracket {α : Type} {close : UInt8} (hClose : close ≠ 0)
    {read : Bytes → Option (α × Bytes)} (hRead : ZeroFree read) {f : α × Bytes → Json × Bytes}
    (hf : ∀ p, (f p).2 = p.2) {empty v : Json} {input rest : Bytes}
    (h : (match expect close input with
      | some rest => some (empty, rest)
      | none => (read input).map f) = some (v, rest)) : Consumed input rest := by
  cases hExpect : expect close input with
  | some text =>
      simp only [hExpect, Option.some.injEq, Prod.mk.injEq] at h
      obtain ⟨-, rfl⟩ := h
      exact consumed_expect hClose hExpect
  | none =>
      simp only [hExpect] at h
      exact hRead.of_map h hf

/-- The three readers of nested values, all with the same fuel. -/
theorem zeroFree_nested (fuel : Nat) :
    ZeroFree (readValue fuel) ∧ ZeroFree (readItems fuel) ∧ ZeroFree (readMembers fuel) := by
  induction fuel with
  | zero =>
      refine ⟨?_, ?_, ?_⟩ <;> intro input result rest h <;>
        simp [readValue, readItems, readMembers] at h
  | succ fuel ih =>
      obtain ⟨hValue, hItems, hMembers⟩ := ih
      refine ⟨?_, ?_, ?_⟩
      · intro input v rest h
        refine (consumed_skipSpace input).trans ?_
        rw [readValue] at h
        cases hSkip : skipSpace input with
        | nil => simp [hSkip] at h
        | cons ch input =>
            simp only [hSkip] at h
            split at h
            · next hCh => exact .cons (by rw [hCh]; decide) (zeroFree_readString.of_map h fun _ => rfl)
            split at h
            · next hCh =>
                exact .cons (by rw [hCh]; decide)
                  (consumed_bracket (by decide) hMembers (fun _ => rfl) h)
            split at h
            · next hCh =>
                exact .cons (by rw [hCh]; decide)
                  (consumed_bracket (by decide) hItems (fun _ => rfl) h)
            split at h
            · next hCh => exact .cons (by rw [hCh]; decide) (consumed_literal (by decide) h)
            split at h
            · next hCh => exact .cons (by rw [hCh]; decide) (consumed_literal (by decide) h)
            split at h
            · next hCh => exact .cons (by rw [hCh]; decide) (consumed_literal (by decide) h)
            exact zeroFree_readNumber.of_map h fun _ => rfl
      · intro input items rest h
        simp only [readItems, Option.bind_eq_bind, Option.bind_eq_some_iff, Prod.exists] at h
        obtain ⟨v, input₁, hRead, h⟩ := h
        refine (hValue _ _ _ hRead).trans ?_
        cases hComma : expect 44 input₁ with
        | some input₂ =>
            simp only [hComma] at h
            exact (consumed_expect (by decide) hComma).trans (hItems.of_map h fun _ => rfl)
        | none =>
            simp only [hComma] at h
            obtain ⟨text, hEnd, hEq⟩ := Option.map_eq_some_iff.mp h
            obtain rfl := (Prod.mk.inj hEq).2
            exact consumed_expect (by decide) hEnd
      · intro input members rest h
        simp only [readMembers, Option.bind_eq_bind, Option.bind_eq_some_iff, Prod.exists] at h
        obtain ⟨input₁, hQuote, name, input₂, hName, input₃, hColon, v, input₄, hRead, h⟩ := h
        refine (consumed_expect (by decide) hQuote).trans ((zeroFree_readString _ _ _ hName).trans
          ((consumed_expect (by decide) hColon).trans ((hValue _ _ _ hRead).trans ?_)))
        cases hComma : expect 44 input₄ with
        | some input₅ =>
            simp only [hComma] at h
            exact (consumed_expect (by decide) hComma).trans (hMembers.of_map h fun _ => rfl)
        | none =>
            simp only [hComma] at h
            obtain ⟨text, hEnd, hEq⟩ := Option.map_eq_some_iff.mp h
            obtain rfl := (Prod.mk.inj hEq).2
            exact consumed_expect (by decide) hEnd

/-- A JSON text contains no NUL. -/
theorem zero_not_mem_of_parse {text : Bytes} {v : Json} (h : parse text = some v) :
    (0 : UInt8) ∉ text := by
  unfold parse at h
  cases hRead : readValue (2 * text.length + 2) text with
  | none => simp [hRead] at h
  | some result =>
      obtain ⟨v, rest⟩ := result
      simp only [hRead, Option.ite_none_right_eq_some] at h
      obtain ⟨used, rfl, hUsed⟩ :=
        ((zeroFree_nested _).1 _ _ _ hRead).trans (consumed_skipSpace rest)
      simpa [h.1] using hUsed

end Json
