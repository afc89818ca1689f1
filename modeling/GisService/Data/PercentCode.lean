import GisService.Data.ByteString

/-! Percent encoding. A byte is written as itself, or as some other byte, or as
an escape of two hexadecimal digits. -/
namespace PercentCode

open ByteString

/-- Digits from ten on are written in upper case. -/
def hexDigit (n : Nat) : UInt8 := UInt8.ofNat (if n < 10 then 48 + n else 55 + n)

/-- Either case is read. -/
def hexValue (c : UInt8) : Option Nat :=
  if 48 ≤ c ∧ c ≤ 57 then some (c.toNat - 48)
  else if 65 ≤ c ∧ c ≤ 70 then some (c.toNat - 55)
  else if 97 ≤ c ∧ c ≤ 102 then some (c.toNat - 87)
  else none

def escape (c : UInt8) : Bytes := [37, hexDigit (c.toNat / 16), hexDigit (c.toNat % 16)]

/-- `write` says which byte stands for a byte, if not its escape. -/
def encode (write : UInt8 → Option UInt8) (s : Bytes) : Bytes :=
  s.flatMap fun c =>
    match write c with
    | some b => [b]
    | none => escape c

/-- `read` says what a byte outside of an escape stands for. -/
def decode (read : UInt8 → UInt8) : Bytes → Option Bytes
  | [] => some []
  | c :: rest =>
      if c = 37 then
        match rest with
        | a :: b :: rest =>
            match hexValue a, hexValue b with
            | some high, some low => (decode read rest).map (UInt8.ofNat (16 * high + low) :: ·)
            | _, _ => none
        | _ => none
      else (decode read rest).map (read c :: ·)

/-- What is written can be read, and is not taken for an escape. -/
def Readable (write : UInt8 → Option UInt8) (read : UInt8 → UInt8) : Prop :=
  ∀ c b, write c = some b → b ≠ 37 ∧ read b = c

/-- A digit is read as what it was written for. -/
theorem hexValue_hexDigit {n : Nat} (h : n < 16) : hexValue (hexDigit n) = some n := by
  revert n
  decide

variable {write : UInt8 → Option UInt8} {read : UInt8 → UInt8}

theorem encode_cons (c : UInt8) (s : Bytes) :
    encode write (c :: s) = encode write [c] ++ encode write s := by
  simp [encode]

/-- Texts are encoded piece by piece. -/
theorem encode_append (s t : Bytes) : encode write (s ++ t) = encode write s ++ encode write t :=
  List.flatMap_append

theorem encode_some {c b : UInt8} (h : write c = some b) : encode write [c] = [b] := by
  simp [encode, h]

theorem encode_none {c : UInt8} (h : write c = none) : encode write [c] = escape c := by
  simp [encode, h]

theorem decode_cons_of_ne {c : UInt8} (h : c ≠ 37) (rest : Bytes) :
    decode read (c :: rest) = (decode read rest).map (read c :: ·) := by
  rw [decode.eq_def]
  exact if_neg h

/-- An escape is decoded to its byte. -/
theorem decode_escape (c : UInt8) (rest : Bytes) :
    decode read (escape c ++ rest) = (decode read rest).map (c :: ·) := by
  have hBound := c.toNat_lt
  have hHigh := hexValue_hexDigit (show c.toNat / 16 < 16 by omega)
  have hLow := hexValue_hexDigit (show c.toNat % 16 < 16 by omega)
  have hByte : UInt8.ofNat (16 * (c.toNat / 16) + c.toNat % 16) = c := by
    rw [Nat.div_add_mod, UInt8.ofNat_toNat]
  rw [escape, List.cons_append, List.cons_append, List.cons_append, List.nil_append,
    decode.eq_def]
  simp only [if_true, hHigh, hLow, hByte]

/-- Reading undoes writing. -/
theorem decode_encode (h : Readable write read) (s : Bytes) :
    decode read (encode write s) = some s := by
  induction s with
  | nil => rfl
  | cons c s ih =>
      rw [encode_cons]
      cases hWrite : write c with
      | some b =>
          obtain ⟨hPercent, hRead⟩ := h c b hWrite
          rw [encode_some hWrite, List.singleton_append, decode_cons_of_ne hPercent, ih, hRead]
          rfl
      | none =>
          rw [encode_none hWrite, decode_escape, ih]
          rfl

/-- A text without an escape. -/
theorem decode_plain {text : Bytes} (h : (37 : UInt8) ∉ text) :
    decode read text = some (text.map read) := by
  induction text with
  | nil => rfl
  | cons c text ih =>
      obtain ⟨hHead, hRest⟩ := not_or.mp (mt List.mem_cons.mpr h)
      rw [decode_cons_of_ne (Ne.symm hHead), ih hRest]
      rfl

/-- A text without anything to escape is its own code. -/
theorem encode_plain {s : Bytes} (h : ∀ c ∈ s, write c = some c) : encode write s = s := by
  induction s with
  | nil => rfl
  | cons c s ih =>
      rw [encode_cons, encode_some (h c List.mem_cons_self),
        ih fun b hb => h b (List.mem_cons_of_mem _ hb)]
      rfl

/-- A property of all bytes that can be written holds throughout the text. -/
theorem forall_mem_encode {P : UInt8 → Prop} {s : Bytes}
    (hWrite : ∀ c ∈ s, ∀ b, write c = some b → P b) (hPercent : P 37)
    (hDigit : ∀ n < 16, P (hexDigit n)) : ∀ b ∈ encode write s, P b := by
  intro b hb
  obtain ⟨c, hc, hMem⟩ := List.mem_flatMap.mp hb
  have hBound := c.toNat_lt
  cases hByte : write c with
  | some other =>
      rw [hByte] at hMem
      exact List.mem_singleton.mp hMem ▸ hWrite c hc other hByte
  | none =>
      rw [hByte] at hMem
      simp only [escape, List.mem_cons, List.not_mem_nil, or_false] at hMem
      rcases hMem with rfl | rfl | rfl
      · exact hPercent
      · exact hDigit _ (by omega)
      · exact hDigit _ (by omega)

theorem encode_ne_nil {s : Bytes} (h : s ≠ []) : encode write s ≠ [] := by
  intro hNil
  obtain ⟨c, rest, rfl⟩ := List.exists_cons_of_ne_nil h
  rw [encode_cons, List.append_eq_nil_iff] at hNil
  cases hWrite : write c with
  | some b => simp [encode_some hWrite] at hNil
  | none => simp [encode_none hWrite, escape] at hNil

end PercentCode
