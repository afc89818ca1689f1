import GisService.Jwt.Base
import Mathlib.Tactic.IntervalCases

/-! `decode ∘ pad` undoes `trim ∘ encode`, and more generally accepts exactly
the unpadded digit strings that do not leave a single digit over. -/
namespace Jwt

open ByteString Cxx

/-- The unpadded text of a digit string. -/
abbrev urlText (digits : List (Fin 64)) : Bytes := digits.map base64url.symbol

/-- The alphabet is searched for each digit. -/
theorem getSextet_symbol (digit : Fin 64) :
    getSextet base64url (base64url.symbol digit) = .ok digit := by
  revert digit
  decide +kernel

/-- Neither the fill's percent sign nor the token separator is a symbol. -/
theorem symbol_ne (digit : Fin 64) :
    base64url.symbol digit ≠ 37 ∧ base64url.symbol digit ≠ 46 := by
  revert digit
  decide +kernel

/-- The padding `%3d` cannot be taken for digits. -/
theorem percent_not_mem_urlText (digits : List (Fin 64)) : (37 : UInt8) ∉ urlText digits := by
  intro h
  obtain ⟨digit, -, hEq⟩ := List.mem_map.mp h
  exact (symbol_ne digit).1 hEq

theorem dot_not_mem_urlText (digits : List (Fin 64)) : (46 : UInt8) ∉ urlText digits := by
  intro h
  obtain ⟨digit, -, hEq⟩ := List.mem_map.mp h
  exact (symbol_ne digit).2 hEq

section Encoding

theorem sextet_val (triple shift : Nat) :
    (sextet triple shift).val = triple / 2 ^ shift % 64 := by
  simp only [sextet, Nat.shiftRight_eq_div_pow]
  exact Nat.and_two_pow_sub_one_eq_mod _ 6

/-- A digit cut out of three packed bytes, as a quotient and a remainder. -/
theorem sextet_octets (a b c : UInt8) (shift : Nat) (digit : Fin 64)
    (h : (a.toNat * 65536 + b.toNat * 256 + c.toNat) / 2 ^ shift % 64 = digit.val) :
    sextet (octets a b c) shift = digit := by
  apply Fin.ext
  rw [sextet_val, ← h]
  simp [octets, Nat.shiftLeft_eq]

/-- The fills that `encode` appends. -/
def encodeFill (A : Alphabet) (bin : Bytes) : Bytes :=
  match bin.length % 3 with
  | 1 => A.fill ++ A.fill
  | 2 => A.fill
  | _ => []

/-- The shifts and masks of `encode` regroup bytes into six-bit digits. -/
theorem encode_eq (A : Alphabet) (bin : Bytes) :
    encode A bin = (Sextet.ofBytes bin).map A.symbol ++ encodeFill A bin := by
  fun_induction encode A bin with
  | case1 a b c bin triple ih =>
      have ha := a.toNat_lt
      have hb := b.toNat_lt
      have hc := c.toNat_lt
      have hFill : encodeFill A (a :: b :: c :: bin) = encodeFill A bin := by
        simp [encodeFill, Nat.add_assoc]
      rw [ih, hFill, Sextet.ofBytes, List.map_cons, List.map_cons, List.map_cons, List.map_cons]
      congr 2
      · exact sextet_octets a b c _ _ (by simp only; omega)
      congr 2
      · exact sextet_octets a b c _ _ (by simp only; omega)
      congr 2
      · exact sextet_octets a b c _ _ (by simp only; omega)
      congr 2
      exact sextet_octets a b c _ _ (by simp only; omega)
  | case2 a b triple =>
      have ha := a.toNat_lt
      have hb := b.toNat_lt
      change A.symbol _ :: A.symbol _ :: A.symbol _ :: A.fill =
        A.symbol _ :: A.symbol _ :: A.symbol _ :: A.fill
      congr 1
      · apply congrArg A.symbol
        exact sextet_octets a b 0 _ _ (by simp only [UInt8.toNat_zero]; omega)
      congr 1
      · apply congrArg A.symbol
        exact sextet_octets a b 0 _ _ (by simp only [UInt8.toNat_zero]; omega)
      apply congrArg (A.symbol · :: A.fill)
      exact sextet_octets a b 0 _ _ (by simp only [UInt8.toNat_zero]; omega)
  | case3 a triple =>
      have ha := a.toNat_lt
      change A.symbol _ :: A.symbol _ :: (A.fill ++ A.fill) =
        A.symbol _ :: A.symbol _ :: (A.fill ++ A.fill)
      congr 1
      · apply congrArg A.symbol
        exact sextet_octets a 0 0 _ _ (by simp only [UInt8.toNat_zero]; omega)
      apply congrArg (A.symbol · :: (A.fill ++ A.fill))
      exact sextet_octets a 0 0 _ _ (by simp only [UInt8.toNat_zero]; omega)
  | case4 => rfl

/-- A text is cut at its first padding. -/
theorem trim_append_fill {text : Bytes} (h : (37 : UInt8) ∉ text) (more : Bytes) :
    trim base64url (text ++ (base64url.fill ++ more)) = text := by
  have hFind : find base64url.fill (text ++ (base64url.fill ++ more)) = some text.length :=
    find_append h more
  rw [trim, hFind]
  exact List.take_left

theorem trim_eq_self {text : Bytes} (h : (37 : UInt8) ∉ text) : trim base64url text = text := by
  have hFind : find base64url.fill text = none := by
    rw [← Option.not_isSome_iff_eq_none, find_isSome_iff]
    intro hInfix
    exact h (hInfix.subset (by decide))
  rw [trim, hFind]

/-- The alphabet has no percent sign, so `trim` cuts exactly the fills off. -/
theorem trim_encode (bin : Bytes) :
    trim base64url (encode base64url bin) = urlText (Sextet.ofBytes bin) := by
  have hText := percent_not_mem_urlText (Sextet.ofBytes bin)
  rw [encode_eq]
  unfold encodeFill
  split
  · exact trim_append_fill hText _
  · simpa using trim_append_fill hText []
  · simpa using trim_eq_self hText

end Encoding

section Decoding

/-- One of three packed bytes, as a quotient. -/
theorem octet_eq (triple shift : Nat) : octet triple shift = UInt8.ofNat (triple / 2 ^ shift) := by
  rw [octet, Nat.shiftRight_eq_div_pow, Nat.and_two_pow_sub_one_eq_mod _ 8]
  exact UInt8.ofNat_mod_size

/-- The complete groups of a digit string decode to its bytes. -/
theorem decodeFast_urlText (digits : List (Fin 64)) (h : digits.length % 4 = 0) :
    decodeFast base64url (urlText digits) = .ok (Sextet.toBytes digits) := by
  fun_induction Sextet.toBytes digits with
  | case1 p q r s rest ih =>
      have hp := p.isLt
      have hq := q.isLt
      have hr := r.isLt
      have hs := s.isLt
      have hRest : rest.length % 4 = 0 := by
        simp only [List.length_cons] at h
        omega
      have hByte (shift : Nat) (n : Nat)
          (hn : (p.val * 262144 + q.val * 4096 + r.val * 64 + s.val) / 2 ^ shift % 256 = n % 256) :
          octet ((p.val <<< (3 * 6)) + (q.val <<< (2 * 6)) + (r.val <<< (1 * 6)) +
            (s.val <<< (0 * 6))) shift = UInt8.ofNat n := by
        rw [octet_eq]
        apply UInt8.toNat_inj.mp
        simpa [Nat.shiftLeft_eq] using hn
      simp only [List.map_cons, decodeFast, getSextet_symbol, ih hRest]
      change Except.ok _ = Except.ok _
      rw [hByte (2 * 8) (p.val * 4 + q.val / 16) (by omega),
        hByte (1 * 8) (q.val % 16 * 16 + r.val / 4) (by omega),
        hByte (0 * 8) (r.val % 4 * 64 + s.val) (by omega)]
  | case2 p q r => simp at h
  | case3 p q => simp at h
  | case4 p => simp at h
  | case5 => rfl

/-- Three digits hold two bytes. -/
theorem decodeTail_three (p q r : Fin 64) :
    decodeTail base64url 1 (urlText [p, q, r]) = .ok (Sextet.toBytes [p, q, r]) := by
  have hp := p.isLt
  have hq := q.isLt
  have hr := r.isLt
  -- The third digit lies below the bits of the first two, so the or is a sum.
  have hOr : (((p.val <<< (3 * 6)) + (q.val <<< (2 * 6))) ||| (r.val <<< (1 * 6))) =
      p.val * 262144 + q.val * 4096 + r.val * 64 := by
    have hLow : r.val <<< 6 < 2 ^ 12 := by
      simp only [Nat.shiftLeft_eq]
      omega
    have hHigh : (p.val <<< 18) + (q.val <<< 12) = (p.val * 64 + q.val) <<< 12 := by
      simp only [Nat.shiftLeft_eq]
      omega
    change ((p.val <<< 18) + (q.val <<< 12)) ||| (r.val <<< 6) = _
    rw [hHigh, ← Nat.shiftLeft_add_eq_or_of_lt hLow]
    simp only [Nat.shiftLeft_eq]
    omega
  simp only [List.map_cons, List.map_nil, decodeTail, getSextet_symbol, Sextet.toBytes]
  change Except.ok _ = Except.ok _
  rw [hOr, octet_eq, octet_eq]
  congr 2
  · apply UInt8.toNat_inj.mp
    simp only [UInt8.toNat_ofNat']
    omega
  congr 1
  apply UInt8.toNat_inj.mp
  simp only [UInt8.toNat_ofNat']
  omega

/-- Two digits hold one byte. -/
theorem decodeTail_two (p q : Fin 64) :
    decodeTail base64url 2 (urlText [p, q]) = .ok (Sextet.toBytes [p, q]) := by
  have hp := p.isLt
  have hq := q.isLt
  simp only [List.map_cons, List.map_nil, decodeTail, getSextet_symbol, Sextet.toBytes]
  change Except.ok _ = Except.ok _
  rw [octet_eq]
  congr 2
  apply UInt8.toNat_inj.mp
  simp only [UInt8.toNat_ofNat', Nat.shiftLeft_eq]
  omega

/-- Each padding at the end is counted, as long as there is room. -/
theorem stripFill_append (fill : Bytes) (room : Nat) {text : Bytes} (hText : text ≠ []) :
    stripFill fill (room + 1) (text ++ fill) =
      (stripFill fill room text).map fun result => (result.1, result.2 + 1) := by
  have hPos : 0 < text.length := List.length_pos_of_ne_nil hText
  have hCond : fill.length < (text ++ fill).length ∧
      (text ++ fill).drop ((text ++ fill).length - fill.length) = fill := by
    simp [hPos]
  rw [stripFill, if_pos hCond]
  simp only [List.length_append, Nat.add_sub_cancel, List.take_left]
  rfl

/-- More padding than there is room for is refused. -/
theorem stripFill_zero_append (fill : Bytes) {text : Bytes} (hText : text ≠ []) :
    stripFill fill 0 (text ++ fill) = .error .runtimeError := by
  have hPos : 0 < text.length := List.length_pos_of_ne_nil hText
  have hCond : fill.length < (text ++ fill).length ∧
      (text ++ fill).drop ((text ++ fill).length - fill.length) = fill := by
    simp [hPos]
  rw [stripFill, if_pos hCond]

/-- Digits are not taken for padding. -/
theorem stripFill_urlText (room : Nat) (digits : List (Fin 64)) :
    stripFill base64url.fill room (urlText digits) = .ok (urlText digits, 0) := by
  rw [stripFill.eq_def, if_neg]
  rintro ⟨-, hSuffix⟩
  apply percent_not_mem_urlText digits
  have hMem : (37 : UInt8) ∈ base64url.fill := by decide
  rw [← hSuffix] at hMem
  exact List.mem_of_mem_drop hMem

/-- Whole groups are decoded first, and then the rest. -/
theorem decodeStripped_urlText (front back : List (Fin 64)) (fillCnt : Nat)
    (hFront : front.length % 4 = 0) (hBack : back.length < 4)
    (hCount : (back.length + fillCnt) % 4 = 0) :
    decodeStripped base64url (urlText (front ++ back)) fillCnt =
      (decodeTail base64url fillCnt (urlText back)).map (Sextet.toBytes front ++ ·) := by
  have hText : urlText (front ++ back) = urlText front ++ urlText back := List.map_append
  have hFrontLength : (urlText front).length = front.length := List.length_map _
  have hLength : (urlText (front ++ back)).length = front.length + back.length := by simp
  have hSize : (urlText (front ++ back)).length - (urlText (front ++ back)).length % 4 =
      (urlText front).length := by omega
  rw [decodeStripped, if_neg (by omega)]
  simp only [hSize]
  rw [hText, List.take_left, List.drop_left, decodeFast_urlText front hFront]
  rfl

/-- A digit string is decoded to its bytes, and rejected exactly when it
leaves a single digit over: `pad` then appends three fills, one too many. -/
theorem decode_pad_urlText (digits : List (Fin 64)) :
    decode base64url (pad base64url (urlText digits)) =
      if digits.length % 4 = 1 then .error .runtimeError else .ok (Sextet.toBytes digits) := by
  -- Separate the complete groups from the last, incomplete one.
  obtain ⟨front, back, rfl, hFront, hBack⟩ : ∃ front back, digits = front ++ back ∧
      front.length % 4 = 0 ∧ back.length < 4 := by
    refine ⟨digits.take (digits.length - digits.length % 4),
      digits.drop (digits.length - digits.length % 4), (List.take_append_drop _ _).symm, ?_, ?_⟩
    · rw [List.length_take]
      omega
    · rw [List.length_drop]
      omega
  have hMod : (front ++ back).length % 4 = back.length := by
    rw [List.length_append]
    omega
  have hPadMod : (urlText (front ++ back)).length % 4 = back.length := by
    rw [List.length_map, hMod]
  rw [hMod, Sextet.toBytes_append front back hFront, pad, hPadMod]
  match back, hBack with
  | [], _ =>
      change (stripFill base64url.fill 2 (urlText (front ++ []))).bind _ = _
      rw [stripFill_urlText]
      exact decodeStripped_urlText front [] 0 hFront (by simp) rfl
  | [p], _ =>
      have hText : urlText (front ++ [p]) ≠ [] := by simp
      change (stripFill base64url.fill 2 (urlText (front ++ [p]) ++
        (base64url.fill ++ base64url.fill ++ base64url.fill))).bind _ = _
      rw [← List.append_assoc, ← List.append_assoc, stripFill_append _ _ (by simp),
        stripFill_append _ _ (by simp), stripFill_zero_append _ hText]
      rfl
  | [p, q], _ =>
      have hText : urlText (front ++ [p, q]) ≠ [] := by simp
      change (stripFill base64url.fill 2 (urlText (front ++ [p, q]) ++
        (base64url.fill ++ base64url.fill))).bind _ = _
      rw [← List.append_assoc, stripFill_append _ _ (by simp), stripFill_append _ _ hText,
        stripFill_urlText]
      change decodeStripped base64url (urlText (front ++ [p, q])) 2 = _
      rw [decodeStripped_urlText front [p, q] 2 hFront (by simp) (by simp), decodeTail_two]
      rfl
  | [p, q, r], _ =>
      have hText : urlText (front ++ [p, q, r]) ≠ [] := by simp
      change (stripFill base64url.fill 2 (urlText (front ++ [p, q, r]) ++ base64url.fill)).bind _ = _
      rw [stripFill_append _ _ hText, stripFill_urlText]
      change decodeStripped base64url (urlText (front ++ [p, q, r])) 1 = _
      rw [decodeStripped_urlText front [p, q, r] 1 hFront (by simp) (by simp), decodeTail_three]
      rfl

/-- What `sign` encodes, `decoded_jwt` reads back. -/
theorem decode_pad_trim_encode (bin : Bytes) :
    decode base64url (pad base64url (trim base64url (encode base64url bin))) = .ok bin := by
  rw [trim_encode, decode_pad_urlText, if_neg (Sextet.ofBytes_length_mod bin),
    Sextet.toBytes_ofBytes]

end Decoding

end Jwt
