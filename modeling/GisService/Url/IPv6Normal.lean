import GisService.Url.IPv6
import GisService.Url.RoundTrip

/-! What `normalize_IPv6` makes of the texts of addresses. -/
namespace Url

open ByteString AddressText

theorem value_lowerHexDigits {digits : List Nat} (h : ∀ d ∈ digits, d < 16) :
    value (digits.reverse.map lowerHexDigit) = Nat.ofDigits 16 digits := by
  induction digits with
  | nil => rfl
  | cons d digits ih =>
      rw [List.reverse_cons, List.map_append, List.map_singleton, value_append_singleton,
        hexValue_lowerHexDigit (h d List.mem_cons_self), Option.getD_some,
        ih fun d hd => h d (List.mem_cons_of_mem _ hd), Nat.ofDigits_cons]
      exact Nat.add_comm _ _

/-- `%x` writes a number that reads back as itself. -/
theorem value_hexText (n : Nat) : value (hexText n) = n := by
  rw [hexText]
  split
  · next hZero =>
      rw [hZero]
      rfl
  · rw [value_lowerHexDigits fun d hd => Nat.digits_lt_base (by decide) hd, Nat.ofDigits_digits]

/-- A field of 16 bits has one to four digits. -/
theorem isGroup_hexText {n : Nat} (h : n < 65536) : IsGroup (hexText n) := by
  rw [hexText]
  split
  · refine ⟨by simp, by simp, ?_⟩
    intro c hc
    rw [List.mem_singleton.mp hc]
    rfl
  · next hPos =>
      refine ⟨by simpa using Nat.digits_ne_nil_iff_ne_zero.mpr hPos, ?_, ?_⟩
      · rw [List.length_map, List.length_reverse]
        exact (Nat.digits_length_le_iff (by decide) n).mpr h
      · intro c hc
        obtain ⟨d, hd, rfl⟩ := List.mem_map.mp hc
        rw [isHex, hexValue_lowerHexDigit (Nat.digits_lt_base (by decide) (List.mem_reverse.mp hd))]
        rfl

/-- Digits alone are read modulo the size of a field. -/
theorem fieldValue_mod {digits : Bytes} (h : ∀ c ∈ digits, isHex c = true) :
    fieldValue digits = value digits % 65536 := by
  induction digits using List.reverseRecOn with
  | nil => rfl
  | append_singleton digits c ih =>
      obtain ⟨digit, hDigit⟩ := Option.isSome_iff_exists.mp (h c (by simp))
      have hFold : fieldValue (digits ++ [c]) = (16 * fieldValue digits + digit) % 65536 := by
        simp [fieldValue, hDigit]
      rw [hFold, ih fun b hb => h b (List.mem_append_left _ hb), value_append_singleton,
        hDigit, Option.getD_some]
      omega

/-- Four digits are not too many for a field. -/
theorem fieldValue_group {g : Bytes} (h : IsGroup g) : fieldValue g = value g := by
  rw [fieldValue_mod h.digits, Nat.mod_eq_of_lt h.value_lt]

/-- The loop adds the value of each group to the fields. -/
theorem decodeFields_groups {groups : List Bytes} (h : ∀ g ∈ groups, IsGroup g)
    (i nullPos : Nat) (fields : List Nat) (rest : List Bytes) :
    decodeFields i nullPos fields (groups ++ rest) =
      decodeFields (i + groups.length) nullPos (fields ++ groups.map value) rest := by
  induction groups generalizing i fields with
  | nil => simp
  | cons g groups ih =>
      have hGroup := h g List.mem_cons_self
      rw [List.cons_append, decodeFields, takeWhile_ne hGroup.colon, if_neg hGroup.nonempty,
        ih (fun g hg => h g (List.mem_cons_of_mem _ hg)), fieldValue_group hGroup]
      simp [Nat.add_assoc, Nat.add_comm 1]

/-- Without an empty token the position of the null field stays at 8. -/
theorem decodeFields_full {groups : List Bytes} (h : ∀ g ∈ groups, IsGroup g) :
    decodeFields 0 8 [] groups = (8, groups.map value) := by
  have hAll := decodeFields_groups h 0 8 [] []
  rwa [List.append_nil] at hAll

/-- An empty token is where the null field is. -/
theorem decodeFields_null {front back : List Bytes} (hFront : ∀ g ∈ front, IsGroup g)
    (hBack : ∀ g ∈ back, IsGroup g) :
    decodeFields 0 8 [] (front ++ [] :: back) =
      (front.length, front.map value ++ back.map value) := by
  have hAll := decodeFields_groups hBack (front.length + 1) front.length (front.map value) []
  rw [List.append_nil] at hAll
  rw [decodeFields_groups hFront, Nat.zero_add, List.nil_append, decodeFields]
  exact hAll

/-- As many fields as there should be are left as they are. -/
theorem expand_full {fields : List Nat} {nullPos : Nat} (h : fields.length ≤ 8) :
    expand fields.length nullPos fields = some fields := by
  rw [expand, if_neg (by omega), if_neg (by omega), List.take_length]

/-- Fewer fields leave a gap of zeros at the null field. -/
theorem expand_null {front back : List Nat} {nfields : Nat} (hNumber : nfields ≤ 8)
    (h : front.length + back.length ≤ nfields) :
    expand nfields front.length (front ++ back) =
      some (front ++ List.replicate (nfields - (front.length + back.length)) 0 ++ back) := by
  rw [expand, List.length_append, if_neg (by omega)]
  split
  · rw [if_pos (by omega), List.take_left, List.drop_left]
  · have hSize : nfields = front.length + back.length := by omega
    rw [hSize, Nat.sub_self, ← List.length_append, List.take_length]
    simp

/-- No more than eight parts are the tokens. -/
theorem tokens_parts {parts : List Bytes} (hColon : ∀ part ∈ parts, (58 : UInt8) ∉ part)
    (hNonempty : parts ≠ []) (hLength : parts.length ≤ 8) :
    tokens ([58].intercalate parts) = some parts := by
  have hSplit : ([58].intercalate parts).splitOn 58 = parts :=
    List.splitOn_intercalate 58 hColon hNonempty
  simp only [tokens, hSplit, if_pos hLength]

/-- Only a colon at either end is taken away. -/
theorem stripColons_self {text : Bytes} (hFirst : text.head? ≠ some 58)
    (hLast : text.getLast? ≠ some 58) : stripColons text = text := by
  simp [stripColons, hFirst, hLast]

theorem head?_ne_colon {parts : List Bytes} {tail : Option Bytes} (h : Ends parts tail)
    (hParts : parts ≠ []) (rest : List Bytes) :
    ([58].intercalate (parts ++ rest)).head? ≠ some 58 := by
  obtain ⟨first, parts, rfl⟩ := List.exists_cons_of_ne_nil hParts
  have hFirst : first ≠ [] := fun hNil => ends_nonempty h (hNil ▸ List.mem_cons_self)
  rw [List.cons_append, head?_intercalate hFirst]
  exact fun hHead => h.colon first List.mem_cons_self (List.mem_of_mem_head? hHead)

theorem getLast?_ne_colon {parts : List Bytes} {tail : Option Bytes} (h : Ends parts tail)
    (hParts : parts ≠ []) (front : List Bytes) :
    ([58].intercalate (front ++ parts)).getLast? ≠ some 58 := by
  obtain ⟨parts, last, rfl⟩ := (List.eq_nil_or_concat' parts).resolve_left hParts
  have hLast : last ≠ [] := fun hNil => ends_nonempty h (hNil ▸ by simp)
  rw [← List.append_assoc, getLast?_intercalate hLast]
  exact fun hMem => h.colon last (by simp) (List.mem_of_getLast? hMem)

/-- Neither end is a colon if the fields are all there. -/
theorem stripColons_full {parts : List Bytes} {tail : Option Bytes} (h : Ends parts tail)
    (hParts : parts ≠ []) :
    stripColons ([58].intercalate parts) = [58].intercalate parts := by
  apply stripColons_self
  · have hFirst := head?_ne_colon h hParts []
    rwa [List.append_nil] at hFirst
  · exact getLast?_ne_colon h hParts []

/-- A null field at either end keeps one of its colons, and at both ends none. -/
theorem stripColons_null {front parts : List Bytes} {tail : Option Bytes}
    (hFront : Ends front none) (h : Ends parts tail) :
    stripColons (nullText front parts) = [58].intercalate (front ++ [] :: parts) := by
  by_cases hNone : front = [] <;> by_cases hParts : parts = []
  · rw [hNone, hParts]
    rfl
  · have hLast := getLast?_ne_colon h hParts [[]]
    rw [List.singleton_append, intercalate_nil_cons, flatMap_colon hParts] at hLast
    rw [hNone, nullText_nil hParts, List.nil_append, intercalate_nil_cons, flatMap_colon hParts]
    simp [stripColons, hLast]
  · have hHead := head?_ne_colon hFront hNone [[], []]
    have hJoin :
        [58].intercalate (front ++ [[], []]) = [58].intercalate (front ++ [[]]) ++ [58] := by
      rw [intercalate_append front hNone, intercalate_append front hNone]
      simp
    rw [nullText_of_ne_nil hNone, hParts, if_pos rfl, stripColons, if_neg hHead, hJoin]
    simp
  · have hLast := getLast?_ne_colon h hParts (front ++ [[]])
    rw [List.append_assoc] at hLast
    rw [nullText_of_ne_nil hNone, if_neg hParts]
    exact stripColons_self (head?_ne_colon hFront hNone _) hLast

/-- What a text is read as, from the steps of the reading: the colons at its ends,
its tokens, the last part, and the fields. -/
theorem readIPv6_of_parts {text : Bytes} {parts : List Bytes} {tail : Option Bytes}
    {nullPos : Nat} {given fields : List Nat}
    (hStrip : stripColons text = [58].intercalate (parts ++ tail.toList)) (hParts : parts ≠ [])
    (hColon : ∀ part ∈ parts ++ tail.toList, (58 : UInt8) ∉ part)
    (hLength : (parts ++ tail.toList).length ≤ 8) (hShort : ∀ part ∈ parts, part.length ≤ 4)
    (hTail : ∀ t ∈ tail, Dotted t) (hDecode : decodeFields 0 8 [] parts = (nullPos, given))
    (hExpand : expand (size tail) nullPos given = some fields) :
    readIPv6 text = some (fields, tail) := by
  rw [readIPv6, hStrip, tokens_parts hColon (by simp [hParts]) hLength]
  cases tail with
  | none =>
      obtain ⟨front, last, rfl⟩ := (List.eq_nil_or_concat' parts).resolve_left hParts
      have hLast : ¬ 5 < last.length := by
        have := hShort last (by simp)
        omega
      simp [hLast, hDecode, hExpand]
  | some t =>
      have hLast : 5 < t.length := by
        have := (isDotted_spec (hTail t rfl).valid).2.1
        omega
      simp [hLast, hDecode, hExpand]

theorem ends_groups {groups : List Bytes} (h : ∀ g ∈ groups, IsGroup g) : Ends groups none :=
  ⟨groups, h, nofun, by simp⟩

/-- What a text denotes is read from it. -/
theorem readIPv6_of_denotes {text : Bytes} {fields : List Nat} {tail : Option Bytes}
    (h : Denotes Dotted text fields tail) : readIPv6 text = some (fields, tail) := by
  have hAdd := size_add tail
  have hEight : size tail ≤ 8 := by omega
  have hOne : tail.toList.length ≤ 1 := by cases tail <;> simp
  cases h with
  | @full groups _ hGroups hTail hSize =>
      have hEnds : Ends (groups ++ tail.toList) tail := ⟨groups, hGroups, hTail, rfl⟩
      have hNonempty : groups ≠ [] := by
        rintro rfl
        rw [List.length_nil] at hSize
        omega
      refine readIPv6_of_parts (stripColons_full hEnds (by simp [hNonempty])) hNonempty hEnds.colon
        ?_ (fun g hg => (hGroups g hg).length) hTail (decodeFields_full hGroups) ?_
      · rw [List.length_append]
        omega
      · rw [← hSize, ← List.length_map value]
        refine expand_full ?_
        rw [List.length_map]
        omega
  | @null front back _ hFront hBack hTail hSize =>
      have hEnds : Ends (back ++ tail.toList) tail := ⟨back, hBack, hTail, rfl⟩
      have hStrip := stripColons_null (ends_groups hFront) hEnds
      rw [← List.cons_append, ← List.append_assoc] at hStrip
      refine readIPv6_of_parts hStrip (by simp) ?_ ?_ ?_ hTail (decodeFields_null hFront hBack) ?_
      · intro part hPart
        rw [List.append_assoc, List.cons_append] at hPart
        rcases List.mem_append.mp hPart with hPart | hPart
        · exact (hFront part hPart).colon
        · rcases List.mem_cons.mp hPart with rfl | hPart
          · exact List.not_mem_nil
          · exact hEnds.colon part hPart
      · simp only [List.length_append, List.length_cons]
        omega
      · intro part hPart
        rcases List.mem_append.mp hPart with hPart | hPart
        · exact (hFront part hPart).length
        · rcases List.mem_cons.mp hPart with rfl | hPart
          · exact Nat.zero_le 4
          · exact (hBack part hPart).length
      · have hExpand := @expand_null (front.map value) (back.map value) (size tail) hEight ?_
        · rwa [List.length_map, List.length_map] at hExpand
        · rw [List.length_map, List.length_map]
          omega

/-- A text denotes no more than one address. -/
theorem denotes_unique {text : Bytes} {fields otherFields : List Nat}
    {tail otherTail : Option Bytes}
    (h : Denotes Dotted text fields tail) (hOther : Denotes Dotted text otherFields otherTail) :
    fields = otherFields ∧ tail = otherTail := by
  have hSame := (readIPv6_of_denotes h).symm.trans (readIPv6_of_denotes hOther)
  simpa using hSame

/-- A part holds no other characters than `is_ipv6` asks for. -/
theorem Ends.chars {parts : List Bytes} {tail : Option Bytes} (h : Ends parts tail) {part : Bytes}
    (hPart : part ∈ parts) {c : UInt8} (hc : c ∈ part) : c = 46 ∨ isHexdigit c = true := by
  obtain ⟨groups, hGroups, hTail, rfl⟩ := h
  rcases List.mem_append.mp hPart with hGroup | hLast
  · right
    rw [isHexdigit_eq]
    exact (hGroups part hGroup).digits c hc
  · obtain hDot | hNum := (isDotted_spec (hTail part (Option.mem_toList.mp hLast)).valid).1 c hc
    · exact .inl hDot
    · right
      simp [isHexdigit, hNum]

/-- A text of an address has no characters but those that `is_ipv6` looks for. -/
theorem isIPv6_of_denotes {text : Bytes} {fields : List Nat} {tail : Option Bytes}
    (h : Denotes Dotted text fields tail) (hLength : text.length ≤ 254) : isIPv6 text = true := by
  have hChars : ∀ c ∈ text, c = 58 ∨ c = 46 ∨ isHexdigit c = true := by
    intro c hc
    cases h with
    | @full groups _ hGroups hTail hSize =>
        have hEnds : Ends (groups ++ tail.toList) tail := ⟨groups, hGroups, hTail, rfl⟩
        exact (mem_intercalate hc).imp_right fun ⟨part, hPart, hMem⟩ => hEnds.chars hPart hMem
    | @null front back _ hFront hBack hTail hSize =>
        have hEnds : Ends (back ++ tail.toList) tail := ⟨back, hBack, hTail, rfl⟩
        refine (mem_nullText hc).imp_right fun ⟨part, hPart, hMem⟩ => ?_
        rcases List.mem_append.mp hPart with hPart | hPart
        · exact (ends_groups hFront).chars hPart hMem
        · exact hEnds.chars hPart hMem
  rw [isIPv6, Bool.and_eq_true_iff, Bool.and_eq_true_iff, List.all_eq_true]
  refine ⟨⟨decide_eq_true h.length.1, decide_eq_true hLength⟩, fun c hc => ?_⟩
  simpa [or_assoc] using hChars c hc

/-- All texts of an address but `::` get the canonical text of its fields. -/
theorem normalizeIPv6_of_denotes {text : Bytes} {fields : List Nat} {tail : Option Bytes}
    (h : Denotes Dotted text fields tail) (hLength : text.length ≤ 254) (hNot : text ≠ ascii "::") :
    normalizeIPv6 text = some (.ok (canonicalIPv6 fields tail)) := by
  rw [normalizeIPv6, if_neg (by simp [isIPv6_of_denotes h hLength]), if_neg hNot,
    readIPv6_of_denotes h]
  rfl

/-- `null_pos` and `null_len` are a row of zeros, or the end of the fields. -/
structure ZeroRow (fields : List Nat) (row : Nat × Nat) : Prop where
  within : row.1 + row.2 ≤ fields.length
  zero : ∀ i, row.1 ≤ i → i < row.1 + row.2 → fields[i]? = some 0
  none : row.2 = 0 → row.1 = fields.length

/-- The row that has ended is one of zeros, and so is the longer of the two. -/
theorem ZeroRow.endZeros {fields : List Nat} {i : Nat} {first : Option Nat} {best : Nat × Nat}
    (h : ZeroRow fields best) (hLength : i ≤ fields.length)
    (hFirst : ∀ start ∈ first, start < i ∧ ∀ j, start ≤ j → j < i → fields[j]? = some 0) :
    ZeroRow fields (endZeros i first best) := by
  cases first with
  | none => exact h
  | some start =>
      obtain ⟨hStart, hZero⟩ := hFirst start rfl
      rw [Url.endZeros]
      split
      · refine ⟨?_, ?_, ?_⟩
        · show start + (i - start) ≤ fields.length
          omega
        · intro j hLow hHigh
          refine hZero j hLow ?_
          have hEnd : j < start + (i - start) := hHigh
          omega
        · intro hEmpty
          have hNone : i - start = 0 := hEmpty
          omega
      · exact h

/-- The search only ever holds rows of zeros. -/
theorem ZeroRow.longestZeros {fields rest : List Nat} {i : Nat} {first : Option Nat}
    {best : Nat × Nat} (h : ZeroRow fields best) (hRest : fields.drop i = rest)
    (hLength : i ≤ fields.length)
    (hFirst : ∀ start ∈ first, start < i ∧ ∀ j, start ≤ j → j < i → fields[j]? = some 0) :
    ZeroRow fields (longestZeros i first best rest) := by
  induction rest generalizing i first best with
  | nil => exact h.endZeros hLength hFirst
  | cons field rest ih =>
      have hField : fields[i]? = some field := by
        rw [← List.head?_drop, hRest]
        rfl
      have hNext : fields.drop (i + 1) = rest := by
        rw [← List.tail_drop, hRest]
        rfl
      have hMore : i < fields.length := (List.getElem?_eq_some_iff.mp hField).1
      rw [Url.longestZeros]
      split
      · next hZero =>
          refine ih h hNext hMore ?_
          intro start hStart
          obtain rfl : first.getD i = start := Option.some.inj hStart
          cases first with
          | none =>
              refine ⟨Nat.lt_succ_self i, fun j hLow hHigh => ?_⟩
              obtain rfl : i = j := by
                simp only [Option.getD_none] at hLow
                omega
              rw [hField, hZero]
          | some start =>
              obtain ⟨hBefore, hZeros⟩ := hFirst start rfl
              refine ⟨Nat.lt_succ_of_lt hBefore, fun j hLow hHigh => ?_⟩
              by_cases hLast : j = i
              · rw [hLast, hField, hZero]
              · exact hZeros j hLow (by omega)
      · exact ih (h.endZeros hLength hFirst) hNext hMore nofun

/-- A row of zeros that is left out can be put back. -/
theorem ZeroRow.eq {fields : List Nat} {row : Nat × Nat} (h : ZeroRow fields row) :
    fields.take row.1 ++ List.replicate row.2 0 ++ fields.drop (row.1 + row.2) = fields := by
  have hZeros : (fields.drop row.1).take row.2 = List.replicate row.2 0 := by
    apply List.ext_getElem?
    intro j
    have hWithin := h.within
    by_cases hj : j < row.2
    · rw [List.getElem?_take_of_lt hj, List.getElem?_drop, h.zero _ (by omega) (by omega),
        List.getElem?_replicate_of_lt hj]
    · rw [List.getElem?_eq_none (by simp; omega), List.getElem?_eq_none (by simp; omega)]
  rw [← hZeros, List.append_assoc, ← List.drop_drop, List.take_append_drop, List.take_append_drop]

/-- What is found at the end is a row of zeros, perhaps one without any. -/
theorem zeroRow_longest (fields : List Nat) :
    ZeroRow fields (longestZeros 0 none (fields.length, 0) fields) := by
  refine ZeroRow.longestZeros ⟨Nat.le_refl _, ?_, fun _ => rfl⟩ rfl (Nat.zero_le _) nofun
  intro i hLow hHigh
  have hFirst : fields.length ≤ i := hLow
  have hLast : i < fields.length + 0 := hHigh
  omega

theorem map_value_hexText (fields : List Nat) : (fields.map hexText).map value = fields := by
  rw [List.map_map]
  exact List.map_id'' value_hexText fields

theorem isGroup_of_mem_map {fields : List Nat} (h : ∀ field ∈ fields, field < 65536) :
    ∀ g ∈ fields.map hexText, IsGroup g := by
  intro g hMem
  obtain ⟨field, hField, rfl⟩ := List.mem_map.mp hMem
  exact isGroup_hexText (h field hField)

theorem flatMap_hexText (fields : List Nat) :
    fields.flatMap (fun field => 58 :: hexText field) = (fields.map hexText).flatMap (58 :: ·) := by
  rw [List.flatMap_map]

/-- Nothing is left out. -/
theorem encodeFields_full {fields : List Nat} {nullLen : Nat} {tail : Option Bytes}
    (hNonempty : fields ≠ []) (hLength : fields.length + nullLen ≠ 8 ∨ nullLen = 0) :
    encodeFields fields fields.length nullLen tail =
      [58].intercalate (fields.map hexText ++ tail.toList) := by
  have hPos : fields.length ≠ 0 := by simpa using hNonempty
  have hEnd : ¬ (fields.length + nullLen = 8 ∧ nullLen ≠ 0) := by omega
  have hGroups : fields.map hexText ≠ [] := by simpa using hNonempty
  have hRest : fields.drop (fields.length + nullLen) = [] :=
    List.drop_eq_nil_of_le (Nat.le_add_right _ _)
  rw [intercalate_append _ hGroups]
  simp [encodeFields, hPos, hEnd, hRest]

/-- A row of fields is left out. -/
theorem encodeFields_null {fields : List Nat} {nullPos nullLen : Nat} {tail : Option Bytes}
    (hSize : fields.length = size tail) (hWithin : nullPos + nullLen ≤ fields.length)
    (hLen : nullLen ≠ 0)
    (hSome : nullPos = 0 →
      (fields.drop (nullPos + nullLen)).map hexText ++ tail.toList ≠ []) :
    encodeFields fields nullPos nullLen tail =
      nullText ((fields.take nullPos).map hexText)
        ((fields.drop (nullPos + nullLen)).map hexText ++ tail.toList) := by
  have hBack : (fields.drop (nullPos + nullLen)).flatMap (fun field => 58 :: hexText field) ++
      tail.toList.flatMap (58 :: ·) =
      ((fields.drop (nullPos + nullLen)).map hexText ++ tail.toList).flatMap (58 :: ·) := by
    rw [flatMap_hexText, List.flatMap_append]
  have hEnd : nullPos + nullLen = 8 ∧ nullLen ≠ 0 ↔
      (fields.drop (nullPos + nullLen)).map hexText ++ tail.toList = [] := by
    cases tail with
    | none =>
        have hEight : fields.length = 8 := hSize
        simp only [Option.toList_none, List.append_nil, List.map_eq_nil_iff, List.drop_eq_nil_iff]
        omega
    | some t =>
        have hSix : fields.length = 6 := hSize
        simp only [Option.toList_some, List.append_eq_nil_iff, List.cons_ne_nil, and_false,
          iff_false]
        omega
  rw [encodeFields, List.append_assoc, hBack]
  generalize (fields.drop (nullPos + nullLen)).map hexText ++ tail.toList = parts at hEnd hSome
  by_cases hPos : nullPos = 0
  · have hParts := hSome hPos
    simp [hPos, nullText_nil hParts, flatMap_colon hParts]
  · have hFront : (fields.take nullPos).map hexText ≠ [] := by
      rw [Ne, List.map_eq_nil_iff, List.take_eq_nil_iff]
      rintro (hZero | hNil)
      · exact hPos hZero
      · rw [hNil, List.length_nil] at hWithin
        omega
    have hMore : nullPos < fields.length := by omega
    simp only [if_neg hPos, if_pos hMore, hEnd]
    rw [nullText, if_neg hFront, intercalate_append _ hFront]
    by_cases hParts : parts = []
    · simp [hParts]
    · simp [hParts]

/-- The canonical text stands for the fields, unless all are zero and nothing stands
behind them. -/
theorem denotes_canonicalIPv6 {fields : List Nat} {tail : Option Bytes}
    (hSize : fields.length = size tail) (hFields : ∀ field ∈ fields, field < 65536)
    (hTail : ∀ t ∈ tail, Dotted t) (hSome : tail = none → ∃ field ∈ fields, field ≠ 0) :
    Denotes Dotted (canonicalIPv6 fields tail) fields tail := by
  have hRow := zeroRow_longest fields
  have hAdd := size_add tail
  have hOne : tail.toList.length ≤ 1 := by cases tail <;> simp
  have hGroups := isGroup_of_mem_map hFields
  rw [canonicalIPv6]
  generalize longestZeros 0 none (fields.length, 0) fields = zeros at hRow ⊢
  by_cases hNone : zeros.2 = 0 ∨ zeros.2 = 1
  · -- All fields are written.
    have hPos : (if zeros.2 = 1 then fields.length else zeros.1) = fields.length := by
      split
      · rfl
      · exact hRow.none (by omega)
    have hNonempty : fields ≠ [] := by
      rintro rfl
      rw [List.length_nil] at hSize
      omega
    have hFull := @Denotes.full Dotted (fields.map hexText) tail hGroups hTail
      (by rw [List.length_map, hSize])
    rw [map_value_hexText] at hFull
    simp only [hPos]
    rwa [encodeFields_full hNonempty (by omega)]
  · -- The row has two or more fields.
    have hWithin := hRow.within
    have hEq := hRow.eq
    have hNull : zeros.1 = 0 →
        (fields.drop (zeros.1 + zeros.2)).map hexText ++ tail.toList ≠ [] := by
      intro hStart hNil
      obtain ⟨hDrop, hLast⟩ := List.append_eq_nil_iff.mp hNil
      obtain ⟨field, hField, hNotZero⟩ := hSome (by simpa using hLast)
      rw [List.map_eq_nil_iff.mp hDrop, hStart, List.take_zero, List.nil_append,
        List.append_nil] at hEq
      rw [← hEq] at hField
      exact hNotZero (List.eq_of_mem_replicate hField)
    rw [if_neg (by omega), encodeFields_null hSize hWithin (by omega) hNull]
    have hText := @Denotes.null Dotted ((fields.take zeros.1).map hexText)
      ((fields.drop (zeros.1 + zeros.2)).map hexText) tail
      (isGroup_of_mem_map fun field h => hFields field (List.mem_of_mem_take h))
      (isGroup_of_mem_map fun field h => hFields field (List.mem_of_mem_drop h)) hTail
      (by simp only [List.length_map, List.length_take, List.length_drop]; omega)
    have hGap : size tail - (((fields.take zeros.1).map hexText).length +
        ((fields.drop (zeros.1 + zeros.2)).map hexText).length) = zeros.2 := by
      simp only [List.length_map, List.length_take, List.length_drop]
      omega
    rwa [hGap, map_value_hexText, map_value_hexText, hEq] at hText

/-- Both texts denote the same, if anything: the same fields and, at the end, the same
dotted text. A dotted text is not compared with the two groups that it stands for. -/
def SameAddress (first second : Bytes) : Prop :=
  ∀ fields tail, Denotes Dotted first fields tail ↔ Denotes Dotted second fields tail

/-- A text denotes one thing, so that two texts of it denote the same. -/
theorem sameAddress_of_denotes {first second : Bytes} {fields : List Nat} {tail : Option Bytes}
    (hFirst : Denotes Dotted first fields tail) (hSecond : Denotes Dotted second fields tail) :
    SameAddress first second := by
  intro others last
  constructor
  · intro h
    obtain ⟨rfl, rfl⟩ := denotes_unique hFirst h
    exact hSecond
  · intro h
    obtain ⟨rfl, rfl⟩ := denotes_unique hSecond h
    exact hFirst

theorem denotes_zero : Denotes Dotted (ascii "::") (List.replicate 8 0) none :=
  @Denotes.null Dotted [] [] none nofun nofun nofun (by decide)

/-- The zero address has no normal form: what is written for all its texts but `::`
is not the text of an address. -/
theorem normalizeIPv6_zero {text : Bytes} (h : Denotes Dotted text (List.replicate 8 0) none)
    (hLength : text.length ≤ 254) (hNot : text ≠ ascii "::") :
    normalizeIPv6 text = some (.ok (ascii ":")) ∧
      ∀ fields tail, ¬ Denotes Dotted (ascii ":") fields tail := by
  constructor
  · rw [normalizeIPv6_of_denotes h hLength hNot]
    decide +kernel
  · intro fields tail hColon
    exact absurd hColon.length.1 (by decide)

/-- Any address but zero is denoted by its canonical text. -/
theorem denotes_canonical_of_not_zero {text : Bytes} {fields : List Nat} {tail : Option Bytes}
    (h : Denotes Dotted text fields tail)
    (hZero : ¬ Denotes Dotted text (List.replicate 8 0) none) :
    Denotes Dotted (canonicalIPv6 fields tail) fields tail := by
  obtain ⟨hSize, hFields, hTail⟩ := h.fields
  refine denotes_canonicalIPv6 hSize hFields hTail ?_
  rintro rfl
  by_contra hNone
  have hAll : fields = List.replicate 8 0 := by
    refine List.eq_replicate_iff.mpr ⟨hSize, fun field hField => ?_⟩
    by_contra hNotZero
    exact hNone ⟨field, hField, hNotZero⟩
  exact hZero (hAll ▸ h)

/-- No text of another address is the one that is returned at once. -/
theorem ne_null_of_not_zero {text other : Bytes} {fields : List Nat} {tail : Option Bytes}
    (h : Denotes Dotted text fields tail)
    (hZero : ¬ Denotes Dotted text (List.replicate 8 0) none)
    (hOther : Denotes Dotted other fields tail) : other ≠ ascii "::" := by
  rintro rfl
  obtain ⟨rfl, rfl⟩ := denotes_unique hOther denotes_zero
  exact hZero h

/-- The canonical text is kept as it is. -/
theorem normalizeIPv6_canonicalIPv6 {text : Bytes} {fields : List Nat} {tail : Option Bytes}
    (h : Denotes Dotted text fields tail) (hLength : text.length ≤ 39)
    (hZero : ¬ Denotes Dotted text (List.replicate 8 0) none) :
    normalizeIPv6 (canonicalIPv6 fields tail) = some (.ok (canonicalIPv6 fields tail)) := by
  have hNormal := denotes_canonical_of_not_zero h hZero
  have hTextLength := h.length
  have hNormalLength := hNormal.length
  exact normalizeIPv6_of_denotes hNormal (by omega) (ne_null_of_not_zero h hZero hNormal)

/-- Two colons alone are returned at once. -/
theorem normalizeIPv6_null : normalizeIPv6 (ascii "::") = some (.ok (ascii "::")) := by
  decide +kernel

/-- What is returned as it is has the characters of an address. -/
theorem isIPv6_of_normal {text : Bytes} (h : normalizeIPv6 text = some (.ok text)) :
    isIPv6 text = true := by
  rw [normalizeIPv6] at h
  split at h
  · cases h
  · next hText => simpa using hText

/-- Texts of any address but zero get the same text from `normalize_IPv6` exactly if
they denote the same address, with its dotted part written the same way. That text
denotes it too, and is kept as it is. -/
theorem normalizeIPv6_canonical {text : Bytes} (hValid : isValidIPv6 text = true)
    (hZero : ¬ Denotes Dotted text (List.replicate 8 0) none) :
    ∃ normal, normalizeIPv6 text = some (.ok normal) ∧
      normalizeIPv6 normal = some (.ok normal) ∧ SameAddress normal text ∧
      ∀ other, isValidIPv6 other = true →
        (normalizeIPv6 other = some (.ok normal) ↔ SameAddress other text) := by
  obtain ⟨hLength, fields, tail, hText⟩ := denotes_of_valid hValid
  have hNormal := denotes_canonical_of_not_zero hText hZero
  have hNot {other : Bytes} : Denotes Dotted other fields tail → other ≠ ascii "::" :=
    ne_null_of_not_zero hText hZero
  refine ⟨canonicalIPv6 fields tail, normalizeIPv6_of_denotes hText (by omega) (hNot hText),
    normalizeIPv6_canonicalIPv6 hText hLength hZero, sameAddress_of_denotes hNormal hText,
    fun other hOther => ?_⟩
  obtain ⟨hOtherLength, others, last, hDenotes⟩ := denotes_of_valid hOther
  constructor
  · intro hSame
    by_cases hNull : other = ascii "::"
    · rw [hNull, normalizeIPv6_null] at hSame
      exact absurd (Except.ok.inj (Option.some.inj hSame)).symm (hNot hNormal)
    · by_cases hOtherZero : Denotes Dotted other (List.replicate 8 0) none
      · obtain ⟨hColon, hNothing⟩ := normalizeIPv6_zero hOtherZero (by omega) hNull
        rw [hColon] at hSame
        rw [← Except.ok.inj (Option.some.inj hSame)] at hNormal
        exact absurd hNormal (hNothing fields tail)
      · have hOtherNormal := denotes_canonical_of_not_zero hDenotes hOtherZero
        rw [normalizeIPv6_of_denotes hDenotes (by omega) hNull] at hSame
        rw [Except.ok.inj (Option.some.inj hSame)] at hOtherNormal
        obtain ⟨rfl, rfl⟩ := denotes_unique hOtherNormal hNormal
        exact sameAddress_of_denotes hDenotes hText
  · intro hSame
    have hHere := (hSame fields tail).mpr hText
    exact normalizeIPv6_of_denotes hHere (by omega) (hNot hHere)

theorem sample_not_zero :
    ¬ Denotes Dotted (ascii "2001:DB8:0:0:1:0:0:1") (List.replicate 8 0) none := by
  intro h
  exact absurd (readIPv6_of_denotes h) (by decide +kernel)

theorem normalizeIPv6_canonical_sample :
    isValidIPv6 (ascii "2001:DB8:0:0:1:0:0:1") = true ∧
      ¬ Denotes Dotted (ascii "2001:DB8:0:0:1:0:0:1") (List.replicate 8 0) none ∧
      ∃ normal, normalizeIPv6 (ascii "2001:DB8:0:0:1:0:0:1") = some (.ok normal) ∧
        normalizeIPv6 normal = some (.ok normal) ∧
        SameAddress normal (ascii "2001:DB8:0:0:1:0:0:1") := by
  have hValid : isValidIPv6 (ascii "2001:DB8:0:0:1:0:0:1") = true := by decide +kernel
  obtain ⟨normal, hText, hKept, hSame, -⟩ := normalizeIPv6_canonical hValid sample_not_zero
  exact ⟨hValid, sample_not_zero, normal, hText, hKept, hSame⟩

end Url
