import GisService.Data.PercentCode
import Mathlib.Algebra.Group.Nat.Defs

/-! Texts of addresses of 128 bits: groups of hexadecimal digits between colons,
of which some that are zero may be left out, and perhaps a part of another form at
the end, in place of the last two. -/
namespace AddressText

open ByteString

def isHex (c : UInt8) : Bool := (PercentCode.hexValue c).isSome

/-- One to four digits. -/
structure IsGroup (g : Bytes) : Prop where
  nonempty : g ≠ []
  length : g.length ≤ 4
  digits : ∀ c ∈ g, isHex c = true

def value (g : Bytes) : Nat := g.foldl (fun n c => 16 * n + (PercentCode.hexValue c).getD 0) 0

/-- The number of groups next to the last part. -/
def size (tail : Option Bytes) : Nat := if tail.isSome then 6 else 8

/-- Parts with a null field between them, which shows as two colons. -/
def nullText (front back : List Bytes) : Bytes :=
  (if front = [] then [58] else []) ++ [58].intercalate (front ++ [] :: back) ++
    (if back = [] then [58] else [])

/-- The text stands for the fields and the last part. Next to a last part the null
field may stand for no field at all. -/
inductive Denotes (Tail : Bytes → Prop) : Bytes → List Nat → Option Bytes → Prop where
  | full {groups : List Bytes} {tail : Option Bytes} (hGroups : ∀ g ∈ groups, IsGroup g)
      (hTail : ∀ t ∈ tail, Tail t) (hSize : groups.length = size tail) :
      Denotes Tail ([58].intercalate (groups ++ tail.toList)) (groups.map value) tail
  | null {front back : List Bytes} {tail : Option Bytes} (hFront : ∀ g ∈ front, IsGroup g)
      (hBack : ∀ g ∈ back, IsGroup g) (hTail : ∀ t ∈ tail, Tail t)
      (hSize : front.length + back.length + tail.toList.length < 8) :
      Denotes Tail (nullText front (back ++ tail.toList))
        (front.map value ++
          List.replicate (size tail - (front.length + back.length)) 0 ++ back.map value) tail

theorem isHex_colon {c : UInt8} (h : isHex c = true) : c ≠ 58 := by
  rintro rfl
  exact absurd h (by decide)

/-- A group has no colon. -/
theorem IsGroup.colon {g : Bytes} (h : IsGroup g) : (58 : UInt8) ∉ g :=
  fun hMem => isHex_colon (h.digits 58 hMem) rfl

theorem hexValue_lt {c : UInt8} {digit : Nat} (h : PercentCode.hexValue c = some digit) :
    digit < 16 := by
  simp only [PercentCode.hexValue, UInt8.le_iff_toNat_le] at h
  split at h
  · next hDigit =>
      obtain rfl := Option.some.inj h
      have hLast : c.toNat ≤ 57 := hDigit.2
      omega
  · split at h
    · next hUpper =>
        obtain rfl := Option.some.inj h
        have hLast : c.toNat ≤ 70 := hUpper.2
        omega
    · split at h
      · next hLower =>
          obtain rfl := Option.some.inj h
          have hLast : c.toNat ≤ 102 := hLower.2
          omega
      · cases h

/-- Another digit shifts the others by four bits. -/
theorem value_append_singleton (g : Bytes) (c : UInt8) :
    value (g ++ [c]) = 16 * value g + (PercentCode.hexValue c).getD 0 := by
  simp [value]

/-- Each digit has four bits. -/
theorem value_lt (g : Bytes) : value g < 16 ^ g.length := by
  induction g using List.reverseRecOn with
  | nil => decide
  | append_singleton g c ih =>
      have hDigit : (PercentCode.hexValue c).getD 0 < 16 := by
        cases h : PercentCode.hexValue c with
        | none => decide
        | some digit => exact hexValue_lt h
      rw [value_append_singleton, List.length_append, List.length_singleton, Nat.pow_succ]
      omega

/-- A group has no more than 16 bits. -/
theorem IsGroup.value_lt {g : Bytes} (h : IsGroup g) : value g < 65536 :=
  (AddressText.value_lt g).trans_le (Nat.pow_le_pow_right (by decide) h.length)

theorem intercalate_cons_cons (first second : Bytes) (rest : List Bytes) :
    [58].intercalate (first :: second :: rest) =
      first ++ 58 :: [58].intercalate (second :: rest) := by
  rw [List.intercalate_cons_cons]
  simp

/-- A first part that is empty. -/
theorem intercalate_nil_cons (parts : List Bytes) :
    [58].intercalate ([] :: parts) = parts.flatMap (58 :: ·) := by
  induction parts with
  | nil => rfl
  | cons first rest ih =>
      rw [intercalate_cons_cons, List.nil_append, List.flatMap_cons]
      cases rest with
      | nil => simp [List.intercalate]
      | cons second rest =>
          rw [intercalate_cons_cons] at ih ⊢
          simpa using ih

theorem flatMap_colon {parts : List Bytes} (h : parts ≠ []) :
    parts.flatMap (58 :: ·) = 58 :: [58].intercalate parts := by
  obtain ⟨first, rest, rfl⟩ := List.exists_cons_of_ne_nil h
  rw [← intercalate_nil_cons, intercalate_cons_cons, List.nil_append]

/-- Parts behind others each bring their colon along. -/
theorem intercalate_append (front : List Bytes) (hFront : front ≠ []) (back : List Bytes) :
    [58].intercalate (front ++ back) = [58].intercalate front ++ back.flatMap (58 :: ·) := by
  induction front with
  | nil => exact absurd rfl hFront
  | cons first rest ih =>
      cases rest with
      | nil =>
          cases back with
          | nil => simp
          | cons second back =>
              rw [List.singleton_append, intercalate_cons_cons, ← intercalate_nil_cons,
                intercalate_cons_cons]
              simp [List.intercalate]
      | cons second rest =>
          rw [List.cons_append, List.cons_append, intercalate_cons_cons, intercalate_cons_cons,
            ← List.cons_append, ih (by simp)]
          simp

/-- A null field in front. -/
theorem nullText_nil {parts : List Bytes} (h : parts ≠ []) :
    nullText [] parts = 58 :: 58 :: [58].intercalate parts := by
  obtain ⟨first, rest, rfl⟩ := List.exists_cons_of_ne_nil h
  simp [nullText]

/-- Behind other parts a null field is an empty part, or two at the end. -/
theorem nullText_of_ne_nil {front : List Bytes} (hFront : front ≠ []) (back : List Bytes) :
    nullText front back =
      [58].intercalate (front ++ [] :: if back = [] then [[]] else back) := by
  by_cases hBack : back = []
  · rw [nullText, if_neg hFront, if_pos hBack, if_pos hBack, hBack, intercalate_append _ hFront,
      intercalate_append _ hFront]
    simp
  · rw [nullText, if_neg hFront, if_neg hBack, if_neg hBack]
    simp

theorem head?_intercalate {first : Bytes} (hFirst : first ≠ []) (rest : List Bytes) :
    ([58].intercalate (first :: rest)).head? = first.head? := by
  obtain ⟨c, more, rfl⟩ := List.exists_cons_of_ne_nil hFirst
  cases rest with
  | nil => simp
  | cons second rest => rw [intercalate_cons_cons]; rfl

/-- A text ends like its last part, if that is not empty. -/
theorem getLast?_intercalate {last : Bytes} (hLast : last ≠ []) (front : List Bytes) :
    ([58].intercalate (front ++ [last])).getLast? = last.getLast? := by
  by_cases hFront : front = []
  · subst hFront
    simp
  · rw [intercalate_append front hFront, List.flatMap_singleton,
      List.getLast?_append_of_ne_nil _ (by simp), List.getLast?_cons_of_ne_nil hLast]

theorem intercalate_ne_nil {first : Bytes} (hFirst : first ≠ []) (rest : List Bytes) :
    [58].intercalate (first :: rest) ≠ [] := by
  intro hNil
  have hHead := head?_intercalate hFirst rest
  rw [hNil] at hHead
  exact hFirst (List.head?_eq_none_iff.mp hHead.symm)

/-- A text has colons and the characters of its parts. -/
theorem mem_intercalate {c : UInt8} {parts : List Bytes} (h : c ∈ [58].intercalate parts) :
    c = 58 ∨ ∃ part ∈ parts, c ∈ part := by
  induction parts with
  | nil => cases h
  | cons first rest ih =>
      cases rest with
      | nil => exact .inr ⟨first, List.mem_cons_self, by simpa using h⟩
      | cons second rest =>
          rw [intercalate_cons_cons] at h
          rcases List.mem_append.mp h with hFirst | hRest
          · exact .inr ⟨first, List.mem_cons_self, hFirst⟩
          · rcases List.mem_cons.mp hRest with rfl | hRest
            · exact .inl rfl
            · obtain hColon | ⟨part, hPart, hc⟩ := ih hRest
              · exact .inl hColon
              · exact .inr ⟨part, List.mem_cons_of_mem _ hPart, hc⟩

/-- A null field adds no other characters. -/
theorem mem_nullText {c : UInt8} {front back : List Bytes} (h : c ∈ nullText front back) :
    c = 58 ∨ ∃ part ∈ front ++ back, c ∈ part := by
  simp only [nullText, List.mem_append] at h
  obtain (hColon | hParts) | hColon := h
  · split at hColon
    · exact .inl (List.mem_singleton.mp hColon)
    · cases hColon
  · obtain hColon | ⟨part, hPart, hc⟩ := mem_intercalate hParts
    · exact .inl hColon
    · refine .inr ⟨part, ?_, hc⟩
      have hNonempty : part ≠ [] := List.ne_nil_of_mem hc
      simpa [hNonempty] using hPart
  · split at hColon
    · exact .inl (List.mem_singleton.mp hColon)
    · cases hColon

/-- The length of the parts with a colon each. -/
def width : List Bytes → Nat
  | [] => 0
  | first :: rest => first.length + 1 + width rest

@[simp] theorem width_nil : width [] = 0 := rfl

@[simp] theorem width_cons (first : Bytes) (rest : List Bytes) :
    width (first :: rest) = first.length + 1 + width rest := rfl

@[simp] theorem width_append (front back : List Bytes) :
    width (front ++ back) = width front + width back := by
  induction front with
  | nil => rw [List.nil_append, width_nil, Nat.zero_add]
  | cons first rest ih =>
      rw [List.cons_append, width_cons, width_cons, ih]
      omega

/-- Each part is as wide as its colon at least. -/
theorem length_le_width (parts : List Bytes) : parts.length ≤ width parts := by
  induction parts with
  | nil => exact Nat.le_refl 0
  | cons first rest ih =>
      rw [List.length_cons, width_cons]
      omega

/-- A group takes no more than four digits and a colon. -/
theorem width_le {groups : List Bytes} (h : ∀ g ∈ groups, IsGroup g) :
    width groups ≤ 5 * groups.length := by
  induction groups with
  | nil => exact Nat.le_refl 0
  | cons g groups ih =>
      have hFirst := (h g List.mem_cons_self).length
      have hRest := ih fun g hg => h g (List.mem_cons_of_mem _ hg)
      rw [width_cons, List.length_cons]
      omega

/-- One colon less than there are parts. -/
theorem length_intercalate {parts : List Bytes} (h : parts ≠ []) :
    ([58].intercalate parts).length + 1 = width parts := by
  induction parts with
  | nil => exact absurd rfl h
  | cons first rest ih =>
      cases rest with
      | nil => simp
      | cons second rest =>
          have hRest := ih (by simp)
          rw [intercalate_cons_cons, List.length_append, List.length_cons, width_cons]
          omega

/-- A null field at an end takes a colon of its own. -/
theorem length_nullText (front back : List Bytes) :
    (nullText front back).length =
      (if front = [] then 1 else 0) + width front + width back + if back = [] then 1 else 0 := by
  have hJoin : ([58].intercalate (front ++ [] :: back)).length + 1 = _ :=
    length_intercalate (by simp)
  rw [width_append, width_cons, List.length_nil] at hJoin
  simp only [nullText, List.length_append]
  split <;> split <;> simp only [List.length_nil, List.length_singleton] <;> omega

/-- A text has two characters, and is no more than 42 longer than its last part. -/
theorem Denotes.length {Tail : Bytes → Prop} {text : Bytes} {fields : List Nat}
    {tail : Option Bytes} (h : Denotes Tail text fields tail) :
    2 ≤ text.length ∧ width tail.toList ≤ text.length + 1 ∧
      text.length ≤ 42 + width tail.toList := by
  cases h with
  | @full groups _ hGroups hTail hSize =>
      have hAdd : groups.length ≤ 8 ∧ 6 ≤ groups.length := by
        rw [hSize]
        cases tail <;> simp [size]
      have hParts : groups ++ tail.toList ≠ [] := by
        rintro hNil
        rw [(List.append_eq_nil_iff.mp hNil).1] at hAdd
        exact absurd hAdd.2 (by decide)
      have hWidth := length_intercalate hParts
      have hLow := length_le_width groups
      have hHigh := width_le hGroups
      rw [width_append] at hWidth
      omega
  | @null front back _ hFront hBack hTail hSize =>
      have hLowFront := length_le_width front
      have hLowBack := length_le_width (back ++ tail.toList)
      have hHighFront := width_le hFront
      have hHighBack := width_le hBack
      have hWidth := width_append back tail.toList
      rw [length_nullText]
      generalize back ++ tail.toList = parts at hLowBack hWidth ⊢
      by_cases hNil : front = [] <;> by_cases hEnd : parts = []
      · simp only [hNil, hEnd, if_true, width_nil] at hWidth ⊢
        omega
      · have hSome := List.length_pos_of_ne_nil hEnd
        rw [if_pos hNil, if_neg hEnd]
        omega
      · have hSome := List.length_pos_of_ne_nil hNil
        rw [if_neg hNil, if_pos hEnd]
        omega
      · have hFirst := List.length_pos_of_ne_nil hNil
        have hSome := List.length_pos_of_ne_nil hEnd
        rw [if_neg hNil, if_neg hEnd]
        omega

/-- A dotted part takes the place of two groups. -/
theorem size_add (tail : Option Bytes) : size tail + 2 * tail.toList.length = 8 := by
  cases tail <;> rfl

/-- What is denoted are fields of 16 bits, as many as the last part leaves. -/
theorem Denotes.fields {Tail : Bytes → Prop} {text : Bytes} {fields : List Nat}
    {tail : Option Bytes} (h : Denotes Tail text fields tail) :
    fields.length = size tail ∧ (∀ field ∈ fields, field < 65536) ∧ ∀ t ∈ tail, Tail t := by
  have hValue : ∀ {groups : List Bytes}, (∀ g ∈ groups, IsGroup g) →
      ∀ field ∈ groups.map value, field < 65536 := by
    intro groups hGroups field hField
    obtain ⟨g, hMem, rfl⟩ := List.mem_map.mp hField
    exact (hGroups g hMem).value_lt
  cases h with
  | @full groups _ hGroups hTail hSize =>
      exact ⟨by rw [List.length_map, hSize], hValue hGroups, hTail⟩
  | @null front back _ hFront hBack hTail hSize =>
      have hAdd := size_add tail
      have hOne : tail.toList.length ≤ 1 := by cases tail <;> simp
      refine ⟨?_, ?_, hTail⟩
      · simp only [List.length_append, List.length_map, List.length_replicate]
        omega
      · intro field hField
        rcases List.mem_append.mp hField with hField | hField
        · rcases List.mem_append.mp hField with hField | hField
          · exact hValue hFront field hField
          · rw [List.eq_of_mem_replicate hField]
            decide
        · exact hValue hBack field hField

end AddressText
