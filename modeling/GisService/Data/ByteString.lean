import Mathlib.Data.List.Infix
import Mathlib.Data.List.TakeWhile

/-! Byte strings as C and C++ code sees them: substring search, the text in
front of a terminator, and strings cut at separators. Nothing here refers to
a particular program. -/
namespace ByteString

abbrev Bytes := List UInt8

/-- The bytes of a text whose characters all fit in one byte. -/
def ascii (s : String) : Bytes := s.toList.map fun c => c.toNat.toUInt8

/-- First position at which `needle` occurs, as `std::string::find` reports
it. `none` stands for `npos`. The empty needle occurs at position zero. -/
def find (needle : Bytes) : Bytes → Option Nat
  | [] => if needle = [] then some 0 else none
  | c :: rest => if needle <+: c :: rest then some 0 else (find needle rest).map (· + 1)

/-- The search started at position `pos`, with positions still counted from
the beginning of the string. -/
def findFrom (needle : Bytes) (pos : Nat) (s : Bytes) : Option Nat :=
  (find needle (s.drop pos)).map (· + pos)

/-- The bytes in front of the first NUL: what remains of a string once it
has been passed through a `const char*`. -/
def cstr (s : Bytes) : Bytes := s.takeWhile (· ≠ 0)

/-- What holds of all bytes can be checked one by one. -/
theorem forall_byte {P : UInt8 → Prop} (h : ∀ n : Fin 256, P (UInt8.ofNat n)) (b : UInt8) : P b := by
  have hByte := h ⟨b.toNat, b.toNat_lt⟩
  rwa [UInt8.ofNat_toNat] at hByte

/-- Searching succeeds exactly on the strings that contain the needle. -/
theorem find_isSome_iff (needle s : Bytes) : (find needle s).isSome ↔ needle <:+: s := by
  induction s with
  | nil =>
      by_cases h : needle = [] <;> simp [find, h]
  | cons c rest ih =>
      rw [List.infix_cons_iff, ← ih]
      by_cases h : needle <+: c :: rest <;> simp [find, h]

/-- A search stops at the first occurrence of the needle's first byte, if the
needle is there. -/
theorem find_append {c : UInt8} {needle before : Bytes} (h : c ∉ before) (after : Bytes) :
    find (c :: needle) (before ++ (c :: needle ++ after)) = some before.length := by
  induction before with
  | nil => simp [find]
  | cons b before ih =>
      have hb : ¬ c :: needle <+: b :: (before ++ (c :: needle ++ after)) := by
        intro hPrefix
        have := (List.cons_prefix_cons.mp hPrefix).1
        exact h (by simp [this])
      have hRest : c ∉ before := fun hm => h (List.mem_cons_of_mem _ hm)
      simp only [List.cons_append] at hb ih ⊢
      simp only [find, hb, if_false, ih hRest, Option.map_some, List.length_cons]

theorem find_byte_append {c : UInt8} {before : Bytes} (h : c ∉ before) (after : Bytes) :
    find [c] (before ++ c :: after) = some before.length :=
  find_append h after

/-- A byte that is found splits the string at its first occurrence. -/
theorem split_of_find_byte {c : UInt8} {s : Bytes} {n : Nat} (h : find [c] s = some n) :
    c ∉ s.take n ∧ s = s.take n ++ c :: s.drop (n + 1) := by
  induction s generalizing n with
  | nil => simp [find] at h
  | cons b rest ih =>
      by_cases hb : b = c
      · subst hb
        have hn : n = 0 := by simpa [find, eq_comm] using h
        subst hn
        simp
      · have hPrefix : ¬ [c] <+: b :: rest := by
          intro hp
          exact hb (List.cons_prefix_cons.mp hp).1.symm
        simp only [find, hPrefix, if_false, Option.map_eq_some_iff] at h
        obtain ⟨m, hm, rfl⟩ := h
        obtain ⟨hNot, hSplit⟩ := ih hm
        refine ⟨?_, ?_⟩
        · simp [hNot, Ne.symm hb]
        · simpa using hSplit

/-- No byte of a C string is the terminator. -/
theorem zero_not_mem_cstr (s : Bytes) : (0 : UInt8) ∉ cstr s := by
  intro h
  simpa using List.mem_takeWhile_imp h

theorem cstr_eq_self {s : Bytes} (h : (0 : UInt8) ∉ s) : cstr s = s := by
  rw [cstr, List.takeWhile_eq_self_iff]
  intro b hb
  simpa using fun hz : b = 0 => h (hz ▸ hb)

/-- Passing a string through a C string loses nothing exactly when it
contains no terminator. -/
theorem cstr_length_eq_iff (s : Bytes) : (cstr s).length = s.length ↔ (0 : UInt8) ∉ s := by
  constructor
  · intro h
    have hSelf : cstr s = s := (List.takeWhile_prefix _).eq_of_length h
    exact hSelf ▸ zero_not_mem_cstr s
  · intro h
    rw [cstr_eq_self h]

theorem cstr_isPrefix (s : Bytes) : cstr s <+: s := List.takeWhile_prefix _

/-- A part without a terminator is not cut. -/
theorem cstr_append_of_not_mem {a : Bytes} (h : (0 : UInt8) ∉ a) (b : Bytes) :
    cstr (a ++ b) = a ++ cstr b := by
  rw [cstr, List.takeWhile_append_of_pos]
  · rfl
  · intro c hc
    simpa using fun hz : c = 0 => h (hz ▸ hc)

/-- Memory read back as a C string yields the terminated text stored at its
start, whatever older bytes follow the terminator. -/
theorem cstr_append_zero {s : Bytes} (h : (0 : UInt8) ∉ s) (stale : Bytes) :
    cstr (s ++ 0 :: stale) = s := by
  rw [cstr_append_of_not_mem h]
  simp [cstr]

/-- A part with a terminator hides what follows it. -/
theorem cstr_append_of_mem {a : Bytes} (h : (0 : UInt8) ∈ a) (b : Bytes) :
    cstr (a ++ b) = cstr a := by
  obtain ⟨front, back, rfl, hFront⟩ := List.eq_append_cons_of_mem h
  rw [List.append_assoc, List.cons_append, cstr_append_zero hFront, cstr_append_zero hFront]

section Separators
variable {sep : UInt8} {a b c : Bytes}

/-- A substring without the separator lies on one side of it. -/
theorem infix_append_cons {needle : Bytes} (h : sep ∉ needle) (hInfix : needle <:+: a ++ sep :: b) :
    needle <:+: a ∨ needle <:+: b := by
  rcases List.infix_append_iff.mp hInfix with hLeft | hRight | ⟨front, back, rfl, hFront, hBack⟩
  · exact .inl hLeft
  · rcases List.infix_cons_iff.mp hRight with hPrefix | hInner
    · cases needle with
      | nil => exact .inl List.nil_infix
      | cons n needle =>
          obtain rfl := (List.cons_prefix_cons.mp hPrefix).1
          simp at h
    · exact .inr hInner
  · cases back with
    | nil => exact .inl (by simpa using hFront.isInfix)
    | cons n back =>
        obtain rfl := (List.cons_prefix_cons.mp hBack).1
        simp at h

/-- The first separator cuts a string in only one way. -/
theorem cut_unique {a' : Bytes} {rest rest' : Bytes} (ha : sep ∉ a) (ha' : sep ∉ a')
    (h : a ++ sep :: rest = a' ++ sep :: rest') : a = a' ∧ rest = rest' := by
  have hLength : a.length = a'.length := by
    have hFind := congrArg (find [sep]) h
    rw [find_byte_append ha, find_byte_append ha'] at hFind
    exact Option.some.inj hFind
  obtain ⟨hLeft, hRight⟩ := List.append_inj h hLength
  exact ⟨hLeft, (List.cons.inj hRight).2⟩

/-- A string with exactly two separators determines its three fields. -/
theorem fields_unique {a' b' c' : Bytes} (ha : sep ∉ a) (hb : sep ∉ b)
    (ha' : sep ∉ a') (hb' : sep ∉ b')
    (h : a ++ sep :: (b ++ sep :: c) = a' ++ sep :: (b' ++ sep :: c')) :
    a = a' ∧ b = b' ∧ c = c' := by
  obtain ⟨hFirst, hRest⟩ := cut_unique ha ha' h
  obtain ⟨hSecond, hThird⟩ := cut_unique hb hb' hRest
  exact ⟨hFirst, hSecond, hThird⟩

/-- A substring that still shows both separators of a three-field string
keeps the middle field whole. Only the front of the first field and the back
of the last one can be missing. -/
theorem infix_fields {a' b' c' : Bytes} (ha : sep ∉ a) (hb : sep ∉ b) (hc : sep ∉ c)
    (h : a' ++ sep :: (b' ++ sep :: c') <:+: a ++ sep :: (b ++ sep :: c)) :
    a' <:+ a ∧ b' = b ∧ c' <+: c := by
  obtain ⟨before, after, hEq⟩ := h
  have hCount := congrArg (List.count sep) hEq
  simp only [List.count_append, List.count_cons_self, List.count_eq_zero_of_not_mem ha,
    List.count_eq_zero_of_not_mem hb, List.count_eq_zero_of_not_mem hc] at hCount
  have hFront : sep ∉ before ++ a' := by
    rw [← List.count_eq_zero, List.count_append]
    omega
  have hMiddle : sep ∉ b' := by
    rw [← List.count_eq_zero]
    omega
  have hFields : (before ++ a') ++ sep :: (b' ++ sep :: (c' ++ after)) =
      a ++ sep :: (b ++ sep :: c) := by
    simpa [List.append_assoc] using hEq
  obtain ⟨rfl, rfl, rfl⟩ := fields_unique hFront hMiddle ha hb hFields
  exact ⟨List.suffix_append _ _, rfl, List.prefix_append _ _⟩

end Separators

/-- No piece contains the separator. -/
theorem not_mem_of_mem_splitOn {separator : UInt8} {s piece : Bytes}
    (h : piece ∈ s.splitOn separator) : separator ∉ piece := by
  induction s generalizing piece with
  | nil =>
      obtain rfl := List.mem_singleton.mp h
      simp
  | cons c s ih =>
      rw [List.splitOn_cons_eq_if_modifyHead] at h
      split at h
      · rcases List.mem_cons.mp h with rfl | hMem
        · simp
        · exact ih hMem
      · next hc =>
          obtain ⟨first, rest, hPieces⟩ :=
            List.exists_cons_of_ne_nil (List.splitOn_ne_nil separator s)
          have hFirst : separator ∉ first := ih (by simp [hPieces])
          rw [hPieces, List.modifyHead_cons] at h
          rcases List.mem_cons.mp h with rfl | hMem
          · simp only [beq_iff_eq] at hc
            simp [hFirst, Ne.symm hc]
          · exact ih (by simp [hPieces, hMem])

end ByteString
