import GisService.Data.Cxx
import GisService.Data.Decimal
import GisService.Data.Memory

/-! C strings in memory, and the library functions that cut them into tokens
and read numbers from them. An array is the list of its bytes, and what lies
behind its end is not known. -/
namespace CString

open ByteString

/-- Why a function on C strings has no result. -/
inductive Fault where
  | overrun
  | thrown (e : Cxx.Exception)
  deriving DecidableEq

/-- `std::string(const char *)`. It reads on until it finds a NUL, which has to
be in the array. -/
def stdString (array : Bytes) : Except Fault Bytes :=
  if (0 : UInt8) ∈ array then .ok (cstr array) else .error .overrun

/-- `char array[size] = {0}; memcpy(array, memory + offset, count);` -/
def copied (memory : Bytes) (size offset count : Nat) : Except Fault Bytes :=
  if count ≤ size ∧ count ≤ (memory.drop offset).length then
    .ok (Memory.store (List.replicate size 0) 0 ((memory.drop offset).take count))
  else .error .overrun

/-- `isspace` -/
def isSpace (ch : UInt8) : Bool := ch = 32 || (9 ≤ ch && ch ≤ 13)

/-- What `strtol` reads in base ten, if it reads anything: spaces, a sign and
digits, up to the first other character. -/
def scanInt (s : Bytes) : Option Int :=
  let s := s.dropWhile isSpace
  let negative := s.head? = some 45
  let s := if negative ∨ s.head? = some 43 then s.drop 1 else s
  let digits := s.takeWhile Decimal.isDigit
  if digits = [] then none
  else some (if negative then -(Decimal.value digits : Int) else Decimal.value digits)

/-- `std::stoi` -/
def stoi (s : Bytes) : Except Fault Int :=
  match scanInt s with
  | none => .error (.thrown .invalidArgument)
  | some n =>
      if -2 ^ 31 ≤ n ∧ n < 2 ^ 31 then .ok n else .error (.thrown .outOfRange)

/-- `atoi`. A number that does not fit keeps its low bits. -/
def atoi (memory : Bytes) : Except Fault Int := do
  let s ← stdString memory
  return Memory.narrow ((scanInt s).getD 0)

/-- The memory at a token, once its end has been marked with a NUL. -/
def marked (sep : UInt8) (memory : Bytes) : Bytes :=
  let token := memory.takeWhile fun ch => ch ≠ sep ∧ ch ≠ 0
  token ++ 0 :: memory.drop (token.length + 1)

/-- The rest of the tokens, from inside a token or from between two of them. -/
def tokens (sep : UInt8) (inside : Bool) : Bytes → List Bytes
  | [] => []
  | ch :: memory =>
      if ch = 0 then []
      else if ch = sep then tokens sep false memory
      else if inside then tokens sep true memory
      else marked sep (ch :: memory) :: tokens sep true memory

/-- The successive results of `strtok` on a string, each with the memory that
follows it. -/
def strtok (sep : UInt8) (memory : Bytes) : List Bytes := tokens sep false memory

section Fields
variable {memory piece : Bytes} {room offset count : Nat}

/-- The array that a piece of the memory is copied to. -/
theorem copied_piece (hPiece : (memory.drop offset).take count = piece)
    (hLength : piece.length = count) :
    copied memory (count + room) offset count = .ok (piece ++ List.replicate room 0) := by
  have hFits : count ≤ (memory.drop offset).length := by
    rw [← hPiece, List.length_take] at hLength
    omega
  rw [copied, if_pos ⟨Nat.le_add_right _ _, hFits⟩, Memory.store_front, List.drop_replicate, hPiece,
    hLength, Nat.add_sub_cancel_left]

/-- An array that a text without a NUL fills to its end is no C string. -/
theorem stdString_full (hPiece : (0 : UInt8) ∉ piece) : stdString piece = .error .overrun :=
  if_neg hPiece

/-- One more byte is enough. -/
theorem stdString_room (hPiece : (0 : UInt8) ∉ piece) (hRoom : 0 < room) :
    stdString (piece ++ List.replicate room 0) = .ok piece := by
  obtain ⟨room, rfl⟩ := Nat.exists_eq_succ_of_ne_zero (Nat.ne_of_gt hRoom)
  rw [List.replicate_succ, stdString, if_pos (by simp), cstr_append_zero hPiece]

/-- At most nine digits are an `int`. -/
theorem stoi_digits {digits : Bytes} (h : ∀ ch ∈ digits, Decimal.isDigit ch = true)
    (hNe : digits ≠ []) (hLength : digits.length ≤ 9) :
    stoi digits = .ok (Decimal.value digits) := by
  have hValue : Decimal.value digits < 10 ^ 9 :=
    (Decimal.value_lt h).trans_le (Nat.pow_le_pow_right (by decide) hLength)
  obtain ⟨ch, rest, rfl⟩ := List.exists_cons_of_ne_nil hNe
  have hDigit := (Decimal.isDigit_iff ch).mp (h ch List.mem_cons_self)
  have hSpace : isSpace ch = false := by
    simp only [isSpace, Bool.or_eq_false_iff, Bool.and_eq_false_iff, decide_eq_false_iff_not,
      UInt8.le_iff_toNat_le]
    refine ⟨?_, .inr (by simp; omega)⟩
    rintro rfl
    simp at hDigit
  have hMinus : ch ≠ 45 := by
    rintro rfl
    simp at hDigit
  have hPlus : ch ≠ 43 := by
    rintro rfl
    simp at hDigit
  have hTake : (ch :: rest).takeWhile Decimal.isDigit = ch :: rest :=
    List.takeWhile_eq_self_iff.mpr h
  have hScan : scanInt (ch :: rest) = some (Decimal.value (ch :: rest) : Int) := by
    rw [scanInt, List.dropWhile_cons_of_neg (by simp [hSpace])]
    simp [hMinus, hPlus, hTake]
  rw [stoi, hScan]
  exact if_pos (by omega)

end Fields

section Tokens
variable {sep : UInt8} {token : Bytes}

theorem tokens_inside (hSep : sep ∉ token) (hZero : (0 : UInt8) ∉ token) (memory : Bytes) :
    tokens sep true (token ++ memory) = tokens sep true memory := by
  induction token with
  | nil => rfl
  | cons ch token ih =>
      simp only [List.mem_cons, not_or] at hSep hZero
      rw [List.cons_append, tokens, if_neg (Ne.symm hZero.1), if_neg (Ne.symm hSep.1), if_pos rfl]
      exact ih hSep.2 hZero.2

/-- A token that a separator ends. -/
theorem strtok_append (hNe : token ≠ []) (hSep : sep ∉ token) (hZero : (0 : UInt8) ∉ token)
    (hOther : sep ≠ 0) (memory : Bytes) :
    strtok sep (token ++ sep :: memory) = (token ++ 0 :: memory) :: strtok sep memory := by
  have hToken : (token ++ sep :: memory).takeWhile (fun ch => ch ≠ sep ∧ ch ≠ 0) = token := by
    rw [List.takeWhile_append_of_pos]
    · simp
    · intro ch hMem
      simp only [ne_eq, decide_eq_true_eq]
      exact ⟨fun hEq => hSep (hEq ▸ hMem), fun hEq => hZero (hEq ▸ hMem)⟩
  have hMarked : marked sep (token ++ sep :: memory) = token ++ 0 :: memory := by
    rw [marked, hToken]
    simp [List.drop_append]
  obtain ⟨ch, rest, rfl⟩ := List.exists_cons_of_ne_nil hNe
  simp only [List.mem_cons, not_or] at hSep hZero
  rw [List.cons_append] at hMarked
  rw [strtok, List.cons_append, tokens, if_neg (Ne.symm hZero.1), if_neg (Ne.symm hSep.1),
    if_neg (by decide), hMarked, tokens_inside hSep.2 hZero.2, tokens, if_neg hOther, if_pos rfl]
  rfl

end Tokens

end CString
