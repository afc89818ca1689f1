import Mathlib.Algebra.Group.Int.Defs

/-! The parts of the C++ runtime that the service's results depend on: the
exception classes that can leave a call, and readings of the system clock. -/
namespace Cxx

/-- Exception classes thrown by the modelled code or by the libraries it
calls. Their messages are never inspected. -/
inductive Exception where
  | invalidArgument
  | runtimeError
  | badCast
  | outOfRange
  | overflowError
  | logicError
  | systemError
  deriving DecidableEq, Repr

/-- A `std::chrono::system_clock::time_point`: signed nanoseconds since 1970. -/
abbrev TimePoint := Int64

def nanosPerSecond : Int := 1000000000

/-- `system_clock::to_time_t`, whose duration cast truncates toward zero. -/
def toTimeT (d : TimePoint) : Int := d.toInt.tdiv nanosPerSecond

/-- `system_clock::from_time_t`, in nanoseconds since 1970. Seconds that are too
many for 64 bits wrap around. -/
def fromTimeT (t : Int) : Int := (t * nanosPerSecond).bmod 0x10000000000000000

/-- `std::chrono::minutes{1}` in nanoseconds. -/
def oneMinute : TimePoint := 60000000000

/-- Whole seconds of a clock reading always fit a 64-bit integer. -/
theorem toTimeT_bounds (d : TimePoint) : -2 ^ 63 ≤ toTimeT d ∧ toTimeT d < 2 ^ 63 := by
  have hLow := d.le_toInt
  have hHigh := d.toInt_lt
  simp only [toTimeT, nanosPerSecond]
  rcases Int.le_total 0 d.toInt with hSign | hSign
  · rw [Int.tdiv_eq_ediv_of_nonneg hSign]
    omega
  · have hNegated : d.toInt.tdiv 1000000000 = -((-d.toInt) / 1000000000) := by
      rw [← Int.tdiv_eq_ediv_of_nonneg (by omega), Int.neg_tdiv, Int.neg_neg]
    omega

section Throwing
variable {α β : Type}

/-- A sequence of two calls returns exactly if both do. -/
theorem bind_isOk_iff {call : Except Exception α} {next : α → Except Exception β} :
    (call >>= next).isOk = true ↔ ∃ result, call = .ok result ∧ (next result).isOk = true := by
  cases call with
  | error e => simp [bind, Except.bind, Except.isOk, Except.toBool]
  | ok result => simp [bind, Except.bind]

theorem bind_eq_ok_iff {call : Except Exception α} {next : α → Except Exception β} {final : β} :
    (call >>= next) = .ok final ↔ ∃ result, call = .ok result ∧ next result = .ok final := by
  cases call with
  | error e => simp [bind, Except.bind]
  | ok result => simp [bind, Except.bind]

@[simp] theorem isOk_ok (result : α) : (Except.ok result : Except Exception α).isOk = true := rfl

@[simp] theorem isOk_error (e : Exception) : (Except.error e : Except Exception α).isOk = false := rfl

end Throwing

end Cxx
