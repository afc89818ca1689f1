import GisService.Data.CString
import GisService.Data.Double

/-! The lines of the GPS log. Each has the same moment twice, and two functions
decode it into microseconds, one from three digits of the fraction and one from
all nine. -/
namespace Gps

open ByteString CString

/-- The members of `std::tm` that are set. -/
structure Tm where
  year : Int
  mon : Int
  mday : Int
  hour : Int
  min : Int
  sec : Int
  deriving DecidableEq

/-- `mktime` depends on the time zone, and `atof` on the locale. -/
structure Runtime where
  mktime : Tm → Int64
  atof : Bytes → Double

/-- The arrays that the pieces of a text are copied to. -/
structure Pieces where
  year : Bytes
  month : Bytes
  day : Bytes
  hour : Bytes
  min : Bytes
  sec : Bytes
  fraction : Bytes

/-- The declarations and copies at the beginning of both functions. Each array
has `room` more bytes than it is to hold characters. -/
def copyPieces (room digits : Nat) (timeDate : Bytes) : Except Fault Pieces := do
  let year ← copied timeDate (4 + room) 0 4
  let month ← copied timeDate (2 + room) 5 2
  let day ← copied timeDate (2 + room) 8 2
  let hour ← copied timeDate (2 + room) 11 2
  let min ← copied timeDate (2 + room) 14 2
  let sec ← copied timeDate (2 + room) 17 2
  let fraction ← copied timeDate (digits + room) 20 digits
  return { year, month, day, hour, min, sec, fraction }

/-- `stoi(std::string(array))` -/
def number (array : Bytes) : Except Fault Int := stdString array >>= stoi

def Pieces.now (p : Pieces) : Except Fault Tm := do
  let year ← number p.year
  let mon ← number p.month
  let mday ← number p.day
  let hour ← number p.hour
  let min ← number p.min
  let sec ← number p.sec
  return { year := year - 1900, mon := mon - 1, mday, hour, min, sec }

/-- `getCalcTime` with arrays of some room, up to the conversion of `tt`. -/
def calcTime (room : Nat) (rt : Runtime) (timeDate : Bytes) : Except Fault Int64 := do
  let p ← copyPieces room 3 timeDate
  let now ← p.now
  let msec ← number p.fraction
  return (rt.mktime now * 1000 + Int64.ofInt msec) * 1000

/-- `getCalcTimeNs` with arrays of some room, up to the conversion of `tt`. -/
def calcTimeNs (room : Nat) (rt : Runtime) (timeDate : Bytes) : Except Fault Int64 := do
  let p ← copyPieces room 9 timeDate
  let now ← p.now
  let nsec ← number p.fraction
  return rt.mktime now * 1000000 + Int64.ofInt (nsec.tdiv 1000)

/-- `getCalcTime`, whose arrays have no room. -/
def getCalcTime (rt : Runtime) (timeDate : Bytes) : Except Fault Double := do
  let tt ← calcTime 0 rt timeDate
  return Double.ofInt tt.toInt

/-- `getCalcTimeNs`, whose arrays have no room. -/
def getCalcTimeNs (rt : Runtime) (timeDate : Bytes) : Except Fault Double := do
  let tt ← calcTimeNs 0 rt timeDate
  return Double.ofInt tt.toInt

/-- The members of `nmea` that are set. -/
structure Nmea where
  xtime : Int64 := 0
  time : Int64 := 0
  frame : UInt64 := 0
  speed : Double := Double.ofInt 0
  lon : Double := Double.ofInt 0
  lat : Double := Double.ofInt 0
  deriving DecidableEq

/-- What the loop of `getField` does with the token number `k`. -/
def setField (rt : Runtime) (data : Nmea) (k : Nat) (token : Bytes) : Except Fault Nmea :=
  match k with
  | 0 => do
      let frame ← atoi (token.drop 6)
      return { data with frame := UInt64.ofInt frame }
  | 1 => do
      let speed ← stdString (token.drop 6)
      return { data with speed := rt.atof speed }
  | 2 => do
      let time ← getCalcTime rt (token.drop 5)
      return { data with time := Int64.ofInt time.toInt }
  | 3 => do
      let xtime ← getCalcTimeNs rt (token.drop 6)
      return { data with xtime := Int64.ofInt xtime.toInt }
  -- the coordinates in the tokens are not used
  | 4 => return { data with lat := Double.ofInt 60 }
  | 5 => return { data with lon := Double.ofInt 30 }
  | _ => return data

def setFields (rt : Runtime) (data : Nmea) (k : Nat) : List Bytes → Except Fault Nmea
  | [] => return data
  | token :: tokens => do
      let data ← setField rt data k token
      setFields rt data (k + 1) tokens

/-- `getField` -/
def getField (rt : Runtime) (str : Bytes) : Except Fault Nmea :=
  setFields rt {} 0 (strtok 32 (str ++ [0]))

abbrev Digits (n : Nat) := Fin n → { ch : UInt8 // Decimal.isDigit ch = true }

def Digits.text {n : Nat} (d : Digits n) : Bytes := List.ofFn fun i => (d i).1

/-- A moment in the format of the log. -/
structure Timestamp where
  year : Digits 4
  month : Digits 2
  day : Digits 2
  hour : Digits 2
  min : Digits 2
  sec : Digits 2
  fraction : Digits 9
  separator : Fin 6 → UInt8

def Timestamp.text (t : Timestamp) : Bytes :=
  t.year.text ++ t.separator 0 :: (t.month.text ++ t.separator 1 :: (t.day.text ++
    t.separator 2 :: (t.hour.text ++ t.separator 3 :: (t.min.text ++ t.separator 4 ::
      (t.sec.text ++ t.separator 5 :: t.fraction.text)))))

def Digits.value {n : Nat} (d : Digits n) : Nat := Decimal.value d.text

theorem Digits.isDigit_of_mem_text {n : Nat} {d : Digits n} {ch : UInt8} (h : ch ∈ d.text) :
    Decimal.isDigit ch = true := by
  obtain ⟨i, rfl⟩ := (List.mem_ofFn' _ _).mp h
  exact (d i).2

theorem Digits.length_text {n : Nat} (d : Digits n) : d.text.length = n := List.length_ofFn

/-- The moment that `mktime` is asked about. -/
def Timestamp.now (t : Timestamp) : Tm where
  year := t.year.value - 1900
  mon := t.month.value - 1
  mday := t.day.value
  hour := t.hour.value
  min := t.min.value
  sec := t.sec.value

/-- The microseconds of a moment: whole seconds, and the fraction without its
last three digits. -/
def Timestamp.micros (rt : Runtime) (t : Timestamp) : Int :=
  1000000 * (rt.mktime t.now).toInt + t.fraction.value / 1000

section Decoders
variable {room : Nat}

/-- The arrays that a timestamp is copied to. -/
def Timestamp.pieces (t : Timestamp) (room digits : Nat) : Pieces where
  year := t.year.text ++ List.replicate room 0
  month := t.month.text ++ List.replicate room 0
  day := t.day.text ++ List.replicate room 0
  hour := t.hour.text ++ List.replicate room 0
  min := t.min.text ++ List.replicate room 0
  sec := t.sec.text ++ List.replicate room 0
  fraction := t.fraction.text.take digits ++ List.replicate room 0

/-- The slices at the fixed offsets are the pieces of a timestamp. -/
theorem copyPieces_text (t : Timestamp) (rest : Bytes) {digits : Nat} (hDigits : digits ≤ 9) :
    copyPieces room digits (t.text ++ rest) = .ok (t.pieces room digits) := by
  have hFraction : ((t.text ++ rest).drop 20).take digits = t.fraction.text.take digits := by
    have hDrop : (t.text ++ rest).drop 20 = t.fraction.text ++ rest := rfl
    rw [hDrop, List.take_append_of_le_length (by rw [Digits.length_text]; exact hDigits)]
  have hLength : (t.fraction.text.take digits).length = digits := by
    rw [List.length_take, Digits.length_text, Nat.min_eq_left hDigits]
  have hYear : ((t.text ++ rest).drop 0).take 4 = t.year.text := rfl
  have hMonth : ((t.text ++ rest).drop 5).take 2 = t.month.text := rfl
  have hDay : ((t.text ++ rest).drop 8).take 2 = t.day.text := rfl
  have hHour : ((t.text ++ rest).drop 11).take 2 = t.hour.text := rfl
  have hMin : ((t.text ++ rest).drop 14).take 2 = t.min.text := rfl
  have hSec : ((t.text ++ rest).drop 17).take 2 = t.sec.text := rfl
  rw [copyPieces, copied_piece hYear t.year.length_text, copied_piece hMonth t.month.length_text,
    copied_piece hDay t.day.length_text, copied_piece hHour t.hour.length_text,
    copied_piece hMin t.min.length_text, copied_piece hSec t.sec.length_text,
    copied_piece hFraction hLength]
  rfl

theorem zero_not_mem_digits {piece : Bytes} (h : ∀ ch ∈ piece, Decimal.isDigit ch = true) :
    (0 : UInt8) ∉ piece := fun hMem => absurd (h 0 hMem) (by decide)

/-- The conversion of a full array reads behind its end. -/
theorem number_full {piece : Bytes} (h : ∀ ch ∈ piece, Decimal.isDigit ch = true) :
    number (piece ++ List.replicate 0 0) = .error .overrun := by
  rw [List.replicate_zero, List.append_nil, number, stdString_full (zero_not_mem_digits h)]
  rfl

/-- With room for a terminator the digits are read as their number. -/
theorem number_room (hRoom : 0 < room) {piece : Bytes}
    (h : ∀ ch ∈ piece, Decimal.isDigit ch = true) (hNe : piece ≠ []) (hLength : piece.length ≤ 9) :
    number (piece ++ List.replicate room 0) = .ok (Decimal.value piece) := by
  rw [number, stdString_room (zero_not_mem_digits h) hRoom]
  exact stoi_digits h hNe hLength

theorem number_digits (hRoom : 0 < room) {n : Nat} (d : Digits n) (hPos : 0 < n) (hLength : n ≤ 9) :
    number (d.text ++ List.replicate room 0) = .ok (d.value : Int) := by
  refine number_room hRoom (fun ch => Digits.isDigit_of_mem_text) ?_ (by rwa [d.length_text])
  intro hNil
  have hText := d.length_text
  rw [hNil, List.length_nil] at hText
  omega

/-- Without room neither decoder gets past the year. -/
theorem now_full (t : Timestamp) (digits : Nat) : (t.pieces 0 digits).now = .error .overrun := by
  have hYear := number_full fun ch (h : ch ∈ t.year.text) => Digits.isDigit_of_mem_text h
  simp only [Pieces.now, Timestamp.pieces, hYear, bind, Except.bind]

/-- The fields of a time are read if each array has room for one more byte. -/
theorem now_room (hRoom : 0 < room) (t : Timestamp) (digits : Nat) :
    (t.pieces room digits).now = .ok t.now := by
  simp only [Pieces.now, Timestamp.pieces, number_digits hRoom _ (by decide : 0 < 4) (by decide),
    number_digits hRoom _ (by decide : 0 < 2) (by decide), bind, Except.bind, pure, Except.pure,
    Timestamp.now]

/-- Without room the first field overruns its array. -/
theorem calcTime_overrun (rt : Runtime) (t : Timestamp) (rest : Bytes) :
    calcTime 0 rt (t.text ++ rest) = .error .overrun := by
  rw [calcTime, copyPieces_text t rest (by decide)]
  simp only [bind, Except.bind, now_full]

theorem calcTimeNs_overrun (rt : Runtime) (t : Timestamp) (rest : Bytes) :
    calcTimeNs 0 rt (t.text ++ rest) = .error .overrun := by
  rw [calcTimeNs, copyPieces_text t rest (by decide)]
  simp only [bind, Except.bind, now_full]

/-- The first three digits of a fraction are its milliseconds. -/
theorem value_take (t : Timestamp) :
    Decimal.value (t.fraction.text.take 3) = t.fraction.value / 1000000 := by
  have hDigits : ∀ ch ∈ t.fraction.text.drop 3, Decimal.isDigit ch = true :=
    fun ch hMem => Digits.isDigit_of_mem_text (List.mem_of_mem_drop hMem)
  have hLength : (t.fraction.text.drop 3).length = 6 := by
    rw [List.length_drop, Digits.length_text]
  have hRest := Decimal.value_lt hDigits
  have hValue : t.fraction.value = Decimal.value (t.fraction.text.take 3) * 10 ^ 6 +
      Decimal.value (t.fraction.text.drop 3) := by
    rw [Digits.value, ← hLength, ← Decimal.value_append, List.take_append_drop]
  rw [hLength] at hRest
  omega

/-- With room the decoder would give the time in microseconds, cut to milliseconds. -/
theorem calcTime_room (hRoom : 0 < room) (rt : Runtime) (t : Timestamp) (rest : Bytes) :
    calcTime room rt (t.text ++ rest) =
      .ok (Int64.ofInt (((rt.mktime t.now).toInt * 1000 + t.fraction.value / 1000000) * 1000)) := by
  have hLength : (t.fraction.text.take 3).length = 3 := by
    rw [List.length_take, Digits.length_text]
    rfl
  have hFraction : number (t.pieces room 3).fraction =
      .ok ((t.fraction.value / 1000000 : Nat) : Int) := by
    rw [← value_take]
    exact number_room hRoom
      (fun ch hMem => Digits.isDigit_of_mem_text (List.mem_of_mem_take hMem))
      (List.ne_nil_of_length_pos (by rw [hLength]; decide)) (by rw [hLength]; decide)
  rw [calcTime, copyPieces_text t rest (by decide)]
  simp only [bind, Except.bind, pure, Except.pure, now_room hRoom, hFraction, Int64.ofInt_mul,
    Int64.ofInt_add, Int64.ofInt_toInt]
  rfl

/-- The other one would not cut it any further. -/
theorem calcTimeNs_room (hRoom : 0 < room) (rt : Runtime) (t : Timestamp) (rest : Bytes) :
    calcTimeNs room rt (t.text ++ rest) = .ok (Int64.ofInt (t.micros rt)) := by
  have hFraction : number (t.pieces room 9).fraction = .ok (t.fraction.value : Int) := by
    rw [Timestamp.pieces, List.take_of_length_le (by rw [Digits.length_text])]
    exact number_digits hRoom t.fraction (by decide) (by decide)
  rw [calcTimeNs, copyPieces_text t rest (by decide)]
  simp only [bind, Except.bind, pure, Except.pure, now_room hRoom, hFraction, Timestamp.micros,
    Int64.ofInt_mul, Int64.ofInt_add, Int64.ofInt_toInt,
    Int.tdiv_eq_ediv_of_nonneg (Int.natCast_nonneg _)]
  rw [Int64.mul_comm]
  rfl

/-- With room for the terminators the decoders agree, as long as a `double`
holds the microseconds. -/
theorem decoders_agree_of_room (hRoom : 0 < room) (rt : Runtime) (t : Timestamp) (rest : Bytes)
    (hLow : -2 ^ 53 < t.micros rt / 1000 * 1000) (hHigh : t.micros rt < 2 ^ 53) :
    ∃ tt ttNs, calcTime room rt (t.text ++ rest) = .ok tt ∧
      calcTimeNs room rt (t.text ++ rest) = .ok ttNs ∧
      (Double.ofInt ttNs.toInt).toInt = t.micros rt ∧
      (Double.ofInt tt.toInt).toInt = t.micros rt / 1000 * 1000 := by
  have hMillis : ((rt.mktime t.now).toInt * 1000 + t.fraction.value / 1000000) * 1000 =
      t.micros rt / 1000 * 1000 := by
    rw [Timestamp.micros]
    omega
  refine ⟨_, _, calcTime_room hRoom rt t rest, calcTimeNs_room hRoom rt t rest, ?_, ?_⟩
  · rw [Int64.toInt_ofInt_of_le (by omega) (by omega)]
    exact Double.toInt_ofInt (by omega) hHigh
  · rw [hMillis, Int64.toInt_ofInt_of_le (by omega) (by omega)]
    exact Double.toInt_ofInt hLow (by omega)

end Decoders

/-- A word without the separator and the terminator. -/
abbrev Word := { s : Bytes // s ≠ [] ∧ (32 : UInt8) ∉ s ∧ (0 : UInt8) ∉ s }

/-- A line of the log, up to the two timestamps. -/
structure LogLine where
  frame : Word
  speed : Word
  stamp : Timestamp
  unbroken : (32 : UInt8) ∉ stamp.text ∧ (0 : UInt8) ∉ stamp.text
  tail : Bytes

def LogLine.text (line : LogLine) : Bytes :=
  line.frame.1 ++ 32 :: (line.speed.1 ++ 32 :: (ascii "time=" ++ line.stamp.text ++
    32 :: (ascii "xtime=" ++ line.stamp.text ++ line.tail)))

/-- The arrays of `getCalcTime` have no room. -/
theorem getCalcTime_overrun (rt : Runtime) (t : Timestamp) (rest : Bytes) :
    getCalcTime rt (t.text ++ rest) = .error .overrun := by
  rw [getCalcTime, calcTime_overrun]
  rfl

theorem getCalcTimeNs_overrun (rt : Runtime) (t : Timestamp) (rest : Bytes) :
    getCalcTimeNs rt (t.text ++ rest) = .error .overrun := by
  rw [getCalcTimeNs, calcTimeNs_overrun]
  rfl

/-- A third token that holds a timestamp ends the loop. -/
theorem setFields_time (rt : Runtime) (t : Timestamp) (rest : Bytes) (data : Nmea)
    (tokens : List Bytes) :
    setFields rt data 2 ((ascii "time=" ++ t.text ++ rest) :: tokens) = .error .overrun := by
  have hDrop : (ascii "time=" ++ t.text ++ rest).drop 5 = t.text ++ rest := by
    rw [List.append_assoc]
    rfl
  simp only [setFields, setField, hDrop, getCalcTime_overrun, bind, Except.bind]

/-- The first two tokens are read to a NUL, if there is one. -/
theorem setField_cases (rt : Runtime) (data : Nmea) {k : Nat} (hk : k < 2) (token : Bytes) :
    (∃ data', setField rt data k token = .ok data') ∨
      setField rt data k token = .error .overrun := by
  rcases Decidable.em ((0 : UInt8) ∈ token.drop 6) with hZero | hZero
  · left
    match k, hk with
    | 0, _ => exact ⟨_, by rw [setField, atoi, stdString, if_pos hZero]; rfl⟩
    | 1, _ => exact ⟨_, by rw [setField, stdString, if_pos hZero]; rfl⟩
  · right
    match k, hk with
    | 0, _ => rw [setField, atoi, stdString, if_neg hZero]; rfl
    | 1, _ => rw [setField, stdString, if_neg hZero]; rfl

/-- A token in front of one that overruns its array is set, or overruns its own. -/
theorem setFields_overrun {rt : Runtime} {k : Nat} (hk : k < 2) {tokens : List Bytes}
    (hRest : ∀ data, setFields rt data (k + 1) tokens = .error .overrun) (data : Nmea)
    (token : Bytes) : setFields rt data k (token :: tokens) = .error .overrun := by
  rw [setFields]
  rcases setField_cases rt data hk token with ⟨data', hData⟩ | hFault
  · rw [hData]
    exact hRest data'
  · rw [hFault]
    rfl

/-- No line gets past its third token. -/
theorem getField_overrun (rt : Runtime) (line : LogLine) :
    getField rt line.text = .error .overrun := by
  obtain ⟨⟨frame, hFrame⟩, ⟨speed, hSpeed⟩, stamp, ⟨hSpace, hZero⟩, tail⟩ := line
  have hWordSpace : (32 : UInt8) ∉ ascii "time=" ++ stamp.text := by
    simpa using ⟨by decide, hSpace⟩
  have hWordZero : (0 : UInt8) ∉ ascii "time=" ++ stamp.text := by
    simpa using ⟨by decide, hZero⟩
  have hLine : frame ++ 32 :: (speed ++ 32 :: (ascii "time=" ++ stamp.text ++
      32 :: (ascii "xtime=" ++ stamp.text ++ tail))) ++ [0] =
      frame ++ 32 :: (speed ++ 32 :: ((ascii "time=" ++ stamp.text) ++
        32 :: (ascii "xtime=" ++ stamp.text ++ tail ++ [0]))) := by simp
  simp only [getField, LogLine.text]
  rw [hLine, strtok_append hFrame.1 hFrame.2.1 hFrame.2.2 (by decide),
    strtok_append hSpeed.1 hSpeed.2.1 hSpeed.2.2 (by decide),
    strtok_append (by simp [ascii]) hWordSpace hWordZero (by decide)]
  refine setFields_overrun (by decide) (fun data => ?_) _ _
  refine setFields_overrun (by decide) (fun data => ?_) _ _
  exact setFields_time rt stamp _ data _

/-- What the decoders owe to a timestamp: the whole microseconds, the same
rounded down to milliseconds, no reading behind an array, and lines in which
the two agree. -/
structure DecodersAgree (rt : Runtime) (t : Timestamp) : Prop where
  micros : ∀ rest, getCalcTimeNs rt (t.text ++ rest) = .ok (Double.ofInt (t.micros rt))
  millis : ∀ rest, getCalcTime rt (t.text ++ rest) = .ok (Double.ofInt (t.micros rt / 1000 * 1000))
  inside : ∀ rest, getCalcTime rt (t.text ++ rest) ≠ .error .overrun ∧
    getCalcTimeNs rt (t.text ++ rest) ≠ .error .overrun
  lines : ∀ line : LogLine, line.stamp = t → ∃ data, getField rt line.text = .ok data ∧
    data.time.toInt = data.xtime.toInt / 1000 * 1000

/-- Every array is filled to its end, so that the first conversion reads on
behind it, whatever the timestamp is. -/
theorem decoders_overrun (rt : Runtime) (t : Timestamp) :
    (∀ rest, getCalcTime rt (t.text ++ rest) = .error .overrun ∧
      getCalcTimeNs rt (t.text ++ rest) = .error .overrun) ∧
    (∀ line : LogLine, getField rt line.text = .error .overrun) ∧ ¬ DecodersAgree rt t := by
  refine ⟨fun rest => ⟨getCalcTime_overrun rt t rest, getCalcTimeNs_overrun rt t rest⟩,
    getField_overrun rt, fun h => ?_⟩
  exact (h.inside []).1 (getCalcTime_overrun rt t [])

/-- The last `n` digits of a number. -/
def digitsOf {n : Nat} (number : Nat) : Digits n := fun i =>
  ⟨Decimal.digit (number / 10 ^ (n - 1 - i) % 10), Decimal.isDigit_digit (Nat.mod_lt _ (by decide))⟩

def sampleStamp : Timestamp where
  year := digitsOf 2021
  month := digitsOf 6
  day := digitsOf 15
  hour := digitsOf 12
  min := digitsOf 30
  sec := digitsOf 45
  fraction := digitsOf 123456789
  separator i := (ascii "--_::.").getD i 0

def sampleRuntime : Runtime where
  mktime _ := 1623760245
  atof _ := Double.ofInt 0

example : sampleStamp.text = ascii "2021-06-15_12:30:45.123456789" := by decide +kernel

example : calcTimeNs 1 sampleRuntime sampleStamp.text = .ok 1623760245123456 ∧
    calcTime 1 sampleRuntime sampleStamp.text = .ok 1623760245123000 := by decide +kernel

theorem sampleStamp_overruns :
    getCalcTime sampleRuntime (ascii "2021-06-15_12:30:45.123456789") = .error .overrun ∧
      ¬ ∀ rt t, DecodersAgree rt t := by
  refine ⟨by decide +kernel, fun h => ?_⟩
  exact ((h sampleRuntime sampleStamp).inside []).1 (by decide +kernel)

end Gps
