import GisService.Data.Decimal

/-! Heads of HTTP/1 responses as text: a status line, fields, and an empty
line. `Codec` is what a server and a client that agree on such texts share. -/
namespace HttpHead

open ByteString

/-- The head of a response. Its framing fields are kept apart from the rest. -/
structure Head where
  version : Nat
  code : Nat
  keepAlive : Bool
  contentLength : Nat
  fields : List (Bytes × Bytes)
  deriving DecidableEq

/-- Field names and values that can stand in a line. -/
def ValidField (field : Bytes × Bytes) : Prop :=
  (58 : UInt8) ∉ field.1 ∧ (13 : UInt8) ∉ field.1 ∧ (13 : UInt8) ∉ field.2

instance (field : Bytes × Bytes) : Decidable (ValidField field) :=
  inferInstanceAs (Decidable (_ ∧ _ ∧ _))

def Head.Valid (head : Head) : Prop := ∀ field ∈ head.fields, ValidField field

/-- A way to write heads such that a reader finds the head and its end again. -/
structure Codec where
  write : Head → Bytes
  read : Bytes → Option (Head × Bytes)
  read_write : ∀ head : Head, head.Valid → ∀ rest, read (write head ++ rest) = some (head, rest)

abbrev crlf : Bytes := [13, 10]

def writeLine (line : Bytes) : Bytes := line ++ crlf

def readLine (input : Bytes) : Option (Bytes × Bytes) :=
  match input.dropWhile (· ≠ 13) with
  | 13 :: 10 :: rest => some (input.takeWhile (· ≠ 13), rest)
  | _ => none

/-- A line is read back up to its end. -/
theorem readLine_writeLine {line : Bytes} (h : (13 : UInt8) ∉ line) (rest : Bytes) :
    readLine (writeLine line ++ rest) = some (line, rest) := by
  have hAll : ∀ b ∈ line, (decide (b ≠ 13)) = true := by
    intro b hb
    simpa using fun hEq : b = 13 => h (hEq ▸ hb)
  have hText : writeLine line ++ rest = line ++ (13 :: 10 :: rest) := by simp [writeLine]
  rw [readLine, hText, List.dropWhile_append_of_pos hAll, List.takeWhile_append_of_pos hAll]
  simp

/-- A decimal number and what follows it. -/
def readNat (input : Bytes) : Option (Nat × Bytes) :=
  let digits := input.takeWhile Decimal.isDigit
  if digits = [] then none else some (Decimal.value digits, input.dropWhile Decimal.isDigit)

/-- A number is read back up to the first character that is no digit. -/
theorem readNat_print (n : Nat) {rest : Bytes} (h : ∀ b ∈ rest.head?, Decimal.isDigit b = false) :
    readNat (Decimal.print n ++ rest) = some (n, rest) := by
  have hAll : ∀ b ∈ Decimal.print n, Decimal.isDigit b = true :=
    fun _ => Decimal.isDigit_of_mem_print
  have hRest : rest.takeWhile Decimal.isDigit = [] ∧ rest.dropWhile Decimal.isDigit = rest := by
    cases rest with
    | nil => simp
    | cons b rest => simp [h b (by simp)]
  rw [readNat, List.takeWhile_append_of_pos hAll, List.dropWhile_append_of_pos hAll, hRest.1, hRest.2]
  simp [Decimal.print_ne_nil]

/-- The rest of a text behind a fixed beginning. -/
def dropText (pattern input : Bytes) : Option Bytes :=
  if pattern <+: input then some (input.drop pattern.length) else none

theorem dropText_append (pattern rest : Bytes) : dropText pattern (pattern ++ rest) = some rest := by
  simp [dropText]

/-- The phrase behind a code. Readers pass it over. -/
def reason : Nat → Bytes
  | 200 => ascii "OK"
  | 201 => ascii "Created"
  | 400 => ascii "Bad Request"
  | 401 => ascii "Unauthorized"
  | 403 => ascii "Forbidden"
  | 404 => ascii "Not Found"
  | 500 => ascii "Internal Server Error"
  | _ => ascii "<unknown-status>"

def statusLine (head : Head) : Bytes :=
  ascii "HTTP/" ++ (Decimal.print (head.version / 10) ++ (ascii "." ++
    (Decimal.print (head.version % 10) ++ (ascii " " ++
      (Decimal.print head.code ++ (ascii " " ++ reason head.code))))))

def readStatusLine (line : Bytes) : Option (Nat × Nat) := do
  let line ← dropText (ascii "HTTP/") line
  let (major, line) ← readNat line
  let line ← dropText (ascii ".") line
  let (minor, line) ← readNat line
  let line ← dropText (ascii " ") line
  let (code, _) ← readNat line
  return (10 * major + minor, code)

def connectionLine (head : Head) : Bytes :=
  ascii "Connection: " ++ if head.keepAlive then ascii "keep-alive" else ascii "close"

def readConnectionLine (line : Bytes) : Option Bool := do
  let value ← dropText (ascii "Connection: ") line
  return value = ascii "keep-alive"

/-- Whether a connection stays open if the head says nothing about it. -/
def defaultKeepAlive (version : Nat) : Bool := 11 ≤ version

/-- The line is left out where it would say the default. -/
def writeConnection (head : Head) : Bytes :=
  if head.keepAlive = defaultKeepAlive head.version then [] else writeLine (connectionLine head)

def readConnection (version : Nat) (input : Bytes) : Option (Bool × Bytes) := do
  let (line, rest) ← readLine input
  match readConnectionLine line with
  | some keepAlive => return (keepAlive, rest)
  | none => return (defaultKeepAlive version, input)

def contentLengthLine (head : Head) : Bytes :=
  ascii "Content-Length: " ++ Decimal.print head.contentLength

def readContentLengthLine (line : Bytes) : Option Nat := do
  let value ← dropText (ascii "Content-Length: ") line
  let (n, _) ← readNat value
  return n

def fieldLine (field : Bytes × Bytes) : Bytes := field.1 ++ 58 :: 32 :: field.2

def readFieldLine (line : Bytes) : Option (Bytes × Bytes) :=
  match find [58] line with
  | some n => (dropText [32] (line.drop (n + 1))).map (line.take n, ·)
  | none => none

def writeFields : List (Bytes × Bytes) → Bytes
  | [] => crlf
  | field :: fields => writeLine (fieldLine field) ++ writeFields fields

/-- Fields up to the empty line. Every line takes a byte. -/
def readFields : Nat → Bytes → Option (List (Bytes × Bytes) × Bytes)
  | 0, _ => none
  | fuel + 1, input => do
      let (line, input) ← readLine input
      if line = [] then return ([], input)
      else
        let field ← readFieldLine line
        let (fields, rest) ← readFields fuel input
        return (field :: fields, rest)

def write (head : Head) : Bytes :=
  writeLine (statusLine head) ++ (writeConnection head ++
    (writeLine (contentLengthLine head) ++ writeFields head.fields))

def read (input : Bytes) : Option (Head × Bytes) := do
  let (line, input) ← readLine input
  let (version, code) ← readStatusLine line
  let (keepAlive, input) ← readConnection version input
  let (line, input) ← readLine input
  let contentLength ← readContentLengthLine line
  let (fields, rest) ← readFields (input.length + 1) input
  return ({ version, code, keepAlive, contentLength, fields }, rest)

theorem cr_not_mem_print (n : Nat) : (13 : UInt8) ∉ Decimal.print n := by
  intro h
  exact absurd (Decimal.isDigit_of_mem_print h) (by decide)

theorem cr_not_mem_reason (code : Nat) : (13 : UInt8) ∉ reason code := by
  unfold reason
  split <;> decide

theorem readStatusLine_statusLine (head : Head) :
    readStatusLine (statusLine head) = some (head.version, head.code) := by
  have hDot : ∀ rest, readNat (Decimal.print (head.version / 10) ++ (ascii "." ++ rest)) =
      some (head.version / 10, ascii "." ++ rest) :=
    fun rest => readNat_print _ (by rintro b ⟨⟩; rfl)
  have hSpace : ∀ (n : Nat) rest, readNat (Decimal.print n ++ (ascii " " ++ rest)) =
      some (n, ascii " " ++ rest) :=
    fun n rest => readNat_print _ (by rintro b ⟨⟩; rfl)
  simp only [readStatusLine, statusLine, dropText_append, hDot, hSpace, Option.bind_eq_bind,
    Option.bind_some, Option.pure_def, Nat.div_add_mod]

theorem readConnectionLine_connectionLine (head : Head) :
    readConnectionLine (connectionLine head) = some head.keepAlive := by
  have hClose : ascii "close" ≠ ascii "keep-alive" := by decide
  rw [connectionLine, readConnectionLine, dropText_append]
  cases head.keepAlive with
  | true => rfl
  | false => simp [hClose]

/-- A head without the line goes on with another one. -/
theorem readConnectionLine_contentLengthLine (head : Head) :
    readConnectionLine (contentLengthLine head) = none := by
  have hNot : ¬ ascii "Connection: " <+: contentLengthLine head := by
    intro h
    have hShort := List.prefix_of_prefix_length_le h (List.prefix_append _ _) (by decide)
    exact absurd hShort (by decide)
  rw [readConnectionLine, dropText, if_neg hNot]
  rfl

theorem cr_not_mem_connectionLine (head : Head) : (13 : UInt8) ∉ connectionLine head := by
  unfold connectionLine
  cases head.keepAlive <;> decide

theorem cr_not_mem_contentLengthLine (head : Head) : (13 : UInt8) ∉ contentLengthLine head := by
  have hText : (13 : UInt8) ∉ ascii "Content-Length: " := by decide
  simp [contentLengthLine, hText, cr_not_mem_print]

/-- Whether the connection stays open is read back, be it written or left out. -/
theorem readConnection_writeConnection (head : Head) (rest : Bytes) :
    readConnection head.version
        (writeConnection head ++ (writeLine (contentLengthLine head) ++ rest)) =
      some (head.keepAlive, writeLine (contentLengthLine head) ++ rest) := by
  rw [readConnection, writeConnection]
  by_cases hDefault : head.keepAlive = defaultKeepAlive head.version
  · rw [if_pos hDefault, List.nil_append, readLine_writeLine (cr_not_mem_contentLengthLine head),
      Option.bind_eq_bind, Option.bind_some]
    simp only [readConnectionLine_contentLengthLine, hDefault]
    rfl
  · rw [if_neg hDefault, readLine_writeLine (cr_not_mem_connectionLine head),
      Option.bind_eq_bind, Option.bind_some]
    simp only [readConnectionLine_connectionLine]
    rfl

theorem readContentLengthLine_contentLengthLine (head : Head) :
    readContentLengthLine (contentLengthLine head) = some head.contentLength := by
  have hNumber : readNat (Decimal.print head.contentLength ++ []) = some (head.contentLength, []) :=
    readNat_print _ (by simp)
  rw [List.append_nil] at hNumber
  simp only [contentLengthLine, readContentLengthLine, dropText_append, hNumber,
    Option.bind_eq_bind, Option.bind_some, Option.pure_def]

/-- The first colon of a line ends the name. -/
theorem readFieldLine_fieldLine {field : Bytes × Bytes} (h : ValidField field) :
    readFieldLine (fieldLine field) = some field := by
  rw [readFieldLine, fieldLine, find_byte_append h.1]
  simp [List.drop_length_add_append, dropText]

/-- Fields are read back up to the empty line. -/
theorem readFields_writeFields (fields : List (Bytes × Bytes)) (h : ∀ field ∈ fields, ValidField field)
    (fuel : Nat) (hFuel : fields.length < fuel) (rest : Bytes) :
    readFields fuel (writeFields fields ++ rest) = some (fields, rest) := by
  induction fields generalizing fuel with
  | nil =>
      cases fuel with
      | zero => simp at hFuel
      | succ fuel =>
          have hLine : readLine (writeLine [] ++ rest) = some ([], rest) :=
            readLine_writeLine List.not_mem_nil rest
          change readFields (fuel + 1) (writeLine [] ++ rest) = _
          rw [readFields, hLine]
          rfl
  | cons field fields ih =>
      cases fuel with
      | zero => simp at hFuel
      | succ fuel =>
          have hValid := h field (by simp)
          have hNoCr : (13 : UInt8) ∉ fieldLine field := by
            simp [fieldLine, hValid.2.1, hValid.2.2]
          have hNonempty : fieldLine field ≠ [] := by simp [fieldLine]
          have hTail := ih (fun other hMem => h other (List.mem_cons_of_mem _ hMem)) fuel
            (by simpa using hFuel)
          rw [readFields, writeFields, List.append_assoc, readLine_writeLine hNoCr]
          simp [hNonempty, readFieldLine_fieldLine hValid, hTail]

theorem length_lt_writeFields (fields : List (Bytes × Bytes)) :
    fields.length < (writeFields fields).length := by
  induction fields with
  | nil => decide
  | cons field fields ih =>
      simp only [writeFields, writeLine, List.length_cons, List.length_append]
      omega

/-- A head is read back, and what follows it is left. -/
theorem read_write {head : Head} (h : head.Valid) (rest : Bytes) :
    read (write head ++ rest) = some (head, rest) := by
  have hStatus : (13 : UInt8) ∉ statusLine head := by
    have hText : ∀ text ∈ [ascii "HTTP/", ascii ".", ascii " "], (13 : UInt8) ∉ text := by decide
    simp only [List.forall_mem_cons, List.not_mem_nil, false_implies, implies_true, and_true] at hText
    simp [statusLine, hText, cr_not_mem_print, cr_not_mem_reason]
  have hFields := readFields_writeFields head.fields h
    ((writeFields head.fields ++ rest).length + 1) (by
      have := length_lt_writeFields head.fields
      simp only [List.length_append]
      omega) rest
  rw [read, write]
  simp only [List.append_assoc, readLine_writeLine hStatus, readConnection_writeConnection,
    readLine_writeLine (cr_not_mem_contentLengthLine head), readStatusLine_statusLine,
    readContentLengthLine_contentLengthLine, hFields, Option.bind_eq_bind, Option.bind_some,
    Option.pure_def]

/-- The text format of HTTP/1, with the framing fields in front of the others. -/
def http1 : Codec where
  write
  read
  read_write := fun _ h rest => read_write h rest

end HttpHead
