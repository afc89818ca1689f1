import GisService.Data.JsonReads
import GisService.Video.Base64

/-! The frame messages of the verification server. Each frame is encoded into
buffers that still hold the frames before it. -/
namespace Video

open ByteString Memory

/-- `srv_to_cl`. The distance is kept as the text that `std::to_string` makes
of it. -/
structure SrvToCl where
  lat : Bytes := []
  lon : Bytes := []
  time : UInt64 := 0
  dist : Bytes := []
  brightnessGain : UInt32 := 0
  brightnessShutter : UInt32 := 0
  brightnessGamma : UInt32 := 0

/-- The global buffers, and the values that the next message shows. -/
structure Buffers where
  leftB64 : Bytes := []
  rightB64 : Bytes := []
  sendJson : Bytes := []
  sendToClient : SrvToCl := {}

/-- What `jpegProc` and `readFrame` deliver: two JPEG images, and the time and
the place of the frame, coordinates as texts. -/
structure Frame where
  left : Bytes
  right : Bytes
  time : UInt64
  lat : { s : Bytes // Json.Plain s }
  lon : { s : Bytes // Json.Plain s }

def convertToBase64 (bufOut bufIn : Bytes) (dataLength : Int) : Int × Bytes :=
  base64Encode bufOut bufIn dataLength

/-- The encoding step of `readAndCompress`. The returned counts include the
terminator, so that a second one is stored behind it. -/
def readAndCompress (frame : Frame) (b : Buffers) : Buffers :=
  let (leftRes, leftB64) := convertToBase64 b.leftB64 frame.left (narrow frame.left.length)
  let (rightRes, rightB64) := convertToBase64 b.rightB64 frame.right (narrow frame.right.length)
  { b with
    leftB64 := store leftB64 leftRes.toNat [0]
    rightB64 := store rightB64 rightRes.toNat [0]
    sendToClient := {
      time := frame.time, lat := frame.lat.1, lon := frame.lon.1, dist := ascii "234.600000",
      brightnessGain := 7, brightnessGamma := 89, brightnessShutter := 56 } }

def strJson (b : Buffers) : Bytes :=
  [ ascii "[\r", ascii "\x7b\r",
    ascii "\"videoL\":\"", cstr b.leftB64, ascii "\",\r",
    ascii "\"videoR\":\"", cstr b.rightB64, ascii "\",\r",
    ascii "\"lat\":\"", b.sendToClient.lat, ascii "\",\r",
    ascii "\"lon\":\"", b.sendToClient.lon, ascii "\",\r",
    ascii "\"time\":", Decimal.print b.sendToClient.time.toNat, ascii ",\r",
    ascii "\"dist\":", b.sendToClient.dist, ascii ",\r",
    ascii "\"brightness\":\r", ascii "[\r", ascii "\x7b\r",
    ascii "\"gain\":", Decimal.print b.sendToClient.brightnessGain.toNat, ascii ",\r",
    ascii "\"shutter\":", Decimal.print b.sendToClient.brightnessShutter.toNat, ascii ",\r",
    ascii "\"gamma\":", Decimal.print b.sendToClient.brightnessGamma.toNat, ascii "\r",
    ascii "\x7d\r", ascii "]\r", ascii "\x7d\r", ascii "]" ].flatten

/-- The size of the message, and the buffers with the message in `send_json`.
The size of the text is an `int`. A negative one, for which `memcpy` is not
defined, copies nothing here. -/
def prepareVerifyAnswer (b : Buffers) : Int × Buffers :=
  let text := strJson b
  let size := narrow text.length
  let sendJson := store b.sendJson 0 (intBytes size)
  let sendJson := store sendJson 4 (text.take size.toNat)
  (narrow (size + 4), { b with sendJson := sendJson })

/-- What a client sees of a frame. -/
structure Content where
  left : Bytes
  right : Bytes
  time : Nat
  lat : Bytes
  lon : Bytes

def Frame.content (frame : Frame) : Content :=
  ⟨frame.left, frame.right, frame.time.toNat, frame.lat.1, frame.lon.1⟩

def string? : Json → Option Bytes
  | .string s => some s
  | _ => none

/-- A number that is a natural number in decimal. -/
def natural? : Json → Option Nat
  | .number literal => if literal.all Decimal.isDigit then some (Decimal.value literal) else none
  | _ => none

def readContent (members : List (Bytes × Json)) : Option Content := do
  let left ← Base64.decode (← string? (← Json.member? (ascii "videoL") members))
  let right ← Base64.decode (← string? (← Json.member? (ascii "videoR") members))
  let time ← natural? (← Json.member? (ascii "time") members)
  let lat ← string? (← Json.member? (ascii "lat") members)
  let lon ← string? (← Json.member? (ascii "lon") members)
  return { left, right, time, lat, lon }

/-- A length in host order, and that many bytes of JSON. -/
def readMessage (message : Bytes) : Option Content := do
  let size ← word? message
  match Json.parse ((message.drop 4).take size) with
  | some (.array [.object members]) => readContent members
  | _ => none

section Text

open Json

/-- Plain texts can be told by a look at each character. -/
theorem plain_of_all {s : Bytes}
    (h : s.all (fun ch => decide (32 ≤ ch ∧ ch ≠ quote ∧ ch ≠ backslash)) = true) : Plain s := by
  intro ch hMem
  simpa using List.all_eq_true.mp h ch hMem

/-- Base64 needs no escapes in JSON. -/
theorem plain_encode (bytes : Bytes) : Plain (Base64.encode bytes) := by
  intro ch hMem
  obtain ⟨hLow, hBackslash⟩ := Base64.mem_encode hMem
  refine ⟨UInt8.le_trans (by decide) hLow, ?_, hBackslash⟩
  rintro rfl
  exact absurd hLow (by decide)

theorem zero_not_mem_encode (bytes : Bytes) : (0 : UInt8) ∉ Base64.encode bytes :=
  fun h => absurd (Base64.mem_encode h).1 (by decide)

def brightnessMembers (v : SrvToCl) : List (Bytes × Json) :=
  [(ascii "gain", .number (Decimal.print v.brightnessGain.toNat)),
    (ascii "shutter", .number (Decimal.print v.brightnessShutter.toNat)),
    (ascii "gamma", .number (Decimal.print v.brightnessGamma.toNat))]

/-- The members of the message's only object. -/
def members (left right : Bytes) (v : SrvToCl) : List (Bytes × Json) :=
  [(ascii "videoL", .string left), (ascii "videoR", .string right), (ascii "lat", .string v.lat),
    (ascii "lon", .string v.lon), (ascii "time", .number (Decimal.print v.time.toNat)),
    (ascii "dist", .number v.dist), (ascii "brightness", .array [.object (brightnessMembers v)])]

/-- The text is read from the inside out, as the rules for its pieces nest. -/
theorem parse_strJson (b : Buffers) (hLeft : Plain (cstr b.leftB64))
    (hRight : Plain (cstr b.rightB64)) (hLat : Plain b.sendToClient.lat)
    (hLon : Plain b.sendToClient.lon)
    (hDist : Reads 1 b.sendToClient.dist (.number b.sendToClient.dist)) :
    parse (strJson b) =
      some (.array [.object (members (cstr b.leftB64) (cstr b.rightB64) b.sendToClient)]) := by
  have hSpace : isSpace 13 = true := rfl
  have hGamma := readsMembers_last (plain_of_all (s := ascii "gamma") rfl)
    (reads_natural b.sendToClient.brightnessGamma.toNat) hSpace
  have hShutter := readsMembers_cons (plain_of_all (s := ascii "shutter") rfl)
    ((reads_natural b.sendToClient.brightnessShutter.toNat).mono (by omega)) (hGamma.space hSpace)
  have hGain := readsMembers_cons (plain_of_all (s := ascii "gain") rfl)
    ((reads_natural b.sendToClient.brightnessGain.toNat).mono (by omega)) (hShutter.space hSpace)
  have hInner := reads_object (hGain.space hSpace) fun _ =>
    expect_space_other hSpace rfl (by decide) _
  have hBrightness := (reads_array (readsItems_last (hInner.space hSpace) hSpace) fun _ =>
    expect_space_other hSpace rfl (by decide) _).space hSpace
  have hLast := readsMembers_last (plain_of_all (s := ascii "brightness") rfl) hBrightness hSpace
  have hDistMember := readsMembers_cons (plain_of_all (s := ascii "dist") rfl)
    (hDist.mono (by omega)) (hLast.space hSpace)
  have hTime := readsMembers_cons (plain_of_all (s := ascii "time") rfl)
    ((reads_natural b.sendToClient.time.toNat).mono (by omega)) (hDistMember.space hSpace)
  have hLonMember := readsMembers_cons (plain_of_all (s := ascii "lon") rfl)
    ((reads_string hLon).mono (by omega)) (hTime.space hSpace)
  have hLatMember := readsMembers_cons (plain_of_all (s := ascii "lat") rfl)
    ((reads_string hLat).mono (by omega)) (hLonMember.space hSpace)
  have hVideoR := readsMembers_cons (plain_of_all (s := ascii "videoR") rfl)
    ((reads_string hRight).mono (by omega)) (hLatMember.space hSpace)
  have hVideoL := readsMembers_cons (plain_of_all (s := ascii "videoL") rfl)
    ((reads_string hLeft).mono (by omega)) (hVideoR.space hSpace)
  have hOuter := reads_object (hVideoL.space hSpace) fun _ =>
    expect_space_other hSpace rfl (by decide) _
  have hAll := reads_array (readsItems_last (hOuter.space hSpace) hSpace) fun _ =>
    expect_space_other hSpace rfl (by decide) _
  refine (congrArg parse ?_).trans (parse_of_reads hAll ?_)
  · simp only [strJson, List.flatten_cons, List.flatten_nil, List.cons_append, List.append_assoc,
      List.nil_append, List.append_nil]
    rfl
  · simp only [List.length_cons, List.length_append]
    omega

/-- A number in decimal is read as itself. -/
theorem natural?_print (n : Nat) : natural? (.number (Decimal.print n)) = some n := by
  have hDigits : ∀ ch ∈ Decimal.print n, Decimal.isDigit ch = true :=
    fun _ => Decimal.isDigit_of_mem_print
  simpa [natural?] using hDigits

/-- The content is found in the members, whatever the settings of the camera are. -/
theorem readContent_members {left right leftText rightText : Bytes}
    (hLeft : Base64.decode leftText = some left) (hRight : Base64.decode rightText = some right)
    (v : SrvToCl) :
    readContent (members leftText rightText v) = some ⟨left, right, v.time.toNat, v.lat, v.lon⟩ := by
  have hVideoL : member? (ascii "videoL") (members leftText rightText v) = some (.string leftText) :=
    rfl
  have hVideoR : member? (ascii "videoR") (members leftText rightText v) = some (.string rightText) :=
    rfl
  have hTime : member? (ascii "time") (members leftText rightText v) =
      some (.number (Decimal.print v.time.toNat)) := rfl
  have hLat : member? (ascii "lat") (members leftText rightText v) = some (.string v.lat) := rfl
  have hLon : member? (ascii "lon") (members leftText rightText v) = some (.string v.lon) := rfl
  simp [readContent, hVideoL, hVideoR, hTime, hLat, hLon, string?, hLeft, hRight, natural?_print]

end Text

section Encoding

/-- The JPEG text is short enough for the lengths of the encoder. -/
def Encodable (jpeg : Bytes) : Prop := (Base64.encode jpeg).length + 1 < 2 ^ 31

/-- A text is not shorter than what it encodes. -/
theorem length_le_encode (bytes : Bytes) : bytes.length ≤ (Base64.encode bytes).length := by
  rw [Base64.length_encode]
  omega

/-- The encoder stores the text and a terminator, and counts both. -/
theorem convertToBase64_eq {jpeg : Bytes} (h : Encodable jpeg) (bufOut : Bytes) :
    convertToBase64 bufOut jpeg (narrow jpeg.length) =
      ((((Base64.encode jpeg).length + 1 : Nat) : Int),
        store bufOut 0 (Base64.encode jpeg ++ [0])) := by
  have hLength := length_le_encode jpeg
  have hShort : (Base64.encode jpeg).length + 1 < 2 ^ 31 := h
  have hNarrow : narrow jpeg.length = jpeg.length := narrow_eq (by omega)
  simp only [convertToBase64, base64Encode, hNarrow, Int.toNat_natCast, List.take_length,
    encodeChars_eq, List.length_append, List.length_singleton, narrow_eq hShort]

/-- The second terminator is stored behind the first. -/
theorem cstr_terminated {text : Bytes} (h : (0 : UInt8) ∉ text) (buffer : Bytes) :
    cstr (store (store buffer 0 (text ++ [0])) (text.length + 1) [0]) = text := by
  have hBehind := store_behind (text ++ [0]) (buffer.drop (text ++ [0]).length) [0]
  rw [List.length_append, List.length_singleton] at hBehind
  rw [store_front, List.length_append, List.length_singleton, hBehind, List.append_assoc]
  exact cstr_append_zero h _

/-- What `readAndCompress` puts into `sendToClient`. -/
def Frame.toClient (frame : Frame) : SrvToCl where
  time := frame.time
  lat := frame.lat.1
  lon := frame.lon.1
  dist := ascii "234.600000"
  brightnessGain := 7
  brightnessGamma := 89
  brightnessShutter := 56

/-- The JSON text of a frame on its own. -/
def Frame.text (frame : Frame) : Bytes :=
  strJson {
    leftB64 := Base64.encode frame.left
    rightB64 := Base64.encode frame.right
    sendToClient := frame.toClient }

/-- A text depends on its buffers only through the C strings in them. -/
theorem strJson_congr {b b' : Buffers} (hLeft : cstr b.leftB64 = cstr b'.leftB64)
    (hRight : cstr b.rightB64 = cstr b'.rightB64) (hClient : b.sendToClient = b'.sendToClient) :
    strJson b = strJson b' := by
  rw [strJson, strJson, hLeft, hRight, hClient]

/-- No terminator is inside of an encoded text. -/
theorem cstr_encode (bytes : Bytes) : cstr (Base64.encode bytes) = Base64.encode bytes :=
  cstr_eq_self (zero_not_mem_encode bytes)

/-- The text does not depend on what the buffers held before. -/
theorem strJson_readAndCompress {frame : Frame} (hLeft : Encodable frame.left)
    (hRight : Encodable frame.right) (b : Buffers) :
    strJson (readAndCompress frame b) = frame.text := by
  have hBuffers : readAndCompress frame b = { b with
      leftB64 := store (store b.leftB64 0 (Base64.encode frame.left ++ [0]))
        ((Base64.encode frame.left).length + 1) [0]
      rightB64 := store (store b.rightB64 0 (Base64.encode frame.right ++ [0]))
        ((Base64.encode frame.right).length + 1) [0]
      sendToClient := frame.toClient } := by
    simp only [readAndCompress, convertToBase64_eq hLeft, convertToBase64_eq hRight,
      Int.toNat_natCast]
    rfl
  rw [hBuffers]
  apply strJson_congr
  · rw [cstr_terminated (zero_not_mem_encode _), cstr_encode]
  · rw [cstr_terminated (zero_not_mem_encode _), cstr_encode]
  · rfl

/-- The text of a frame is the JSON of its members. -/
theorem parse_text (frame : Frame) :
    Json.parse frame.text = some (.array [.object
      (members (Base64.encode frame.left) (Base64.encode frame.right) frame.toClient)]) := by
  have hDist : Json.Reads 1 (ascii "234.600000") (.number (ascii "234.600000")) :=
    Json.reads_number 234 (@Json.Fraction.some (ascii "600000") (List.all_eq_true.1 rfl) (by decide))
  have hParse := parse_strJson {
    leftB64 := Base64.encode frame.left
    rightB64 := Base64.encode frame.right
    sendToClient := frame.toClient } (by rw [cstr_encode]; exact plain_encode _)
    (by rw [cstr_encode]; exact plain_encode _) frame.lat.2 frame.lon.2 hDist
  rwa [cstr_encode, cstr_encode] at hParse

/-- The length prefix and the text. -/
def Frame.message (frame : Frame) : Bytes := intBytes frame.text.length ++ frame.text

/-- The images are part of the text. -/
theorem encodable_of_text {frame : Frame} (h : frame.text.length < 2 ^ 31) :
    Encodable frame.left ∧ Encodable frame.right := by
  have hLength : (Base64.encode frame.left).length + (Base64.encode frame.right).length + 1 ≤
      frame.text.length := by
    simp only [Frame.text, strJson, List.flatten_cons, List.length_append, cstr_encode,
      show (ascii "[\r").length = 2 from rfl]
    omega
  exact ⟨show _ < _ by omega, show _ < _ by omega⟩

/-- The two copies into `send_json`. -/
theorem sendJson_prepareVerifyAnswer (b : Buffers) :
    ∃ stale, (prepareVerifyAnswer b).2.sendJson = intBytes (narrow (strJson b).length) ++
      ((strJson b).take (narrow (strJson b).length).toNat ++ stale) := by
  refine ⟨(b.sendJson.drop 4).drop
    ((strJson b).take (narrow (strJson b).length).toNat).length, ?_⟩
  have hBehind := store_behind (intBytes (narrow (strJson b).length)) (b.sendJson.drop 4)
    ((strJson b).take (narrow (strJson b).length).toNat)
  rw [length_intBytes] at hBehind
  rw [prepareVerifyAnswer, store_front, length_intBytes]
  exact hBehind

/-- The message of a frame stands at the front of `send_json`. -/
theorem sendJson_frame {frame : Frame} (h : frame.text.length < 2 ^ 31) (b : Buffers) :
    ∃ stale, (prepareVerifyAnswer (readAndCompress frame b)).2.sendJson = frame.message ++ stale := by
  obtain ⟨hLeft, hRight⟩ := encodable_of_text h
  obtain ⟨stale, hSend⟩ := sendJson_prepareVerifyAnswer (readAndCompress frame b)
  rw [strJson_readAndCompress hLeft hRight, narrow_eq h, Int.toNat_natCast, List.take_length] at hSend
  exact ⟨stale, by rw [hSend, Frame.message, List.append_assoc]⟩

/-- The size that is returned covers the prefix and the text. -/
theorem size_frame {frame : Frame} (h : frame.text.length + 4 < 2 ^ 31) (b : Buffers) :
    (prepareVerifyAnswer (readAndCompress frame b)).1 = frame.message.length := by
  have hText : frame.text.length < 2 ^ 31 := by omega
  obtain ⟨hLeft, hRight⟩ := encodable_of_text hText
  have hMessage : frame.message.length = frame.text.length + 4 := by
    rw [Frame.message, List.length_append, length_intBytes, Nat.add_comm]
  have hSize : (prepareVerifyAnswer (readAndCompress frame b)).1 =
      narrow (narrow (strJson (readAndCompress frame b)).length + 4) := by
    simp only [prepareVerifyAnswer]
  rw [hSize, strJson_readAndCompress hLeft hRight, narrow_eq hText, hMessage]
  exact narrow_eq h

/-- What is handed to `send` is the message. -/
theorem take_sendJson {frame : Frame} (h : frame.text.length + 4 < 2 ^ 31) (b : Buffers) :
    (prepareVerifyAnswer (readAndCompress frame b)).2.sendJson.take
      (prepareVerifyAnswer (readAndCompress frame b)).1.toNat = frame.message := by
  obtain ⟨stale, hSend⟩ := sendJson_frame (by omega : frame.text.length < 2 ^ 31) b
  rw [size_frame h, hSend, Int.toNat_natCast, List.take_left]

/-- A receiver takes as many bytes as the prefix says. -/
theorem readMessage_append {text : Bytes} (h : text.length < 2 ^ 32) (stale : Bytes) :
    readMessage (intBytes text.length ++ (text ++ stale)) =
      match Json.parse text with
      | some (.array [.object members]) => readContent members
      | _ => none := by
  have hSize : ((text.length : Int) % 2 ^ 32).toNat = text.length := by omega
  have hDrop : (intBytes text.length ++ (text ++ stale)).drop 4 = text ++ stale := rfl
  simp only [readMessage, word?_intBytes, hSize, hDrop, Option.bind_eq_bind, Option.bind_some,
    List.take_left]

/-- A message reads back as the content of its frame, whatever the buffer holds
behind it. -/
theorem readMessage_message {frame : Frame} (h : frame.text.length < 2 ^ 31) (stale : Bytes) :
    readMessage (frame.message ++ stale) = some frame.content := by
  rw [Frame.message, List.append_assoc, readMessage_append (by omega), parse_text]
  exact readContent_members (Base64.decode_encode _) (Base64.decode_encode _) _

end Encoding

/-- What `send_json` holds after each frame. -/
def messages (b : Buffers) : List Frame → List Bytes
  | [] => []
  | frame :: frames =>
      let next := (prepareVerifyAnswer (readAndCompress frame b)).2
      next.sendJson :: messages next frames

/-- From any contents of the buffers, every message reads back as its own
frame, provided that the lengths of the texts fit an `int`. -/
theorem messages_read_back (b : Buffers) (frames : List Frame)
    (h : ∀ frame ∈ frames, frame.text.length < 2 ^ 31) :
    (messages b frames).map readMessage = frames.map fun frame => some frame.content := by
  induction frames generalizing b with
  | nil => rfl
  | cons frame frames ih =>
      have hFrame := h frame List.mem_cons_self
      obtain ⟨stale, hSend⟩ := sendJson_frame hFrame b
      rw [messages, List.map_cons, List.map_cons, hSend, readMessage_message hFrame stale,
        ih _ fun other hMem => h other (List.mem_cons_of_mem _ hMem)]

/-- Two images of `3 * n` zero bytes. -/
def blackFrame (n : Nat) : Frame where
  left := List.replicate (3 * n) 0
  right := List.replicate (3 * n) 0
  time := 1700000000000000
  lat := ⟨ascii "55.750000", plain_of_all (by decide)⟩
  lon := ⟨ascii "37.616667", plain_of_all (by decide)⟩

/-- Black pixels are all the same symbol. -/
theorem encode_zeros (n : Nat) :
    Base64.encode (List.replicate (3 * n) 0) = List.replicate (4 * n) 65 := by
  induction n with
  | zero => rfl
  | succ n ih =>
      have hLeft : List.replicate (3 * (n + 1)) (0 : UInt8) = 0 :: 0 :: 0 :: List.replicate (3 * n) 0 :=
        rfl
      have hRight : List.replicate (4 * (n + 1)) (65 : UInt8) =
          65 :: 65 :: 65 :: 65 :: List.replicate (4 * n) 65 := rfl
      have hFill : Base64.padding (0 :: 0 :: 0 :: List.replicate (3 * n) 0) =
          Base64.padding (List.replicate (3 * n) 0) := by
        simp only [Base64.padding, List.length_cons, List.length_replicate, Nat.add_assoc,
          Nat.add_mod_right]
      rw [hLeft, hRight, ← ih, Base64.encode, Base64.encode, hFill]
      rfl

/-- The text in front of the second image is the same in every message. -/
theorem strJson_eq_append (b : Buffers) : strJson b =
    ascii "[\r\x7b\r\"videoL\":\"" ++ (cstr b.leftB64 ++ (ascii "\",\r\"videoR\":\"" ++
      (cstr b.rightB64 ++ (strJson { sendToClient := b.sendToClient }).drop 27))) := by
  simp only [strJson, List.flatten_cons]
  rfl

/-- The text of a black frame, up to the members that do not depend on its size. -/
theorem text_blackFrame (n : Nat) : ∃ tail : Bytes, tail.length = 145 ∧ (blackFrame n).text =
    ascii "[\r\x7b\r\"videoL\":\"" ++ (List.replicate (4 * n) 65 ++
      (ascii "\",\r\"videoR\":\"" ++ (List.replicate (4 * n) 65 ++ tail))) := by
  refine ⟨(strJson { sendToClient := (blackFrame 0).toClient }).drop 27, ?_, ?_⟩
  · rw [List.length_drop]
    decide +kernel
  · have hImage : cstr (Base64.encode (List.replicate (3 * n) 0)) = List.replicate (4 * n) 65 := by
      rw [cstr_encode, encode_zeros]
    rw [Frame.text, strJson_eq_append, ← hImage]
    rfl

theorem length_text_blackFrame (n : Nat) : (blackFrame n).text.length = 8 * n + 172 := by
  obtain ⟨tail, hTail, hText⟩ := text_blackFrame n
  have hHead : (ascii "[\r\x7b\r\"videoL\":\"").length = 14 := rfl
  have hMiddle : (ascii "\",\r\"videoR\":\"").length = 13 := rfl
  simp only [hText, List.length_append, hHead, hMiddle, List.length_replicate, hTail]
  omega

/-- The front of a long text shows nothing but the beginning of an image. -/
theorem take_text_blackFrame {n : Nat} (h : 150 ≤ 4 * n) : (blackFrame n).text.take 164 =
    ascii "[\r\x7b\r\"videoL\":\"" ++ List.replicate 150 65 := by
  obtain ⟨tail, -, hText⟩ := text_blackFrame n
  have hHead : (ascii "[\r\x7b\r\"videoL\":\"").length = 14 := rfl
  rw [hText, List.take_append, List.take_of_length_le (by rw [hHead]; decide), hHead,
    List.take_append_of_le_length (by rw [List.length_replicate]; exact h), List.take_replicate,
    Nat.min_eq_left h]

/-- A long frame, and a shorter one after it in the same buffers. -/
theorem messages_read_back_sample : (messages {} [blackFrame 2, blackFrame 1]).map readMessage =
    [blackFrame 2, blackFrame 1].map fun frame => some frame.content := by
  apply messages_read_back
  intro frame hMem
  rcases List.mem_pair.mp hMem with rfl | rfl <;> rw [length_text_blackFrame] <;> decide

/-- The length of a text of `2 ^ 32` bytes and more is cut to 32 bits, and the
receiver takes the front of the first image for the whole message. -/
theorem length_wraps : (messages {} [blackFrame 536870911]).map readMessage ≠
    [some (blackFrame 536870911).content] := by
  have hEncodable : Encodable (List.replicate (3 * 536870911) 0) := by
    rw [Encodable, encode_zeros, List.length_replicate]
    decide
  have hText : strJson (readAndCompress (blackFrame 536870911) {}) = (blackFrame 536870911).text :=
    strJson_readAndCompress hEncodable hEncodable {}
  have hSize : narrow (blackFrame 536870911).text.length = 164 := by
    rw [length_text_blackFrame, narrow]
    decide
  obtain ⟨front, hFront⟩ : ∃ front : Bytes,
    front = ascii "[\r\x7b\r\"videoL\":\"" ++ List.replicate 150 65 := ⟨_, rfl⟩
  have hLength : front.length = 164 := by
    rw [hFront]
    decide +kernel
  have hParse : Json.parse front = none := by
    rw [hFront]
    decide +kernel
  obtain ⟨stale, hSend⟩ := sendJson_prepareVerifyAnswer (readAndCompress (blackFrame 536870911) {})
  rw [hText, hSize, show (164 : Int).toNat = 164 from rfl, take_text_blackFrame (by decide),
    ← hFront] at hSend
  have hShort : front.length < 2 ^ 32 := by
    rw [hLength]
    decide
  have hRead := readMessage_append hShort stale
  rw [hLength, hParse] at hRead
  rw [messages, messages, List.map_cons, hSend]
  intro hEq
  exact Option.some_ne_none _ ((List.cons.inj hEq).1.symm.trans hRead)

end Video
