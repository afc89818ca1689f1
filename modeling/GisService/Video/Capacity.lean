import GisService.Data.Double
import GisService.Video.Message

/-! Where the bytes of a message are stored. The three arrays have fixed sizes,
and nothing compares the length of an image with them. -/
namespace Video

open ByteString Memory

/-- The global arrays of fixed size. -/
inductive Buffer where
  | leftB64
  | rightB64
  | sendJson
  deriving DecidableEq

def Buffer.size : Buffer → Nat
  | .leftB64 => 1024 * 700
  | .rightB64 => 1024 * 700
  | .sendJson => 1024 * 1500

/-- Bytes stored in an array from an index on. -/
structure Write where
  buffer : Buffer
  index : Int
  bytes : Bytes

def Write.perform (b : Buffers) (w : Write) : Buffers :=
  match w.buffer with
  | .leftB64 => { b with leftB64 := store b.leftB64 w.index.toNat w.bytes }
  | .rightB64 => { b with rightB64 := store b.rightB64 w.index.toNat w.bytes }
  | .sendJson => { b with sendJson := store b.sendJson w.index.toNat w.bytes }

def Write.Inside (w : Write) : Prop := 0 ≤ w.index ∧ w.index + w.bytes.length ≤ w.buffer.size

/-- The `int` that `jpegProc` returns for an image. -/
def jpegSize (jpeg : Bytes) : Int := narrow jpeg.length

/-- The text of an image and its terminator. -/
def encodedText (jpeg : Bytes) : Bytes := encodeChars (jpeg.take (jpegSize jpeg).toNat) ++ [0]

/-- What `readAndCompress` stores, in its order. -/
def readAndCompressWrites (frame : Frame) : List Write :=
  [⟨.leftB64, 0, encodedText frame.left⟩, ⟨.rightB64, 0, encodedText frame.right⟩,
    ⟨.leftB64, narrow (encodedText frame.left).length, [0]⟩,
    ⟨.rightB64, narrow (encodedText frame.right).length, [0]⟩]

/-- What `prepareVerifyAnswer` stores, in its order. -/
def prepareVerifyAnswerWrites (b : Buffers) : List Write :=
  let text := strJson b
  let size := narrow text.length
  [⟨.sendJson, 0, intBytes size⟩, ⟨.sendJson, 4, text.take size.toNat⟩]

section Writes
variable (b : Buffers) (index : Int) (bytes : Bytes)

@[simp] theorem perform_leftB64 : Write.perform b ⟨.leftB64, index, bytes⟩ =
    { b with leftB64 := store b.leftB64 index.toNat bytes } := by
  rw [Write.perform]

@[simp] theorem perform_rightB64 : Write.perform b ⟨.rightB64, index, bytes⟩ =
    { b with rightB64 := store b.rightB64 index.toNat bytes } := by
  rw [Write.perform]

@[simp] theorem perform_sendJson : Write.perform b ⟨.sendJson, index, bytes⟩ =
    { b with sendJson := store b.sendJson index.toNat bytes } := by
  rw [Write.perform]

end Writes

/-- With the size that `jpegProc` returns, the text and its terminator are stored at
the front. -/
theorem convertToBase64_jpegSize (bufOut jpeg : Bytes) :
    convertToBase64 bufOut jpeg (jpegSize jpeg) =
      (narrow (encodedText jpeg).length, store bufOut 0 (encodedText jpeg)) :=
  rfl

/-- `readAndCompress` is its stores and the new `sendToClient`. -/
theorem readAndCompress_eq_perform (frame : Frame) (b : Buffers) :
    readAndCompress frame b =
      { (readAndCompressWrites frame).foldl Write.perform b with sendToClient := frame.toClient } := by
  rw [readAndCompress, ← jpegSize, ← jpegSize, convertToBase64_jpegSize, convertToBase64_jpegSize,
    readAndCompressWrites]
  simp only [List.foldl_cons, List.foldl_nil, perform_leftB64, perform_rightB64]
  rfl

/-- The arrays that `prepareVerifyAnswer` leaves behind are those of its stores. -/
theorem prepareVerifyAnswer_eq_perform (b : Buffers) :
    (prepareVerifyAnswer b).2 = (prepareVerifyAnswerWrites b).foldl Write.perform b := by
  rw [prepareVerifyAnswer, prepareVerifyAnswerWrites]
  simp only [List.foldl_cons, List.foldl_nil, perform_sendJson]
  rfl

/-- The bytes of an image that the encoder reads. -/
def clip (jpeg : Bytes) : Bytes := jpeg.take (jpegSize jpeg).toNat

/-- The text is the encoding of the bytes that the size covers. -/
theorem encodedText_eq (jpeg : Bytes) : encodedText jpeg = Base64.encode (clip jpeg) ++ [0] := by
  rw [encodedText, encodeChars_eq, clip]

theorem length_encode_clip (jpeg : Bytes) :
    (Base64.encode (clip jpeg)).length = ((jpegSize jpeg).toNat + 2) / 3 * 4 := by
  have hLe : jpegSize jpeg ≤ jpeg.length := narrow_le _
  have hClip : (clip jpeg).length = (jpegSize jpeg).toNat := by
    rw [clip, List.length_take]
    omega
  rw [Base64.length_encode, hClip]

/-- Four characters for three bytes, and the terminator. -/
theorem length_encodedText (jpeg : Bytes) :
    (encodedText jpeg).length = ((jpegSize jpeg).toNat + 2) / 3 * 4 + 1 := by
  rw [encodedText_eq, List.length_append, length_encode_clip, List.length_singleton]

/-- The text of an image fits with both terminators exactly up to this size. -/
def IsSmall (jpeg : Bytes) : Prop := jpegSize jpeg ≤ 537597

/-- An image is small enough exactly if its text and both terminators fit. -/
theorem isSmall_iff (jpeg : Bytes) : IsSmall jpeg ↔ (encodedText jpeg).length + 1 ≤ 1024 * 700 := by
  rw [IsSmall, length_encodedText]
  omega

/-- The length of such a text is an `int`. -/
theorem narrow_encodedText {jpeg : Bytes} (h : IsSmall jpeg) :
    narrow (encodedText jpeg).length = (encodedText jpeg).length :=
  narrow_eq (by have := (isSmall_iff jpeg).mp h; omega)

/-- What the encoder and the terminator behind it leave as a C string. -/
theorem cstr_encodedText {jpeg : Bytes} (h : IsSmall jpeg) (buffer : Bytes) :
    cstr (store (store buffer 0 (encodedText jpeg)) (narrow (encodedText jpeg).length).toNat [0]) =
      Base64.encode (clip jpeg) := by
  have hIndex : (narrow (encodedText jpeg).length).toNat =
      (Base64.encode (clip jpeg)).length + 1 := by
    rw [narrow_encodedText h, Int.toNat_natCast, encodedText_eq, List.length_append,
      List.length_singleton]
  rw [hIndex, encodedText_eq]
  exact cstr_terminated (zero_not_mem_encode _) buffer

/-- The texts of the members, and 123 characters around them. -/
theorem length_strJson (b : Buffers) : (strJson b).length =
    (cstr b.leftB64).length + (cstr b.rightB64).length + b.sendToClient.lat.length +
      b.sendToClient.lon.length + (Decimal.print b.sendToClient.time.toNat).length +
      b.sendToClient.dist.length + (Decimal.print b.sendToClient.brightnessGain.toNat).length +
      (Decimal.print b.sendToClient.brightnessShutter.toNat).length +
      (Decimal.print b.sendToClient.brightnessGamma.toNat).length + 123 := by
  simp [strJson, ascii]
  omega

/-- The left text, and the second terminator behind it. -/
theorem leftB64_readAndCompress (frame : Frame) (b : Buffers) :
    (readAndCompress frame b).leftB64 = store (store b.leftB64 0 (encodedText frame.left))
      (narrow (encodedText frame.left).length).toNat [0] := by
  rw [readAndCompress_eq_perform, readAndCompressWrites]
  simp only [List.foldl_cons, List.foldl_nil, perform_leftB64, perform_rightB64, Int.toNat_zero]

theorem rightB64_readAndCompress (frame : Frame) (b : Buffers) :
    (readAndCompress frame b).rightB64 = store (store b.rightB64 0 (encodedText frame.right))
      (narrow (encodedText frame.right).length).toNat [0] := by
  rw [readAndCompress_eq_perform, readAndCompressWrites]
  simp only [List.foldl_cons, List.foldl_nil, perform_leftB64, perform_rightB64, Int.toNat_zero]

/-- The two texts, and what a message has beside them. -/
theorem length_strJson_readAndCompress {frame : Frame} (hLeft : IsSmall frame.left)
    (hRight : IsSmall frame.right) (b : Buffers) :
    (strJson (readAndCompress frame b)).length ≤
      (Base64.encode (clip frame.left)).length + (Base64.encode (clip frame.right)).length +
        frame.lat.1.length + frame.lon.1.length + 158 := by
  have hTime : (Decimal.print frame.time.toNat).length ≤ 20 :=
    Decimal.length_print_le (by omega) (frame.time.toNat_lt.trans (by decide))
  have hClient : (readAndCompress frame b).sendToClient = frame.toClient := by
    rw [readAndCompress_eq_perform]
  have hSettings : (ascii "234.600000").length + (Decimal.print 7).length +
      (Decimal.print 56).length + (Decimal.print 89).length = 15 := by decide +kernel
  rw [length_strJson, hClient, leftB64_readAndCompress, rightB64_readAndCompress,
    cstr_encodedText hLeft, cstr_encodedText hRight]
  simp only [Frame.toClient, UInt32.reduceToNat]
  omega

/-- Every byte that is stored for a frame lies inside its array. -/
def StaysInside (frame : Frame) (b : Buffers) : Prop :=
  ∀ w ∈ readAndCompressWrites frame ++ prepareVerifyAnswerWrites (readAndCompress frame b), w.Inside

/-- `IMAGE_WIDTH` -/
def imageWidth : Nat := 1920

/-- Two images that fit the destinations of `jpegProc`, with the time and the
place of the frame. -/
structure Capture (imageHeight : Nat) where
  left : { jpeg : Bytes // jpeg.length ≤ imageWidth * imageHeight }
  right : { jpeg : Bytes // jpeg.length ≤ imageWidth * imageHeight }
  time : UInt64
  lat : Double
  lon : Double

/-- The text of a number needs no escapes. -/
theorem plain_print (d : Double) : Json.Plain d.print := by
  intro ch hMem
  have hChar : 45 ≤ ch ∧ ch ≤ 57 ∨ 97 ≤ ch ∧ ch ≤ 122 := Double.mem_print hMem
  refine ⟨?_, ?_, ?_⟩
  · rcases hChar with hLow | hHigh
    · exact UInt8.le_trans (by decide) hLow.1
    · exact UInt8.le_trans (by decide) hHigh.1
  · rintro rfl
    exact absurd hChar (by decide)
  · rintro rfl
    exact absurd hChar (by decide)

def Capture.frame {imageHeight : Nat} (c : Capture imageHeight) : Frame where
  left := c.left.1
  right := c.right.1
  time := c.time
  lat := ⟨c.lat.print, plain_print c.lat⟩
  lon := ⟨c.lon.print, plain_print c.lon⟩

/-- A text and the terminator behind it stay inside an array of this size
exactly if the image is small. -/
theorem encodedText_inside_iff {buffer : Buffer} (hSize : buffer.size = 1024 * 700) (jpeg : Bytes) :
    (⟨buffer, 0, encodedText jpeg⟩ : Write).Inside ∧
      (⟨buffer, narrow (encodedText jpeg).length, [0]⟩ : Write).Inside ↔ IsSmall jpeg := by
  constructor
  · rintro ⟨⟨-, hText⟩, -⟩
    simp only [hSize, length_encodedText] at hText
    rw [IsSmall]
    omega
  · intro h
    have hFits := (isSmall_iff jpeg).mp h
    refine ⟨⟨Int.le_refl 0, ?_⟩, ?_, ?_⟩
    · simp only [hSize]
      omega
    · simp only [narrow_encodedText h]
      omega
    · simp only [narrow_encodedText h, hSize, List.length_singleton]
      omega

/-- No write leaves the two buffers exactly if both images are small enough. -/
theorem readAndCompress_inside_iff (frame : Frame) :
    (∀ w ∈ readAndCompressWrites frame, w.Inside) ↔ IsSmall frame.left ∧ IsSmall frame.right := by
  have hLeftSize : Buffer.leftB64.size = 1024 * 700 := rfl
  have hRightSize : Buffer.rightB64.size = 1024 * 700 := rfl
  rw [← encodedText_inside_iff hLeftSize, ← encodedText_inside_iff hRightSize]
  simp only [readAndCompressWrites, List.forall_mem_cons, List.not_mem_nil, false_implies,
    implies_true, and_true]
  tauto

/-- Two small images leave more than enough room for the rest of a message. -/
theorem prepareVerifyAnswer_inside {imageHeight : Nat} (c : Capture imageHeight)
    (hLeft : IsSmall c.frame.left) (hRight : IsSmall c.frame.right) (b : Buffers) :
    ∀ w ∈ prepareVerifyAnswerWrites (readAndCompress c.frame b), w.Inside := by
  have hLat : c.frame.lat.1.length ≤ 317 := c.lat.length_print_le
  have hLon : c.frame.lon.1.length ≤ 317 := c.lon.length_print_le
  have hLeftText := (isSmall_iff _).mp hLeft
  have hRightText := (isSmall_iff _).mp hRight
  have hText := length_strJson_readAndCompress hLeft hRight b
  rw [length_encodedText, ← length_encode_clip] at hLeftText hRightText
  simp only [prepareVerifyAnswerWrites, List.forall_mem_cons, List.not_mem_nil, false_implies,
    implies_true, and_true, Write.Inside, Buffer.size, length_intBytes, List.length_take]
  omega

/-- Every store stays inside exactly if both images have at most 537597 bytes.
The destinations of `jpegProc` are larger, for every camera height from 280 on. -/
theorem staysInside_iff (imageHeight : Nat) (c : Capture imageHeight) (b : Buffers) :
    StaysInside c.frame b ↔ jpegSize c.left.1 ≤ 537597 ∧ jpegSize c.right.1 ≤ 537597 := by
  rw [StaysInside, List.forall_mem_append, readAndCompress_inside_iff]
  exact ⟨fun h => h.1, fun h => ⟨h, prepareVerifyAnswer_inside c h.1 h.2 b⟩⟩

/-- Two images of 600000 bytes, from a camera with 1000 lines. -/
def noisyCapture : Capture 1000 where
  left := ⟨List.replicate 600000 255, by rw [List.length_replicate]; decide⟩
  right := ⟨List.replicate 600000 255, by rw [List.length_replicate]; decide⟩
  time := 1700000000000000
  lat := Double.ofInt 55
  lon := Double.ofInt 37

/-- Their texts have 800001 bytes with the terminator, the arrays have 716800. -/
theorem noisyCapture_overflows :
    ¬ ∀ imageHeight, 1000 ≤ imageHeight → ∀ (c : Capture imageHeight) b, StaysInside c.frame b := by
  intro h
  have hSmall := ((readAndCompress_inside_iff noisyCapture.frame).mp
    (List.forall_mem_append.mp (h 1000 (by decide) noisyCapture {})).1).1
  have hSize : jpegSize noisyCapture.frame.left = 600000 := by
    rw [jpegSize, show noisyCapture.frame.left.length = 600000 from List.length_replicate]
    exact narrow_eq (by decide)
  rw [IsSmall, hSize] at hSmall
  omega

end Video
