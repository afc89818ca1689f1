import GisService.Video.Capacity
import GisService.Video.SharedMemory
import GisService.Video.Stream

/-! What the messages show. `readAndCompress` takes the time and the place of a
frame from where its mode says, and the images from `imgsum`, which only one of
the modes ever fills. -/
namespace Video

open ByteString Memory

/-- `MODE_VERIFY` -/
inductive ModeVerify where
  | verifyTime
  | verifyCoord
  | verifyDist
  | modeTime

/-- What `gps_from_pipe` has of the receiver. -/
structure GnsActualy where
  time : UInt64
  lat : Double
  lon : Double

/-- `std::tm` -/
structure Tm where
  tmYear : Int
  tmMon : Int
  tmMday : Int
  tmHour : Int
  tmMin : Int
  tmSec : Int

/-- `hblackString` -/
def hblackString : Nat := 200

/-- OpenCV, libjpeg and the time zone. A text is painted at the line 45 below
the frame, in letters that do not reach up to it. The compressor gets one line
of the image at a time. -/
structure Imaging (imageHeight : Nat) where
  putText : Bytes → Bytes → Bytes
  below : ∀ image text, (putText image text).take (imageWidth * imageHeight) =
    image.take (imageWidth * imageHeight)
  localtime : UInt64 → Tm
  compress : List Bytes → { jpeg : Bytes // jpeg.length ≤ imageWidth * imageHeight }

variable {imageHeight size : Nat}

/-- The conversions `%02d` and `%06d`. -/
def padded (width : Nat) (n : Int) : Bytes :=
  let digits := Decimal.print n.natAbs
  let sign : Bytes := if n < 0 then [45] else []
  sign ++ List.replicate (width - sign.length - digits.length) 48 ++ digits

/-- The texts that `savePassage` formats. -/
def passageText (title number : Bytes) (ptm : Tm) (ttMs : UInt64) : Bytes :=
  [title, number, ascii " ", Decimal.printInt (ptm.tmYear + 1900), ascii "-",
    padded 2 (ptm.tmMon + 1), ascii "-", padded 2 ptm.tmMday, ascii " ", padded 2 ptm.tmHour,
    ascii ":", padded 2 ptm.tmMin, ascii ":", padded 2 ptm.tmSec, ascii ".",
    padded 6 ttMs.toNat].flatten

/-- `savePassage`: each half of the frame on top of a black bar with a text. -/
def savePassage (im : Imaging imageHeight) (leftFact rightFact : Bytes) (ttime : UInt64)
    (number : Bytes) : Bytes × Bytes :=
  let bar := List.replicate (imageWidth * hblackString) 0
  let mFullLeft := leftFact.take (imageWidth * imageHeight) ++ bar
  let mFullRight := rightFact.take (imageWidth * imageHeight) ++ bar
  let tt := ttime / 1000000
  let ttMs := ttime - tt * 1000000
  let ptm := im.localtime tt
  (im.putText mFullLeft (passageText (ascii "TANDEM LEFT ") number ptm ttMs),
    im.putText mFullRight (passageText (ascii "TANDEM RIGHT ") number ptm ttMs))

/-- `jpegProc`, which passes `IMAGE_HEIGHT` lines on. -/
def jpegProc (im : Imaging imageHeight) (imageBuffer : Bytes) :
    { jpeg : Bytes // jpeg.length ≤ imageWidth * imageHeight } :=
  im.compress ((List.range imageHeight).map fun nextScanline =>
    (imageBuffer.drop (nextScanline * imageWidth)).take imageWidth)

/-- What one call of `readAndCompress` finds: the two mutexes of the shared
memory, and `gps_mutex` at each attempt. A slot has the pixels of two images. -/
structure Pass (size imageHeight : Nat) where
  attempts : List (Option (SharedMemory.Ids size))
  frames : Option (Fin size → SharedMemory.Slot)
  gps : List (Option GnsActualy)
  whole : ∀ frame, frames = some frame → ∀ index,
    (frame index).buf.length = 2 * (imageWidth * imageHeight)

/-- The local variables of `readAndCompress` at their start. -/
def noOutputs : SharedMemory.Outputs := ⟨0, 0, Double.ofInt 0, Double.ofInt 0⟩

/-- The branches over the mode. There is no result while the mutex that is
waited for stays busy. -/
def locate (mode : ModeVerify) (pass : Pass size imageHeight) (reader : SharedMemory.Reader) :
    Option (SharedMemory.Reader × SharedMemory.Outputs) :=
  match mode with
  | .verifyTime => (SharedMemory.readFrame pass.attempts pass.frames reader noOutputs).map Prod.snd
  | .verifyCoord => (pass.gps.findSome? id).map fun wrt =>
      (reader, { noOutputs with time := wrt.time, lat := wrt.lat, lon := wrt.lon })
  | .verifyDist => some (reader, noOutputs)
  | .modeTime => some (reader, noOutputs)

/-- `readAndCompress` up to the images, which are then encoded. -/
def capture (im : Imaging imageHeight) (mode : ModeVerify) (pass : Pass size imageHeight)
    (reader : SharedMemory.Reader) : Option (SharedMemory.Reader × Capture imageHeight) := do
  let (reader, out) ← locate mode pass reader
  let (retLeft, retRight) := savePassage im (reader.imgsum.take (imageWidth * imageHeight))
    (reader.imgsum.drop (imageWidth * imageHeight)) out.time (ascii "2102999")
  return (reader, { left := jpegProc im retLeft, right := jpegProc im retRight, time := out.time,
                    lat := out.lat, lon := out.lon })

/-- The images of a frame alone, without any text. -/
def ofPixels (im : Imaging imageHeight) (imgsum : Bytes) (out : SharedMemory.Outputs) :
    Capture imageHeight where
  left := jpegProc im (imgsum.take (imageWidth * imageHeight))
  right := jpegProc im (imgsum.drop (imageWidth * imageHeight))
  time := out.time
  lat := out.lat
  lon := out.lon

/-- The lines behind the frame are not compressed. -/
theorem jpegProc_congr (im : Imaging imageHeight) {image image' : Bytes}
    (h : image.take (imageWidth * imageHeight) = image'.take (imageWidth * imageHeight)) :
    jpegProc im image = jpegProc im image' := by
  have hLine (row : Nat) (hRow : row < imageHeight) (pixels : Bytes) :
      (pixels.drop (row * imageWidth)).take imageWidth =
        ((pixels.take (imageWidth * imageHeight)).drop (row * imageWidth)).take imageWidth := by
    have hInside : row * imageWidth + imageWidth ≤ imageWidth * imageHeight := by
      rw [Nat.mul_comm imageWidth, ← Nat.succ_mul]
      exact Nat.mul_le_mul_right _ hRow
    rw [List.drop_take, List.take_take, Nat.min_eq_left (by omega)]
  rw [jpegProc, jpegProc]
  congr 1
  refine List.map_congr_left fun row hMem => ?_
  have hRow := List.mem_range.mp hMem
  rw [hLine row hRow image, hLine row hRow image', h]

/-- The text and the bar below the frame never reach the compressor. -/
theorem jpegProc_savePassage (im : Imaging imageHeight) {leftFact rightFact : Bytes}
    (hLeft : leftFact.length = imageWidth * imageHeight)
    (hRight : rightFact.length = imageWidth * imageHeight) (ttime : UInt64) (number : Bytes) :
    jpegProc im (savePassage im leftFact rightFact ttime number).1 = jpegProc im leftFact ∧
      jpegProc im (savePassage im leftFact rightFact ttime number).2 = jpegProc im rightFact := by
  have hFull (fact bar text : Bytes) (hFact : fact.length = imageWidth * imageHeight) :
      jpegProc im (im.putText (fact.take (imageWidth * imageHeight) ++ bar) text) =
        jpegProc im fact := by
    have hWhole : fact.take (imageWidth * imageHeight) = fact :=
      List.take_of_length_le (Nat.le_of_eq hFact)
    apply jpegProc_congr
    rw [im.below, hWhole, List.take_left' hFact]
  exact ⟨hFull leftFact _ _ hLeft, hFull rightFact _ _ hRight⟩

/-- What is captured are the images alone, with the time and the place that
were found. -/
theorem capture_eq (im : Imaging imageHeight) (mode : ModeVerify) (pass : Pass size imageHeight)
    {reader reader' : SharedMemory.Reader} {out : SharedMemory.Outputs}
    (hLocate : locate mode pass reader = some (reader', out))
    (hWhole : reader'.imgsum.length = 2 * (imageWidth * imageHeight)) :
    capture im mode pass reader = some (reader', ofPixels im reader'.imgsum out) := by
  have hLeft : (reader'.imgsum.take (imageWidth * imageHeight)).length =
      imageWidth * imageHeight := by
    rw [List.length_take]
    omega
  have hRight : (reader'.imgsum.drop (imageWidth * imageHeight)).length =
      imageWidth * imageHeight := by
    rw [List.length_drop]
    omega
  obtain ⟨hLeftImage, hRightImage⟩ :=
    jpegProc_savePassage im hLeft hRight out.time (ascii "2102999")
  simp only [capture, hLocate, Option.bind_eq_bind, Option.bind_some, Option.pure_def]
  rw [hLeftImage, hRightImage]
  rfl

/-- A call of `readAndCompress` that has returned. -/
structure Captured (size imageHeight : Nat) where
  pass : Pass size imageHeight
  capture : Capture imageHeight

/-- The next call finds the globals as the last one has left them. -/
def CaptureStep (im : Imaging imageHeight) (mode : ModeVerify) (reader : SharedMemory.Reader)
    (x : Captured size imageHeight) (reader' : SharedMemory.Reader) : Prop :=
  capture im mode x.pass reader = some (reader', x.capture)

/-- The index that a pass reads in `ids_buffer`. -/
def Pass.published (pass : Pass size imageHeight) : Option (Fin size) :=
  (SharedMemory.obtained pass.attempts).map SharedMemory.Ids.lastIndex

/-- The index that the last pass has read, and 0 in front of the first. -/
def lastPublished (past : List (Captured size imageHeight)) : Nat :=
  ((past.getLast?.bind fun x => x.pass.published).map Fin.val).getD 0

/-- The slot that a pass takes its frame from. Its index differs from the one
read by the pass before, and its mutex is free. -/
def fetched (past : List (Captured size imageHeight)) (pass : Pass size imageHeight) :
    Option SharedMemory.Slot :=
  match pass.published, pass.frames with
  | some index, some frame => if lastPublished past = index then none else some (frame index)
  | _, _ => none

/-- The images of the last capture, with another time and another place. At the
start they are those of the memory as `malloc` has left it. -/
def repeated (im : Imaging imageHeight) (imgsum : Bytes) (past : List (Captured size imageHeight))
    (out : SharedMemory.Outputs) : Capture imageHeight :=
  match past.getLast? with
  | some x => { x.capture with time := out.time, lat := out.lat, lon := out.lon }
  | none => ofPixels im imgsum out

/-- What a pass captures. With `VERIFY_TIME` a slot gives the images together
with its own time and place, or else the last images come again without both.
In the other modes the images never change. -/
def Shows (im : Imaging imageHeight) (mode : ModeVerify) (imgsum : Bytes)
    (past : List (Captured size imageHeight)) (x : Captured size imageHeight) : Prop :=
  match mode with
  | .verifyTime =>
      match fetched past x.pass with
      | some slot => x.capture = ofPixels im slot.buf ⟨slot.id, slot.timeGns, slot.lat, slot.lon⟩
      | none => x.capture = repeated im imgsum past noOutputs
  | .verifyCoord => ∃ wrt, x.pass.gps.findSome? id = some wrt ∧
      x.capture = ofPixels im imgsum ⟨0, wrt.time, wrt.lat, wrt.lon⟩
  | .verifyDist => x.capture = ofPixels im imgsum noOutputs
  | .modeTime => x.capture = ofPixels im imgsum noOutputs

/-- `VERIFY_TIME` finds the index of the pass before again, or it moves the
marker and then tries to fetch the frame. -/
theorem locate_verifyTime {pass : Pass size imageHeight} {reader reader' : SharedMemory.Reader}
    {out : SharedMemory.Outputs} (h : locate .verifyTime pass reader = some (reader', out)) :
    ∃ index, pass.published = some index ∧
      (reader.lastIndex = index ∧ reader' = reader ∧ out = noOutputs ∨
        reader.lastIndex ≠ index ∧ (reader', out) =
          SharedMemory.fetch { reader with lastIndex := index } noOutputs index pass.frames) := by
  obtain ⟨⟨result, reader', out⟩, hRead, ⟨⟩⟩ := Option.map_eq_some_iff.mp h
  have hStep : SharedMemory.ReadStep reader
      ⟨reader, noOutputs, pass.attempts, pass.frames, result, reader', out⟩ reader' :=
    ⟨rfl, rfl, hRead⟩
  obtain ⟨index, hPublished, ⟨hSame, -, hReader, hOut⟩ | ⟨hNew, -, hFetch⟩⟩ :=
    SharedMemory.readStep_cases hStep
  · exact ⟨index, hPublished, .inl ⟨hSame, hReader, hOut⟩⟩
  · exact ⟨index, hPublished, .inr ⟨hNew, hFetch⟩⟩

/-- The globals between two passes: the images in `imgsum` are those of the last
capture, and the marker is the index that the last pass has read. -/
structure Held (im : Imaging imageHeight) (mode : ModeVerify) (imgsum : Bytes)
    (past : List (Captured size imageHeight)) (reader : SharedMemory.Reader) : Prop where
  whole : reader.imgsum.length = 2 * (imageWidth * imageHeight)
  images : ∀ out, repeated im imgsum past out = ofPixels im reader.imgsum out
  marker : mode = .verifyTime → reader.lastIndex = lastPublished past
  still : mode ≠ .verifyTime → reader.imgsum = imgsum

section Run
variable {im : Imaging imageHeight} {mode : ModeVerify} {imgsum : Bytes}
  {past : List (Captured size imageHeight)} {reader reader' : SharedMemory.Reader}
  {x : Captured size imageHeight}

/-- The pass that has just been made is the last one. -/
theorem lastPublished_snoc (past : List (Captured size imageHeight)) {index : Fin size}
    (h : x.pass.published = some index) : lastPublished (past ++ [x]) = index := by
  rw [lastPublished, List.getLast?_concat, Option.bind_some, h]
  rfl

/-- After a capture of the images in `imgsum` they are the last ones. -/
theorem repeated_snoc (past : List (Captured size imageHeight)) {pixels : Bytes}
    {out : SharedMemory.Outputs} (h : x.capture = ofPixels im pixels out)
    (out' : SharedMemory.Outputs) :
    repeated im imgsum (past ++ [x]) out' = ofPixels im pixels out' := by
  rw [repeated, List.getLast?_concat]
  dsimp only
  rw [h]
  rfl

/-- What was found determines the capture. -/
theorem CaptureStep.located (h : CaptureStep im mode reader x reader') :
    ∃ out, locate mode x.pass reader = some (reader', out) := by
  cases hLocate : locate mode x.pass reader with
  | none => simp [CaptureStep, capture, hLocate] at h
  | some located =>
      obtain ⟨found, out⟩ := located
      simp only [CaptureStep, capture, hLocate, Option.bind_eq_bind, Option.bind_some,
        Option.pure_def, Option.some.injEq, Prod.mk.injEq] at h
      exact ⟨out, by rw [h.1]⟩

/-- The capture is of the images that the pass has left in memory. -/
theorem CaptureStep.capture_eq {out : SharedMemory.Outputs}
    (h : CaptureStep im mode reader x reader')
    (hLocate : locate mode x.pass reader = some (reader', out))
    (hWhole : reader'.imgsum.length = 2 * (imageWidth * imageHeight)) :
    x.capture = ofPixels im reader'.imgsum out := by
  rw [CaptureStep, Video.capture_eq im mode x.pass hLocate hWhole] at h
  exact ((Prod.mk.inj (Option.some.inj h)).2).symm

/-- A pass in a mode that leaves the memory alone. -/
theorem Held.quiet (h : Held im mode imgsum past reader) (hMode : mode ≠ .verifyTime)
    {out : SharedMemory.Outputs} (hStep : CaptureStep im mode reader x reader')
    (hLocate : locate mode x.pass reader = some (reader, out)) (hReader : reader' = reader) :
    x.capture = ofPixels im imgsum out ∧ Held im mode imgsum (past ++ [x]) reader' := by
  subst hReader
  have hCapture := hStep.capture_eq hLocate h.whole
  refine ⟨by rw [hCapture, h.still hMode], h.whole, repeated_snoc past hCapture,
    fun hVerify => absurd hVerify hMode, h.still⟩

/-- A pass with `VERIFY_TIME`: the same index again, a slot that is busy, or a new
frame. -/
theorem Held.verifyTime (h : Held im .verifyTime imgsum past reader)
    (hStep : CaptureStep im .verifyTime reader x reader') :
    Shows im .verifyTime imgsum past x ∧ Held im .verifyTime imgsum (past ++ [x]) reader' := by
  obtain ⟨out, hLocate⟩ := hStep.located
  obtain ⟨index, hPublished, ⟨hSame, rfl, rfl⟩ | ⟨hNew, hFetch⟩⟩ := locate_verifyTime hLocate
  · have hCapture := hStep.capture_eq hLocate h.whole
    refine ⟨?_, h.whole, repeated_snoc past hCapture,
      fun _ => by rw [hSame, lastPublished_snoc past hPublished], nofun⟩
    have hNone : fetched past x.pass = none := by
      cases hFrames : x.pass.frames with
      | none => simp [fetched, hFrames]
      | some frame => simp [fetched, hPublished, hFrames, ← h.marker rfl, hSame]
    rw [Shows, hNone, h.images]
    exact hCapture
  · cases hFrames : x.pass.frames with
    | none =>
        rw [hFrames] at hFetch
        obtain ⟨rfl, rfl⟩ := Prod.mk.inj hFetch
        have hCapture := hStep.capture_eq hLocate h.whole
        refine ⟨?_, h.whole, repeated_snoc past hCapture,
          fun _ => (lastPublished_snoc past hPublished).symm, nofun⟩
        have hNone : fetched past x.pass = none := by simp [fetched, hFrames]
        rw [Shows, hNone, h.images]
        exact hCapture
    | some frame =>
        rw [hFrames] at hFetch
        obtain ⟨rfl, rfl⟩ := Prod.mk.inj hFetch
        have hWhole := x.pass.whole frame hFrames index
        have hCapture := hStep.capture_eq hLocate hWhole
        refine ⟨?_, hWhole, repeated_snoc past hCapture,
          fun _ => (lastPublished_snoc past hPublished).symm, nofun⟩
        have hSome : fetched past x.pass = some (frame index) := by
          simp [fetched, hPublished, hFrames, ← h.marker rfl, hNew]
        rw [Shows, hSome]
        exact hCapture

/-- Each pass shows what it has found, and leaves the globals as the next one
expects them. -/
theorem Held.step (h : Held im mode imgsum past reader)
    (hStep : CaptureStep im mode reader x reader') :
    Shows im mode imgsum past x ∧ Held im mode imgsum (past ++ [x]) reader' := by
  obtain ⟨out, hLocate⟩ := hStep.located
  cases mode with
  | verifyTime => exact h.verifyTime hStep
  | verifyCoord =>
      obtain ⟨wrt, hGps, ⟨⟩⟩ := Option.map_eq_some_iff.mp hLocate
      obtain ⟨hCapture, hNext⟩ := h.quiet nofun hStep hLocate rfl
      exact ⟨⟨wrt, hGps, hCapture⟩, hNext⟩
  | verifyDist =>
      obtain ⟨rfl, rfl⟩ := Prod.mk.inj (Option.some.inj hLocate)
      exact h.quiet nofun hStep hLocate rfl
  | modeTime =>
      obtain ⟨rfl, rfl⟩ := Prod.mk.inj (Option.some.inj hLocate)
      exact h.quiet nofun hStep hLocate rfl

end Run

/-- What `readAndCompress` has left in a run of the server. -/
def recorded? : Event → Option Recording
  | ⟨_, .readAndCompress, recording, _⟩ => some recording
  | _ => none

def recordings (events : List Event) : List Recording := events.filterMap recorded?

/-- A call of `send` hands over the message of the last frame. -/
def SendsLast (past : List Event) (e : Event) : Prop :=
  ∀ fd buffer n, sent? e = some (fd, buffer, n) →
    ∃ recording, (recordings past).getLast? = some recording ∧ buffer = recording.frame.message

/-- Other calls than `send` hand over nothing. -/
theorem SendsLast.of_not_sent {past : List Event} {e : Event} (h : sent? e = none) :
    SendsLast past e := by
  intro fd buffer n hSent
  rw [h] at hSent
  cases hSent

section Server
variable {im : Imaging imageHeight} {mode : ModeVerify} {imgsum : Bytes} {w : World}
  {events : List Event} {finish : Thread Globals × World}
  {captures : List (Captured size imageHeight)} {reader : SharedMemory.Reader}

end Server

end Video
