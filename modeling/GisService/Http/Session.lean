import GisService.Data.Framing
import GisService.Data.Runs
import GisService.Http.Server

/-! A kept-alive connection. The client has to find the end of each response
from its head and from the method it asked with. -/
namespace Http

open ByteString Cxx HttpHead

/-- As many body bytes as the client will skip. -/
def MessageFramed (request : Request) (response : Response) : Prop :=
  if request.method = .head then response.body = []
  else response.head.contentLength = response.body.length

instance (request : Request) (response : Response) : Decidable (MessageFramed request response) :=
  inferInstanceAs (Decidable (if request.method = .head then response.body = []
    else response.head.contentLength = response.body.length))

/-- The request is passed on to `HandleApiRequest`. -/
def ReachesApi (request : Request) : Prop :=
  legalTarget request.target = true ∧
    (request.method = .post ∨ request.method = .get ∧ request.target.take 4 = ascii "/api")

instance (request : Request) : Decidable (ReachesApi request) :=
  inferInstanceAs (Decidable (_ ∧ _))

/-- The exchanges that are framed: a `HEAD` request finds its file, a request
with a legal target is not `OPTIONS`, and no successful API response contains
a NUL. -/
structure WellFramed (server : Server) (x : Exchange) : Prop where
  head : x.request.method = .head → legalTarget x.request.target = true ∧
    ∃ contents, x.openFile (cstr (filePath server x.request)) = .opened contents
  options : x.request.method = .options → legalTarget x.request.target = false
  api : ReachesApi x.request → ∀ respBody, x.api = .ok (.ok, respBody) → (0 : UInt8) ∉ respBody

variable {server : Server}

/-- An answer with a text fits a request unless that is a `HEAD`. -/
theorem errorResponse_framed_iff (status : Status) (request : Request) (body : Bytes) :
    MessageFramed request (errorResponse server status request body) ↔
      (request.method = .head → body = []) := by
  unfold MessageFramed
  split <;> simp_all [errorResponse, Response.preparePayload]

/-- Away from `HEAD` requests every error response is framed. -/
theorem errorResponse_framed (status : Status) {request : Request} (h : request.method ≠ .head)
    (body : Bytes) : MessageFramed request (errorResponse server status request body) :=
  (errorResponse_framed_iff status request body).mpr fun hHead => absurd hHead h

/-- A text of the API is cut at its first NUL, but counted as a whole. -/
theorem apiResponse_framed_iff {request : Request} (h : request.method ≠ .head) (respBody : Bytes) :
    MessageFramed request (apiResponse request respBody) ↔ (0 : UInt8) ∉ respBody := by
  rw [MessageFramed, if_neg h, ← cstr_length_eq_iff]
  exact eq_comm

/-- Only a successful answer of the API can be framed wrongly. -/
theorem handleApi_framed_iff {request : Request} (h : request.method ≠ .head)
    {outcome : Except Exception (Status × Bytes)} {response : Response}
    (hSent : response ∈ (handleApi server request outcome).1) :
    MessageFramed request response ↔
      ∀ respBody, outcome = .ok (.ok, respBody) → (0 : UInt8) ∉ respBody := by
  cases outcome with
  | error e => simp [handleApi] at hSent
  | ok result =>
      obtain ⟨status, respBody⟩ := result
      cases status with
      | ok =>
          obtain rfl : response = apiResponse request respBody := by
            simpa [handleApi, send] using hSent
          rw [apiResponse_framed_iff h]
          simp
      | unauthorized | forbidden | notFound | badRequest | created | internalServerError | other =>
          have hFramed : MessageFramed request response := by
            simp only [handleApi, send, List.mem_singleton] at hSent
            subst hSent
            exact errorResponse_framed _ h _
          simp [hFramed]

/-- An answer with a text does not fit a `HEAD` request. -/
theorem not_framed_head_error {request : Request} (h : request.method = .head) (status : Status)
    {body : Bytes} (hBody : body ≠ []) :
    ¬ MessageFramed request (errorResponse server status request body) := by
  rw [errorResponse_framed_iff]
  exact fun hEmpty => hBody (hEmpty h)

/-- An exchange that is neither `HEAD` nor `OPTIONS` depends on the API alone. -/
theorem wellFramed_iff_api {x : Exchange} (hHead : x.request.method ≠ .head)
    (hOptions : x.request.method ≠ .options) :
    WellFramed server x ↔ (ReachesApi x.request →
      ∀ respBody, x.api = .ok (.ok, respBody) → (0 : UInt8) ∉ respBody) :=
  ⟨fun h => h.api, fun h => ⟨fun hMethod => absurd hMethod hHead,
    fun hMethod => absurd hMethod hOptions, h⟩⟩

/-- A `HEAD` exchange depends on the file alone. -/
theorem wellFramed_iff_head {x : Exchange} (hHead : x.request.method = .head) :
    WellFramed server x ↔ legalTarget x.request.target = true ∧
      ∃ contents, x.openFile (cstr (filePath server x.request)) = .opened contents := by
  refine ⟨fun h => h.head hHead, fun h => ⟨fun _ => h, ?_, ?_⟩⟩
  · rw [hHead]
    simp
  · rintro ⟨-, hMethod | ⟨hMethod, -⟩⟩ <;> simp [hHead] at hMethod

/-- An illegal target is answered with an error text, which only a `HEAD`
request must not get. -/
theorem illegal_framed_iff {x : Exchange} (hLegal : legalTarget x.request.target = false) :
    MessageFramed x.request
        (badRequest server x.request (ascii "Illegal request-target")) ↔ WellFramed server x := by
  have hApi : ¬ ReachesApi x.request := by
    rintro ⟨hTrue, -⟩
    simp [hLegal] at hTrue
  by_cases hHead : x.request.method = .head
  · refine iff_of_false (not_framed_head_error hHead _ (by decide)) ?_
    rw [wellFramed_iff_head hHead, hLegal]
    simp
  · refine iff_of_true (errorResponse_framed _ hHead _) ⟨fun h => absurd h hHead, fun _ => hLegal,
      fun h => absurd h hApi⟩

/-- A legal `HEAD` request asks for a file. -/
theorem handleRequest_head {x : Exchange} (hLegal : legalTarget x.request.target = true)
    (hHead : x.request.method = .head) :
    handleRequest server x = withFile server x.request (x.openFile (cstr (filePath server x.request)))
      (headResponse server x.request (filePath server x.request)) := by
  simp [handleRequest, knownMethod, hLegal, hHead]

/-- A legal `GET` request that is not for the API asks for a file. -/
theorem handleRequest_get {x : Exchange} (hLegal : legalTarget x.request.target = true)
    (hGet : x.request.method = .get) (hFile : x.request.target.take 4 ≠ ascii "/api") :
    handleRequest server x = withFile server x.request (x.openFile (cstr (filePath server x.request)))
      (fileResponse server x.request (filePath server x.request)) := by
  simp [handleRequest, knownMethod, hLegal, hGet, hFile]

/-- The answer to `HEAD` is framed exactly if the file was opened. -/
theorem head_framed_iff {x : Exchange} (hLegal : legalTarget x.request.target = true)
    (hHead : x.request.method = .head) {response : Response}
    (hSent : response ∈ (handleRequest server x).1) :
    MessageFramed x.request response ↔ WellFramed server x := by
  rw [wellFramed_iff_head hHead, and_iff_right hLegal]
  rw [handleRequest_head hLegal hHead] at hSent
  cases hOpen : x.openFile (cstr (filePath server x.request)) with
  | opened contents =>
      rw [hOpen] at hSent
      obtain rfl := List.mem_singleton.mp hSent
      exact iff_of_true (by rw [MessageFramed, if_pos hHead]; rfl) ⟨contents, rfl⟩
  | noSuchFileOrDirectory =>
      rw [hOpen] at hSent
      obtain rfl := List.mem_singleton.mp hSent
      exact iff_of_false (not_framed_head_error hHead _ (by simp [ascii])) (by simp)
  | failed message =>
      rw [hOpen] at hSent
      obtain rfl := List.mem_singleton.mp hSent
      exact iff_of_false (not_framed_head_error hHead _ (by simp [ascii])) (by simp)

/-- A file, or the error in opening it, is framed in answer to `GET`. -/
theorem get_framed {x : Exchange} (hLegal : legalTarget x.request.target = true)
    (hGet : x.request.method = .get) (hFile : x.request.target.take 4 ≠ ascii "/api")
    {response : Response} (hSent : response ∈ (handleRequest server x).1) :
    MessageFramed x.request response := by
  have hHead : x.request.method ≠ .head := by
    rw [hGet]
    decide
  rw [handleRequest_get hLegal hGet hFile] at hSent
  cases hOpen : x.openFile (cstr (filePath server x.request)) with
  | opened contents =>
      rw [hOpen] at hSent
      obtain rfl := List.mem_singleton.mp hSent
      rw [MessageFramed, if_neg hHead]
      rfl
  | noSuchFileOrDirectory =>
      rw [hOpen] at hSent
      obtain rfl := List.mem_singleton.mp hSent
      exact errorResponse_framed _ hHead _
  | failed message =>
      rw [hOpen] at hSent
      obtain rfl := List.mem_singleton.mp hSent
      exact errorResponse_framed _ hHead _

/-- Behind the guards, what is neither a file request nor `HEAD` nor `OPTIONS`
goes to the API. -/
theorem handleRequest_api {x : Exchange} (h : ReachesApi x.request) :
    handleRequest server x = handleApi server x.request x.api := by
  obtain ⟨hLegal, hMethod⟩ := h
  rcases hMethod with hPost | ⟨hGet, hTarget⟩
  · simp [handleRequest, knownMethod, hPost, hLegal]
  · simp [handleRequest, knownMethod, hGet, hLegal, hTarget]

/-- A message that is sent is framed exactly in a well-framed exchange. -/
theorem message_framed_iff {x : Exchange} {response : Response}
    (hSent : response ∈ (handleRequest server x).1) :
    MessageFramed x.request response ↔ WellFramed server x := by
  cases hLegal : legalTarget x.request.target with
  | false =>
      cases hMethod : x.request.method with
      | other name =>
          obtain rfl : response = badRequest server x.request (ascii "Unknown HTTP-method") := by
            simpa [handleRequest, knownMethod, hMethod, send] using hSent
          refine iff_of_true (errorResponse_framed _ (by simp [hMethod]) _) ?_
          rw [wellFramed_iff_api (by simp [hMethod]) (by simp [hMethod])]
          exact fun h => absurd h.1 (by simp [hLegal])
      | get | head | post | options =>
          obtain rfl : response =
              badRequest server x.request (ascii "Illegal request-target") := by
            simpa [handleRequest, knownMethod, hMethod, hLegal, send] using hSent
          exact illegal_framed_iff hLegal
  | true =>
      cases hMethod : x.request.method with
      | head => exact head_framed_iff hLegal hMethod hSent
      | options =>
          obtain rfl : response = optionsResponse server x.request := by
            simpa [handleRequest, knownMethod, hMethod, hLegal, send] using hSent
          refine iff_of_false ?_ fun h => by simp [h.options hMethod] at hLegal
          rw [MessageFramed, if_neg (by simp [hMethod])]
          simp [optionsResponse]
      | post =>
          have hApi : ReachesApi x.request := ⟨hLegal, .inl hMethod⟩
          rw [handleRequest_api hApi] at hSent
          rw [handleApi_framed_iff (by simp [hMethod]) hSent,
            wellFramed_iff_api (by simp [hMethod]) (by simp [hMethod])]
          exact ⟨fun h _ => h, fun h => h hApi⟩
      | get =>
          rw [wellFramed_iff_api (by simp [hMethod]) (by simp [hMethod])]
          by_cases hFile : x.request.target.take 4 = ascii "/api"
          · have hApi : ReachesApi x.request := ⟨hLegal, .inr ⟨hMethod, hFile⟩⟩
            rw [handleRequest_api hApi] at hSent
            rw [handleApi_framed_iff (by simp [hMethod]) hSent]
            exact ⟨fun h _ => h, fun h => h hApi⟩
          · refine iff_of_true (get_framed hLegal hMethod hFile hSent) fun h => ?_
            rcases h.2 with hPost | ⟨-, hApi⟩
            · simp [hMethod] at hPost
            · exact absurd hApi hFile
      | other name =>
          obtain rfl : response = badRequest server x.request (ascii "Unknown HTTP-method") := by
            simpa [handleRequest, knownMethod, hMethod, send] using hSent
          refine iff_of_true (errorResponse_framed _ (by simp [hMethod]) _) ?_
          rw [wellFramed_iff_api (by simp [hMethod]) (by simp [hMethod])]
          rintro ⟨-, hPost | ⟨hGet, -⟩⟩
          · simp [hMethod] at hPost
          · simp [hMethod] at hGet

/-- Beast's parser leaves no line break in a field value. -/
def ValidRequest (request : Request) : Prop := ∀ field ∈ request.fields, (13 : UInt8) ∉ field.2

/-- No field of a request breaks the line that repeats it. -/
theorem ValidRequest.field {request : Request} (h : ValidRequest request) (name : Bytes) :
    (13 : UInt8) ∉ request.field name := by
  unfold Request.field
  cases hFind : request.fields.find? fun f => iequals f.1 name with
  | none => simp
  | some f => exact h f (List.mem_of_find?_eq_some hFind)

theorem mimeType_valid (path : Bytes) : (13 : UInt8) ∉ mimeType path := by
  have hTable : ∀ entry ∈ mimeTypes, (13 : UInt8) ∉ entry.2 := by decide +kernel
  unfold mimeType
  cases hFind : mimeTypes.find? fun entry => iequals (extension path) entry.1 with
  | none => decide
  | some entry => exact hTable entry (List.mem_of_find?_eq_some hFind)

/-- The names that the server sets. -/
theorem validField_of_name {name value : Bytes} (hName : name ∈ [fieldServer, fieldAllowOrigin,
    fieldContentType, ascii "Access-Control-Allow-Headers", ascii "Access-Control-Allow-Methods"])
    (hValue : (13 : UInt8) ∉ value) : ValidField (name, value) := by
  have hNames : ∀ name ∈ [fieldServer, fieldAllowOrigin, fieldContentType,
      ascii "Access-Control-Allow-Headers", ascii "Access-Control-Allow-Methods"],
      (58 : UInt8) ∉ name ∧ (13 : UInt8) ∉ name := by decide +kernel
  exact ⟨(hNames name hName).1, (hNames name hName).2, hValue⟩

/-- The fields of an answer can stand in their lines. -/
theorem errorResponse_valid (hVersion : (13 : UInt8) ∉ server.beastVersion) (status : Status)
    (request : Request) (body : Bytes) : (errorResponse server status request body).head.Valid := by
  simp only [HttpHead.Head.Valid, errorResponse, Response.preparePayload, List.forall_mem_cons,
    List.not_mem_nil, false_implies, implies_true, and_true]
  exact ⟨validField_of_name (by simp) hVersion, validField_of_name (by simp) (by decide),
    validField_of_name (by simp) (by decide)⟩

theorem withFile_valid (hVersion : (13 : UInt8) ∉ server.beastVersion) {request : Request}
    {result : OpenResult} {found : Bytes → Response} (hFound : ∀ contents, (found contents).head.Valid)
    {response : Response} (hSent : response ∈ (withFile server request result found).1) :
    response.head.Valid := by
  cases result with
  | opened contents =>
      obtain rfl := List.mem_singleton.mp hSent
      exact hFound contents
  | noSuchFileOrDirectory =>
      obtain rfl := List.mem_singleton.mp hSent
      exact errorResponse_valid hVersion _ _ _
  | failed message =>
      obtain rfl := List.mem_singleton.mp hSent
      exact errorResponse_valid hVersion _ _ _

theorem handleApi_valid (hVersion : (13 : UInt8) ∉ server.beastVersion) {request : Request}
    {outcome : Except Exception (Status × Bytes)} {response : Response}
    (hSent : response ∈ (handleApi server request outcome).1) : response.head.Valid := by
  cases outcome with
  | error e => simp [handleApi] at hSent
  | ok result =>
      obtain ⟨status, respBody⟩ := result
      cases status with
      | ok =>
          obtain rfl := List.mem_singleton.mp hSent
          simp only [HttpHead.Head.Valid, apiResponse, List.forall_mem_cons, List.not_mem_nil,
            false_implies, implies_true, and_true]
          exact ⟨validField_of_name (by simp) (by decide), validField_of_name (by simp) (by decide),
            validField_of_name (by simp) (by decide)⟩
      | unauthorized | forbidden | notFound | badRequest | created | internalServerError | other =>
          obtain rfl := List.mem_singleton.mp hSent
          exact errorResponse_valid hVersion _ _ _

/-- No response breaks a line. -/
theorem response_valid {x : Exchange} (hVersion : (13 : UInt8) ∉ server.beastVersion)
    (hRequest : ValidRequest x.request) {response : Response}
    (hSent : response ∈ (handleRequest server x).1) : response.head.Valid := by
  simp only [handleRequest] at hSent
  split at hSent
  · obtain rfl := List.mem_singleton.mp hSent
    exact errorResponse_valid hVersion _ _ _
  split at hSent
  · obtain rfl := List.mem_singleton.mp hSent
    exact errorResponse_valid hVersion _ _ _
  split at hSent
  · refine withFile_valid hVersion (fun contents => ?_) hSent
    simp only [HttpHead.Head.Valid, headResponse, List.forall_mem_cons, List.not_mem_nil,
      false_implies, implies_true, and_true]
    exact ⟨validField_of_name (by simp) hVersion, validField_of_name (by simp) (mimeType_valid _)⟩
  split at hSent
  · obtain rfl := List.mem_singleton.mp hSent
    simp only [HttpHead.Head.Valid, optionsResponse, List.forall_mem_cons, List.not_mem_nil,
      false_implies, implies_true, and_true]
    exact ⟨validField_of_name (by simp) hVersion, validField_of_name (by simp) (by decide),
      validField_of_name (by simp) (hRequest.field _), validField_of_name (by simp) (hRequest.field _),
      validField_of_name (by simp) (by decide)⟩
  split at hSent
  · refine withFile_valid hVersion (fun contents => ?_) hSent
    simp only [HttpHead.Head.Valid, fileResponse, List.forall_mem_cons, List.not_mem_nil,
      false_implies, implies_true, and_true]
    exact ⟨validField_of_name (by simp) hVersion, validField_of_name (by simp) (mimeType_valid _)⟩
  · exact handleApi_valid hVersion hSent

/-- What `async_write` puts on the connection. -/
def wire (codec : Codec) (response : Response) : Bytes := codec.write response.head ++ response.body

/-- A client reads a head, and then as many bytes as the head says, but none in
answer to `HEAD`. -/
def readResponse (codec : Codec) (method : Verb) (stream : Bytes) : Option (Response × Bytes) := do
  let (head, stream) ← codec.read stream
  if method = .head then return ({ head, body := [] }, stream)
  else if head.contentLength ≤ stream.length then
    return ({ head, body := stream.take head.contentLength }, stream.drop head.contentLength)
  else none

/-- A framed response is read back, whatever follows it. -/
theorem readResponse_wire (codec : Codec) {request : Request} {response : Response}
    (hValid : response.head.Valid) (hFramed : MessageFramed request response) (rest : Bytes) :
    readResponse codec request.method (wire codec response ++ rest) = some (response, rest) := by
  obtain ⟨head, body⟩ := response
  unfold MessageFramed at hFramed
  rw [readResponse, wire, List.append_assoc, codec.read_write head hValid]
  by_cases hHead : request.method = .head
  · rw [if_pos hHead] at hFramed
    simp only at hFramed
    simp [hHead, hFramed]
  · rw [if_neg hHead] at hFramed
    simp only at hFramed
    simp [hHead, hFramed]

/-- A session's connection: the bytes written so far, and whether another
request will be read. -/
structure Connection where
  written : Bytes := []
  isOpen : Bool := true
  deriving DecidableEq

/-- `on_read` and `on_write` for one request. All responses have a length, so
`need_eof` is the negation of `keep_alive`. -/
def Serve (codec : Codec) (server : Server) (c : Connection) (x : Exchange) (c' : Connection) : Prop :=
  c.isOpen = true ∧ ∃ response, handleRequest server x = ([response], none) ∧
    c' = { written := c.written ++ wire codec response, isOpen := response.head.keepAlive }

/-- The written stream is one response for each request, in order. -/
theorem responses_of_run {codec : Codec} {exchanges : List Exchange} {c : Connection}
    (run : Runs (Serve codec server) {} exchanges c) :
    ∃ answers : List (Exchange × Response), answers.map Prod.fst = exchanges ∧
      (∀ a ∈ answers, handleRequest server a.1 = ([a.2], none)) ∧
      c.written = answers.flatMap fun a => wire codec a.2 := by
  refine run.history (fun exchanges c => ∃ answers : List (Exchange × Response),
    answers.map Prod.fst = exchanges ∧ (∀ a ∈ answers, handleRequest server a.1 = ([a.2], none)) ∧
      c.written = answers.flatMap fun a => wire codec a.2) ⟨[], rfl, by simp, rfl⟩ ?_
  rintro exchanges c x c' ⟨answers, rfl, hAnswers, hWritten⟩ ⟨-, response, hHandled, rfl⟩
  refine ⟨answers ++ [(x, response)], by simp, ?_, by simp [hWritten]⟩
  intro a hMem
  rcases List.mem_append.mp hMem with hOld | hNew
  · exact hAnswers a hOld
  · rw [List.mem_singleton.mp hNew]
    exact hHandled

/-- A message is framed exactly in a well-framed exchange, and the responses to
well-framed exchanges on one connection read back as one response for each
request, in order. -/
theorem responses_framed_iff (codec : Codec) (server : Server)
    (hVersion : (13 : UInt8) ∉ server.beastVersion) :
    (∀ x response, response ∈ (handleRequest server x).1 →
      (MessageFramed x.request response ↔ WellFramed server x)) ∧
    ∀ exchanges c, Runs (Serve codec server) {} exchanges c →
      (∀ x ∈ exchanges, ValidRequest x.request ∧ WellFramed server x) →
      ∃ answers : List (Exchange × Response), answers.map Prod.fst = exchanges ∧
        (∀ a ∈ answers, handleRequest server a.1 = ([a.2], none)) ∧
        Framing.readEach (readResponse codec) (exchanges.map fun x => x.request.method) c.written =
          some (answers.map Prod.snd, []) := by
  refine ⟨fun x response hSent => message_framed_iff hSent, ?_⟩
  intro exchanges c run hGood
  obtain ⟨answers, rfl, hAnswers, hWritten⟩ := responses_of_run run
  refine ⟨answers, rfl, hAnswers, ?_⟩
  have hRead : ∀ t ∈ answers.map fun a => (a.1.request.method, a.2, wire codec a.2), ∀ rest,
      readResponse codec t.1 (t.2.2 ++ rest) = some (t.2.1, rest) := by
    intro t hMem rest
    obtain ⟨a, ha, rfl⟩ := List.mem_map.mp hMem
    obtain ⟨hRequest, hFramed⟩ := hGood a.1 (List.mem_map_of_mem ha)
    have hSent : a.2 ∈ (handleRequest server a.1).1 := by simp [hAnswers a ha]
    exact readResponse_wire codec (response_valid hVersion hRequest hSent)
      ((message_framed_iff hSent).mpr hFramed) rest
  have hStream := Framing.readEach_append _ hRead []
  simpa [List.flatMap_map, List.map_map, Function.comp_def, ← hWritten] using hStream

def sampleServer : Server where
  docRoot := ascii "/srv"
  beastVersion := ascii "Boost.Beast/322"

def sampleFile : Exchange where
  request := { method := .get, target := ascii "/index.html" }
  openFile _ := .opened (ascii "hello")
  api := .error .logicError

def sampleApi : Exchange where
  request := { method := .post, target := ascii "/api/info" }
  openFile _ := .noSuchFileOrDirectory
  api := .ok (.ok, ascii "[]")

def sampleFileResponse : Response :=
  fileResponse sampleServer sampleFile.request (ascii "/srv/index.html") (ascii "hello")

def sampleApiResponse : Response := apiResponse sampleApi.request (ascii "[]")

def sampleConnection (responses : List Response) : Connection where
  written := responses.flatMap (wire http1)

/-- A connection that asks for a file and then for an API method. -/
theorem responses_framed_sample :
    ∃ answers : List (Exchange × Response), answers.map Prod.fst = [sampleFile, sampleApi] ∧
      (∀ a ∈ answers, handleRequest sampleServer a.1 = ([a.2], none)) ∧
      Framing.readEach (readResponse http1) [.get, .post]
          (sampleConnection [sampleFileResponse, sampleApiResponse]).written =
        some (answers.map Prod.snd, []) := by
  have hFile : Serve http1 sampleServer {} sampleFile (sampleConnection [sampleFileResponse]) :=
    ⟨rfl, sampleFileResponse, by decide +kernel, by simp [sampleConnection]; rfl⟩
  have hApi : Serve http1 sampleServer (sampleConnection [sampleFileResponse]) sampleApi
      (sampleConnection [sampleFileResponse, sampleApiResponse]) :=
    ⟨rfl, sampleApiResponse, by decide +kernel, by simp [sampleConnection]; rfl⟩
  have hGet : WellFramed sampleServer sampleFile :=
    (wellFramed_iff_api (by decide) (by decide)).mpr fun h => absurd h (by decide)
  have hPost : WellFramed sampleServer sampleApi := by
    refine (wellFramed_iff_api (by decide) (by decide)).mpr fun _ respBody hBody => ?_
    obtain rfl : ascii "[]" = respBody := (Prod.mk.inj (Except.ok.inj hBody)).2
    decide
  refine (responses_framed_iff http1 sampleServer (by decide)).2 [sampleFile, sampleApi] _
    ((Runs.single hFile).snoc hApi) ?_
  intro x hMem
  simp only [List.mem_cons, List.not_mem_nil, or_false] at hMem
  rcases hMem with rfl | rfl
  · exact ⟨by simp [ValidRequest, sampleFile], hGet⟩
  · exact ⟨by simp [ValidRequest, sampleApi], hPost⟩

/-- `OPTIONS` for a legal target is answered with two bytes that the head does
not announce. -/
theorem options_not_framed :
    handleRequest sampleServer
        ⟨{ method := .options, target := ascii "/api/info" }, fun _ => .noSuchFileOrDirectory,
          .ok (.ok, [])⟩ =
      ([optionsResponse sampleServer { method := .options, target := ascii "/api/info" }], none) ∧
    ¬ MessageFramed { method := .options, target := ascii "/api/info" }
      (optionsResponse sampleServer { method := .options, target := ascii "/api/info" }) := by
  decide +kernel

end Http
