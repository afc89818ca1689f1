import GisService.Data.Cxx
import GisService.Http.Message

/-! `handle_request` and the functions that build its responses. The file
system and the outcome of `HandleApiRequest` are inputs. -/
namespace Http

open ByteString Cxx HttpHead

structure Server where
  docRoot : Bytes
  /-- `BOOST_BEAST_VERSION_STRING` -/
  beastVersion : Bytes

/-- `SERVER_VERSION_STRING` -/
def serverVersion : Bytes := ascii "blabber/1.0 (Linux)"

/-- What `file_body::value_type::open` finds: a file, whose size is kept also
when the body is moved, or an error code with its message. -/
inductive OpenResult where
  | opened (contents : Bytes)
  | noSuchFileOrDirectory
  | failed (message : Bytes)
  deriving DecidableEq

/-- The part of a path from its last dot on. -/
def extension (path : Bytes) : Bytes :=
  if (46 : UInt8) ∈ path then 46 :: (path.reverse.takeWhile (· ≠ 46)).reverse else []

def mimeTypes : List (Bytes × Bytes) :=
  [(ascii ".htm", ascii "text/html"), (ascii ".html", ascii "text/html"),
   (ascii ".php", ascii "text/html"), (ascii ".css", ascii "text/css"),
   (ascii ".txt", ascii "text/plain"), (ascii ".js", ascii "application/javascript"),
   (ascii ".json", ascii "application/json"), (ascii ".xml", ascii "application/xml"),
   (ascii ".swf", ascii "application/x-shockwave-flash"), (ascii ".flv", ascii "video/x-flv"),
   (ascii ".png", ascii "image/png"), (ascii ".jpe", ascii "image/jpeg"),
   (ascii ".jpeg", ascii "image/jpeg"), (ascii ".jpg", ascii "image/jpeg"),
   (ascii ".gif", ascii "image/gif"), (ascii ".bmp", ascii "image/bmp"),
   (ascii ".ico", ascii "image/vnd.microsoft.icon"), (ascii ".tiff", ascii "image/tiff"),
   (ascii ".tif", ascii "image/tiff"), (ascii ".svg", ascii "image/svg+xml"),
   (ascii ".svgz", ascii "image/svg+xml")]

/-- `mime_type` -/
def mimeType (path : Bytes) : Bytes :=
  match mimeTypes.find? fun entry => iequals (extension path) entry.1 with
  | some entry => entry.2
  | none => ascii "application/text"

/-- `path_cat`: one separator at the end of the base is dropped. -/
def pathCat (base path : Bytes) : Bytes :=
  if base = [] then path
  else if base.getLast? = some 47 then base.dropLast ++ path
  else base ++ path

def fieldServer : Bytes := ascii "Server"
def fieldAllowOrigin : Bytes := ascii "Access-Control-Allow-Origin"
def fieldContentType : Bytes := ascii "Content-Type"

/-- What the five error builders share: an HTML text framed by
`prepare_payload`. -/
def errorResponse (server : Server) (status : Status) (request : Request) (body : Bytes) : Response :=
  ({ head :=
      { version := request.version, code := status.code, keepAlive := request.keepAlive,
        contentLength := 0,
        fields := [(fieldServer, server.beastVersion), (fieldAllowOrigin, ascii "*"),
          (fieldContentType, ascii "text/html")] },
     body } : Response).preparePayload

def badRequest (server : Server) (request : Request) (why : Bytes) : Response :=
  errorResponse server .badRequest request why

def notFound (server : Server) (request : Request) : Response :=
  errorResponse server .notFound request
    (ascii "The resource '" ++ request.target ++ ascii "' was not found.")

def serverError (server : Server) (request : Request) (what : Bytes) : Response :=
  errorResponse server .internalServerError request
    (ascii "An error occurred: '" ++ what ++ ascii "'")

def unauthorized (server : Server) (request : Request) : Response :=
  errorResponse server .unauthorized request (ascii "You are not logged in")

def forbidden (server : Server) (request : Request) : Response :=
  errorResponse server .forbidden request
    (ascii "You are not allowed to access" ++ request.target)

/-- The answer to `HEAD`: an `empty_body` with the length of the file. -/
def headResponse (server : Server) (request : Request) (path contents : Bytes) : Response where
  head :=
    { version := request.version, code := Status.ok.code, keepAlive := request.keepAlive,
      contentLength := contents.length,
      fields := [(fieldServer, server.beastVersion), (fieldContentType, mimeType path)] }
  body := []

/-- The answer to `OPTIONS`. Its length is set by hand. -/
def optionsResponse (server : Server) (request : Request) : Response where
  head :=
    { version := request.version, code := Status.created.code, keepAlive := request.keepAlive,
      contentLength := 0,
      fields := [(fieldServer, server.beastVersion), (fieldAllowOrigin, ascii "*"),
        (ascii "Access-Control-Allow-Headers",
          request.field (ascii "Access-Control-Request-Headers")),
        (ascii "Access-Control-Allow-Methods",
          request.field (ascii "Access-Control-Request-Method")),
        (fieldContentType, ascii "text/plain")] }
  body := [13, 10]

/-- The answer to `GET` for a file. -/
def fileResponse (server : Server) (request : Request) (path contents : Bytes) : Response where
  head :=
    { version := request.version, code := Status.ok.code, keepAlive := request.keepAlive,
      contentLength := contents.length,
      fields := [(fieldServer, server.beastVersion), (fieldContentType, mimeType path)] }
  body := contents

/-- The answer to an API request that succeeded. The body is assigned from a C
string, the length from the whole one. -/
def apiResponse (request : Request) (respBody : Bytes) : Response where
  head :=
    { version := request.version, code := Status.ok.code, keepAlive := request.keepAlive,
      contentLength := respBody.length,
      fields := [(fieldServer, serverVersion), (fieldAllowOrigin, ascii "*"),
        (fieldContentType, ascii "application/json")] }
  body := cstr respBody

/-- The method is one of the four that are handled. -/
def knownMethod : Verb → Bool
  | .other _ => false
  | _ => true

/-- The target is absolute and does not contain `..`. -/
def legalTarget (target : Bytes) : Bool :=
  target.head? = some 47 && (find (ascii "..") target).isNone

/-- The path of the requested file. -/
def filePath (server : Server) (request : Request) : Bytes :=
  let path := pathCat server.docRoot request.target
  if request.target.getLast? = some 47 then path ++ ascii "index.html" else path

/-- A request with what its handling depends on: the file system, and the
outcome that `HandleApiRequest` would have. -/
structure Exchange where
  request : Request
  openFile : Bytes → OpenResult
  api : Except Exception (Status × Bytes)

/-- The messages passed to `send`, and the exception that leaves the function. -/
abbrev Handled := List Response × Option Exception

def send (response : Response) : Handled := ([response], none)

/-- Both kinds of file request answer a file that does not open at once. -/
def withFile (server : Server) (request : Request) (result : OpenResult)
    (found : Bytes → Response) : Handled :=
  match result with
  | .noSuchFileOrDirectory => send (notFound server request)
  | .failed message => send (serverError server request message)
  | .opened contents => send (found contents)

/-- The end of `handle_request`, behind `HandleApiRequest`. -/
def handleApi (server : Server) (request : Request) : Except Exception (Status × Bytes) → Handled
  | .error e => ([], some e)
  | .ok (.ok, respBody) => send (apiResponse request respBody)
  | .ok (.unauthorized, _) => send (unauthorized server request)
  | .ok (.forbidden, _) => send (forbidden server request)
  | .ok (.notFound, _) => send (notFound server request)
  | .ok (.badRequest, respBody) => send (badRequest server request respBody)
  | .ok (_, respBody) => send (serverError server request respBody)

/-- `handle_request` -/
def handleRequest (server : Server) (x : Exchange) : Handled :=
  let request := x.request
  if !knownMethod request.method then
    send (badRequest server request (ascii "Unknown HTTP-method"))
  else if !legalTarget request.target then
    send (badRequest server request (ascii "Illegal request-target"))
  else
    let path := filePath server request
    if request.method = .head then
      withFile server request (x.openFile (cstr path)) (headResponse server request path)
    else if request.method = .options then
      send (optionsResponse server request)
    else if request.method = .get ∧ request.target.take 4 ≠ ascii "/api" then
      withFile server request (x.openFile (cstr path)) (fileResponse server request path)
    else handleApi server request x.api

end Http
