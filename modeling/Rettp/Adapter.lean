import Rettp.Execution
import Rettp.HttpConfig

/-!
# The HTTP adapter

The client that `run` uses: a resolved request is encoded for the wire and sent once, and the
response is read under a byte limit and classified by its content type.

The crates that the adapter calls are parameters (`WireCrates`), and so is the network. A body
arrives in pieces; the deadline of a request ends every stream of them, so a stream is finite.
-/

namespace Rettp

/-! ## Configuration -/

/-- `DEFAULT_REQUEST_TIMEOUT`, in milliseconds. -/
def defaultRequestTimeoutMs : Nat := 30 * 1000

/-- `DEFAULT_MAX_RESPONSE_BODY_BYTES`: ten MiB. -/
def defaultMaxResponseBodyBytes : Nat := 10 * 1024 * 1024

theorem defaultRequestTimeoutMs_pos : 0 < defaultRequestTimeoutMs := by decide

theorem defaultMaxResponseBodyBytes_pos : 0 < defaultMaxResponseBodyBytes := by decide

/-- The configuration of an adapter: the base URL and the limits of a request. -/
structure AdapterConfig extends HttpClientConfig where
  defaultTimeoutMs : Nat
  maxResponseBodyBytes : Nat
  timeout_pos : 0 < defaultTimeoutMs
  bytes_pos : 0 < maxResponseBodyBytes

namespace AdapterConfig

/-- A base URL with the default limits. -/
def new (crate : UrlCrate) (baseUrl : String) : Except HttpError AdapterConfig :=
  (HttpClientConfig.new crate baseUrl).map fun config =>
    ⟨config, defaultRequestTimeoutMs, defaultMaxResponseBodyBytes, defaultRequestTimeoutMs_pos,
      defaultMaxResponseBodyBytes_pos⟩

/-- Another deadline for requests that have none of their own; zero is refused. -/
def withDefaultTimeout (config : AdapterConfig) (timeoutMs : Nat) :
    Except HttpError AdapterConfig :=
  if h : timeoutMs = 0 then
    .error (.invalidRequest "the default timeout must be greater than zero")
  else .ok { config with defaultTimeoutMs := timeoutMs, timeout_pos := Nat.pos_of_ne_zero h }

/-- Another limit for response bodies; zero is refused. -/
def withMaxResponseBodyBytes (config : AdapterConfig) (limit : Nat) :
    Except HttpError AdapterConfig :=
  if h : limit = 0 then
    .error (.invalidRequest "the response body limit must be greater than zero")
  else .ok { config with maxResponseBodyBytes := limit, bytes_pos := Nat.pos_of_ne_zero h }

end AdapterConfig

/-! ## The wire -/

/-- A request as it is handed to the network. -/
structure WireRequest where
  method : HttpMethod
  url : Url
  query : List (String × String)
  headers : List (String × String)
  body : Option ByteArray
  timeoutMs : Nat

/-- A failure of the HTTP library; its message names no URL. -/
structure ReqwestError where
  isTimeout : Bool
  isBuilder : Bool
  isDecode : Bool
  message : String

/-- The pieces of a response body as they arrive. -/
inductive ChunkStream where
  | finished
  | failed (error : ReqwestError)
  | chunk (bytes : ByteArray) (rest : ChunkStream)

/-- A response whose body has not been read. -/
structure WireResponse where
  status : Nat
  headers : List (String × ByteArray)
  contentLength : Option Nat
  body : ChunkStream

/-- A media type. -/
structure Mime where
  type : String
  subtype : String
  suffix : Option String

/-- The functions of the crates that encode and decode. -/
structure WireCrates where
  url : UrlCrate
  /-- `HeaderName::from_bytes` -/
  headerName : String → Except String String
  /-- `HeaderValue::from_str` -/
  headerValue : String → Except String String
  /-- `HeaderValue::to_str` -/
  headerText : ByteArray → Except String String
  /-- `str::parse::<Mime>` -/
  parseMime : String → Except String Mime
  /-- `serde_json::to_vec` -/
  jsonBytes : JsonValue → Except String ByteArray
  /-- `serde_json::from_slice` -/
  parseJson : ByteArray → Except String Json
  /-- the text of form fields -/
  formBytes : List (String × String) → ByteArray
  /-- the text of a UTF-8 error -/
  utf8Error : ByteArray → String

/-- How a failure of the HTTP library is classified. -/
def HttpError.fromReqwest (error : ReqwestError) : HttpError :=
  if error.isTimeout then .timeout error.message
  else if error.isBuilder then .invalidRequest error.message
  else if error.isDecode then .invalidResponse error.message
  else .connection error.message

/-- The header that the adapter adds to a request with a body. -/
def contentTypeName : String := "content-type"

/-! ## Encoding -/

section
variable [Platform]

/-- The text of a scalar in a header, a query or a form. -/
def wireScalar (value : ResolvedValue) (allowNull : Bool) (location : String) :
    Except HttpError String :=
  match value with
  | .string value => .ok value
  | .integer value => .ok (toString value)
  | .unsignedInteger value => .ok (toString value)
  | .number value =>
    if value.isFinite then .ok (Platform.displayF64 value)
    else .error (.invalidRequest s!"a {location} number must be finite")
  | .boolean value => .ok (toString value)
  | .null =>
    if allowNull then .ok "null"
    else .error (.invalidRequest s!"null is not supported in a {location}")
  | .array _ | .object _ =>
    .error (.invalidRequest s!"complex values are not supported in a {location}")

/-- Names with the texts of their values: the pairs of a query or of a form. -/
def appendPairs (location : String) : List (String × ResolvedValue) →
    Except HttpError (List (String × String))
  | [] => .ok []
  | (name, value) :: values => do
    let text ← wireScalar value true location
    return (name, text) :: (← appendPairs location values)

/-- The loop over the headers of a request. -/
def encodeHeaders (crates : WireCrates) : List (String × ResolvedValue) → List (String × String) →
    Except HttpError (List (String × String))
  | [], headers => .ok headers
  | (rawName, value) :: values, headers =>
    match crates.headerName rawName with
    | .error e => .error (.invalidRequest e)
    | .ok name =>
      if name ∈ headers.map Prod.fst then
        .error (.invalidRequest s!"duplicate case-insensitive request header `{rawName}`")
      else do
        let text ← wireScalar value false "header"
        match crates.headerValue text with
        | .error e => .error (.invalidRequest e)
        | .ok text => encodeHeaders crates values (headers ++ [(name, text)])

/-- The bytes of a body and the content type that they have by default. -/
structure EncodedBody where
  bytes : ByteArray
  contentType : String

/-- A resolved body as bytes. -/
def encodeBody (crates : WireCrates) : ResolvedRequestBody → Except HttpError EncodedBody
  | .json value => do
    let json ← toJson value 0
    match crates.jsonBytes json with
    | .error e => .error (.invalidRequest e)
    | .ok bytes => return ⟨bytes, "application/json"⟩
  | .text value => .ok ⟨value.toUTF8, "text/plain; charset=utf-8"⟩
  | .formData fields => do
    return ⟨crates.formBytes (← appendPairs "form field" fields),
      "application/x-www-form-urlencoded"⟩
  | .binary bytes => .ok ⟨⟨bytes.toArray⟩, "application/octet-stream"⟩

/-- The headers with the content type of the body, unless the request has its own. -/
def withContentType (headers : List (String × String)) (body : Option EncodedBody) :
    List (String × String) :=
  match body with
  | none => headers
  | some body =>
    if contentTypeName ∈ headers.map Prod.fst then headers
    else headers ++ [(contentTypeName, body.contentType)]

/-- Everything that happens before a request is sent. -/
def encodeRequest (crates : WireCrates) (config : AdapterConfig) (request : ResolvedHttpRequest) :
    Except HttpError WireRequest :=
  if request.timeoutMs = some 0 then
    .error (.invalidRequest "the request timeout must be greater than zero")
  else do
    let url ← resolveUrl crates.url config.toHttpClientConfig request.path
    let query ← appendPairs "query parameter" request.query
    let headers ← encodeHeaders crates request.headers []
    let body ← match request.body with
      | some body => some <$> encodeBody crates body
      | none => pure none
    return ⟨request.method, url, query, withContentType headers body, body.map (·.bytes),
      request.timeoutMs.getD config.defaultTimeoutMs⟩

end

/-! ## Decoding -/

/-- The loop over the pieces of a body. -/
def readChunks (limit : Nat) : ChunkStream → ByteArray → Except HttpError ByteArray
  | .finished, body => .ok body
  | .failed error, _ => .error (.fromReqwest error)
  | .chunk bytes rest, body =>
    if bytes.size > limit - body.size then .error (.bodyTooLarge limit)
    else readChunks limit rest (body ++ bytes)

/-- Read a body within a limit; a declared length over it is refused before anything is read. -/
def readBody (limit : Nat) (response : WireResponse) : Except HttpError ByteArray :=
  if response.contentLength.any fun contentLength => contentLength > limit then
    .error (.bodyTooLarge limit)
  else readChunks limit response.body ByteArray.empty

/-- The headers of a response, grouped by name. -/
def responseHeaders (headers : List (String × ByteArray)) : ResponseHeaders :=
  headers.foldl (fun responseHeaders header => responseHeaders.append header.1 header.2)
    ResponseHeaders.new

/-- The value of the content-type header. -/
def contentTypeOf (headers : List (String × ByteArray)) : Option ByteArray :=
  IndexMap.get headers contentTypeName

/-- `application/json`, and every application type with the suffix `+json`. -/
def Mime.isJson (mime : Mime) : Bool :=
  mime.type == "application" && (mime.subtype == "json" || mime.suffix == some "json")

/-- What a body is by its content type. An empty body is empty whatever its type. -/
def classifyBody (crates : WireCrates) (contentType : Option ByteArray) (body : ByteArray) :
    Except HttpError ResponseBody :=
  if body.size = 0 then .ok .empty
  else
    match contentType with
    | none => .ok (.binary body)
    | some contentType =>
      match (crates.headerText contentType).bind crates.parseMime with
      | .error e => .error (.invalidResponse e)
      | .ok mime =>
        if mime.isJson then
          match crates.parseJson body with
          | .error e => .error (.invalidResponse e)
          | .ok value => .ok (.json body value)
        else if mime.type == "text" then
          match String.fromUTF8? body with
          | none => .error (.invalidResponse (crates.utf8Error body))
          | some _ => .ok (.text body)
        else .ok (.binary body)

/-- The response that the assertions see. -/
def decodeResponse (crates : WireCrates) (limit : Nat) (response : WireResponse) :
    Except HttpError HttpResponse := do
  let body ← readBody limit response
  let body ← classifyBody crates (contentTypeOf response.headers) body
  return ⟨response.status, responseHeaders response.headers, body⟩

/-! ## The client -/

/-- The network: the answer to a request after a history of requests. -/
abbrev Network := List WireRequest → WireRequest → Except ReqwestError WireResponse

section
variable [Platform]

/-- The requests that reach the network. -/
def onWire (crates : WireCrates) (config : AdapterConfig) (sent : List ResolvedHttpRequest) :
    List WireRequest :=
  sent.filterMap fun request => (encodeRequest crates config request).toOption

/-- `ReqwestHttpClient::execute`: encode, send, decode. -/
def reqwestClient (crates : WireCrates) (config : AdapterConfig) (network : Network) : HttpClient :=
  fun sent request => do
    let wire ← encodeRequest crates config request
    match network (onWire crates config sent) wire with
    | .error error => .error (.fromReqwest error)
    | .ok response => decodeResponse crates config.maxResponseBodyBytes response

end

end Rettp
