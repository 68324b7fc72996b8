import Rettp.Adapter
import Rettp.AssertionSpec

/-!
# What the adapter does

Reading: a body is accepted exactly when all of it fits the limit, however it is cut into pieces
(`readChunks_eq`), and a response reaches the assertions as it was received
(`decodeResponse_faithful`).

Encoding: the headers on the wire are those of the request, in order and under distinct names
(`encodeHeaders_eq_ok_iff`).
-/

namespace Rettp

/-! ## Reading a body -/

namespace ChunkStream

/-- All bytes up to the end of the stream. -/
def bytes : ChunkStream → ByteArray
  | .finished | .failed _ => ByteArray.empty
  | .chunk piece rest => piece ++ rest.bytes

/-- The failure that ends the stream, if it does not end by itself. -/
def failure : ChunkStream → Option ReqwestError
  | .finished => none
  | .failed error => some error
  | .chunk _ rest => rest.failure

end ChunkStream

/-- **Reading in closed form.** The loop sees nothing of a stream but its bytes and how it ends; the
limit goes before a failure. -/
theorem readChunks_eq (limit : Nat) (stream : ChunkStream) {body : ByteArray}
    (hbody : body.size ≤ limit) :
    readChunks limit stream body =
      if (body ++ stream.bytes).size > limit then .error (.bodyTooLarge limit)
      else match stream.failure with
        | some error => .error (.fromReqwest error)
        | none => .ok (body ++ stream.bytes) := by
  induction stream generalizing body with
  | finished =>
    rw [readChunks, ChunkStream.bytes, ByteArray.append_empty, if_neg (Nat.not_lt.mpr hbody)]
    rfl
  | failed error =>
    rw [readChunks, ChunkStream.bytes, ByteArray.append_empty, if_neg (Nat.not_lt.mpr hbody)]
    rfl
  | chunk piece rest ih =>
    rw [readChunks, ChunkStream.bytes, ← ByteArray.append_assoc]
    split
    · next h =>
      rw [if_pos]
      rw [ByteArray.size_append, ByteArray.size_append]
      omega
    · next h => exact ih (by rw [ByteArray.size_append]; omega)

/-- A body that is accepted. -/
theorem readBody_eq_ok_iff {limit : Nat} {response : WireResponse} {body : ByteArray} :
    readBody limit response = .ok body ↔
      (∀ contentLength ∈ response.contentLength, contentLength ≤ limit) ∧
        response.body.failure = none ∧ body = response.body.bytes ∧ body.size ≤ limit := by
  have hlength : (response.contentLength.any fun contentLength => contentLength > limit) = false ↔
      ∀ contentLength ∈ response.contentLength, contentLength ≤ limit := by
    cases response.contentLength <;> simp
  rw [readBody, Except.ite_error_eq_ok, Bool.not_eq_true, hlength,
    readChunks_eq limit _ (Nat.zero_le _), Except.ite_error_eq_ok, ByteArray.empty_append]
  refine and_congr_right fun _ => ?_
  cases response.body.failure with
  | some error => simp
  | none =>
    simp only [Except.ok.injEq, true_and, gt_iff_lt, Nat.not_lt]
    refine ⟨?_, ?_⟩
    · rintro ⟨hle, rfl⟩
      exact ⟨rfl, hle⟩
    · rintro ⟨rfl, hle⟩
      exact ⟨hle, rfl⟩

/-! ## Decoding a response -/

/-- The values of a header as they were received: under its name in any case, in order. -/
def receivedValues (headers : List (String × ByteArray)) (name : String) : List ByteArray :=
  headers.flatMap fun header =>
    if toAsciiLowercase header.1 = toAsciiLowercase name then [header.2] else []

/-- **Headers.** No value is lost, and no header gets the value of another one. -/
theorem values_responseHeaders (headers : List (String × ByteArray)) (name : String) :
    (responseHeaders headers).values name = receivedValues headers name := by
  have hloop (start : ResponseHeaders) :
      (headers.foldl (fun responseHeaders header => responseHeaders.append header.1 header.2)
        start).values name = start.values name ++ receivedValues headers name := by
    induction headers generalizing start with
    | nil => exact (List.append_nil _).symm
    | cons header headers ih =>
      rw [List.foldl_cons, ih, ResponseHeaders.values_append, List.append_assoc]
      rfl
  exact hloop ResponseHeaders.new

/-- A body that can be classified: an empty one, one without a content type, and one that is what
its content type says. -/
def Decodable (crates : WireCrates) (contentType : Option ByteArray) (body : ByteArray) : Prop :=
  body.size = 0 ∨ ∀ value ∈ contentType, ∃ mime,
    (crates.headerText value).bind crates.parseMime = .ok mime ∧
      (mime.isJson = true → ∃ json, crates.parseJson body = .ok json) ∧
      (mime.isJson = false → mime.type = "text" → ∃ text, String.fromUTF8? body = some text)

/-- Which bodies can be classified. -/
theorem classifyBody_isOk_iff {crates : WireCrates} {contentType : Option ByteArray}
    {body : ByteArray} :
    (∃ classified, classifyBody crates contentType body = .ok classified) ↔
      Decodable crates contentType body := by
  unfold classifyBody Decodable
  by_cases hempty : body.size = 0
  · simp [hempty]
  · cases contentType with
    | none => simp [hempty]
    | some value =>
      cases hmime : (crates.headerText value).bind crates.parseMime with
      | error e => simp [hempty, hmime]
      | ok mime =>
        cases hjson : mime.isJson with
        | true => cases crates.parseJson body <;> simp [hempty, hmime, hjson]
        | false =>
          by_cases htext : mime.type = "text"
          · cases String.fromUTF8? body <;> simp [hempty, hmime, hjson, htext]
          · simp [hempty, hmime, hjson, htext]

/-- Classifying keeps the bytes. -/
theorem rawBytes_classifyBody {crates : WireCrates} {contentType : Option ByteArray}
    {body : ByteArray} {classified : ResponseBody}
    (h : classifyBody crates contentType body = .ok classified) : classified.rawBytes = body := by
  unfold classifyBody at h
  split at h
  · next hempty =>
    obtain rfl := Except.ok.inj h
    exact (ByteArray.size_eq_zero_iff.mp hempty).symm
  · cases contentType with
    | none =>
      obtain rfl := Except.ok.inj h
      rfl
    | some value =>
      dsimp only at h
      cases hmime : (crates.headerText value).bind crates.parseMime with
      | error e => rw [hmime] at h; cases h
      | ok mime =>
        rw [hmime] at h
        dsimp only at h
        split at h
        · cases hvalue : crates.parseJson body with
          | error e => rw [hvalue] at h; cases h
          | ok json => rw [hvalue] at h; obtain rfl := Except.ok.inj h; rfl
        · split at h
          · cases hutf8 : String.fromUTF8? body with
            | none => rw [hutf8] at h; cases h
            | some text => rw [hutf8] at h; obtain rfl := Except.ok.inj h; rfl
          · obtain rfl := Except.ok.inj h
            rfl

/-- What the assertions see of a response is what was received. -/
structure Received (crates : WireCrates) (limit : Nat) (wire : WireResponse)
    (response : HttpResponse) : Prop where
  status : response.status = wire.status
  headers : ∀ name, response.headers.values name = receivedValues wire.headers name
  body : response.rawBody = wire.body.bytes
  bounded : response.rawBody.size ≤ limit
  classified : classifyBody crates (contentTypeOf wire.headers) wire.body.bytes = .ok response.body

/-- A response is decoded from its body as a whole, and its body is classified. -/
theorem decodeResponse_eq_ok_iff {crates : WireCrates} {limit : Nat} {wire : WireResponse}
    {response : HttpResponse} :
    decodeResponse crates limit wire = .ok response ↔
      ∃ body classified, readBody limit wire = .ok body ∧
        classifyBody crates (contentTypeOf wire.headers) body = .ok classified ∧
        response = ⟨wire.status, responseHeaders wire.headers, classified⟩ := by
  rw [decodeResponse, Except.bind_eq_ok]
  simp only [Except.bind_eq_ok, Except.pure_eq_ok, Except.ok.injEq]
  refine ⟨?_, ?_⟩
  · rintro ⟨body, hbody, classified, hclassified, rfl⟩
    exact ⟨body, classified, hbody, hclassified, rfl⟩
  · rintro ⟨body, classified, hbody, hclassified, rfl⟩
    exact ⟨body, hbody, classified, hclassified, rfl⟩

/-- What is decoded is what was received. -/
theorem received_of_decodeResponse {crates : WireCrates} {limit : Nat} {wire : WireResponse}
    {response : HttpResponse} (h : decodeResponse crates limit wire = .ok response) :
    Received crates limit wire response := by
  obtain ⟨body, classified, hbody, hclassified, rfl⟩ := decodeResponse_eq_ok_iff.mp h
  obtain ⟨-, -, rfl, hsize⟩ := readBody_eq_ok_iff.mp hbody
  have hraw := rawBytes_classifyBody hclassified
  exact ⟨rfl, values_responseHeaders wire.headers, hraw,
    (congrArg ByteArray.size hraw).trans_le hsize, hclassified⟩

/-- **A response arrives as it was received, or not at all.** It arrives exactly when its body ends
by itself, neither its declared nor its real length is over the limit, and it can be classified. -/
theorem decodeResponse_faithful (crates : WireCrates) (limit : Nat) (wire : WireResponse) :
    ((∃ response, decodeResponse crates limit wire = .ok response) ↔
      (∀ contentLength ∈ wire.contentLength, contentLength ≤ limit) ∧
        wire.body.failure = none ∧ wire.body.bytes.size ≤ limit ∧
        Decodable crates (contentTypeOf wire.headers) wire.body.bytes) ∧
    ∀ response, decodeResponse crates limit wire = .ok response →
      Received crates limit wire response := by
  refine ⟨?_, fun response => received_of_decodeResponse⟩
  rw [← classifyBody_isOk_iff]
  refine ⟨?_, ?_⟩
  · rintro ⟨response, h⟩
    obtain ⟨body, classified, hbody, hclassified, -⟩ := decodeResponse_eq_ok_iff.mp h
    obtain ⟨hlength, hend, rfl, hsize⟩ := readBody_eq_ok_iff.mp hbody
    exact ⟨hlength, hend, hsize, classified, hclassified⟩
  · rintro ⟨hlength, hend, hsize, classified, hclassified⟩
    exact ⟨_, decodeResponse_eq_ok_iff.mpr ⟨_, classified,
      readBody_eq_ok_iff.mpr ⟨hlength, hend, rfl, hsize⟩, hclassified, rfl⟩⟩

/-! ## Encoding headers -/

section
variable [Platform]

/-- A header that HTTP can carry, with the name and the text that go on the wire. -/
def Carries (crates : WireCrates) (header : String × ResolvedValue) (wire : String × String) :
    Prop :=
  crates.headerName header.1 = .ok wire.1 ∧
    ∃ text, wireScalar header.2 false "header" = .ok text ∧ crates.headerValue text = .ok wire.2

/-- **One header more.** -/
theorem encodeHeaders_cons_eq_ok_iff {crates : WireCrates} {header : String × ResolvedValue}
    {values : List (String × ResolvedValue)} {headers result : List (String × String)} :
    encodeHeaders crates (header :: values) headers = .ok result ↔
      ∃ wire, Carries crates header wire ∧ wire.1 ∉ headers.map Prod.fst ∧
        encodeHeaders crates values (headers ++ [wire]) = .ok result := by
  obtain ⟨rawName, value⟩ := header
  rw [encodeHeaders]
  refine ⟨fun h => ?_, ?_⟩
  · cases hname : crates.headerName rawName with
    | error e => rw [hname] at h; cases h
    | ok name =>
      rw [hname] at h
      dsimp only at h
      rw [Except.ite_error_eq_ok] at h
      obtain ⟨hnew, h⟩ := h
      obtain ⟨text, htext, h⟩ := Except.bind_eq_ok.mp h
      cases hvalue : crates.headerValue text with
      | error e => rw [hvalue] at h; cases h
      | ok wireText =>
        rw [hvalue] at h
        exact ⟨(name, wireText), ⟨hname, text, htext, hvalue⟩, hnew, h⟩
  · rintro ⟨wire, ⟨hname, text, htext, hvalue⟩, hnew, h⟩
    rw [hname]
    dsimp only
    rw [if_neg hnew, htext, Except.ok_bind, hvalue]
    exact h

/-- The names on the wire are all different, and none of them was there before. -/
def NewNames (headers encoded : List (String × String)) : Prop :=
  (encoded.map Prod.fst).Nodup ∧ ∀ name ∈ encoded.map Prod.fst, name ∉ headers.map Prod.fst

omit [Platform] in
/-- A name that is new, and further ones that are new even with it. -/
theorem newNames_cons {headers encoded : List (String × String)} {wire : String × String} :
    NewNames headers (wire :: encoded) ↔
      wire.1 ∉ headers.map Prod.fst ∧ NewNames (headers ++ [wire]) encoded := by
  have hnames (name : String) : name ∉ (headers ++ [wire]).map Prod.fst ↔
      name ∉ headers.map Prod.fst ∧ name ≠ wire.1 := by
    rw [List.map_append, List.mem_append, not_or, List.map_singleton, List.mem_singleton]
  simp only [NewNames, hnames, List.map_cons, List.nodup_cons, List.forall_mem_cons]
  refine ⟨?_, ?_⟩
  · rintro ⟨⟨hwire, hnodup⟩, hnew, hencoded⟩
    exact ⟨hnew, hnodup, fun name h => ⟨hencoded name h, fun heq => hwire (heq ▸ h)⟩⟩
  · rintro ⟨hnew, hnodup, hencoded⟩
    exact ⟨⟨fun h => (hencoded _ h).2 rfl, hnodup⟩, hnew, fun name h => (hencoded name h).1⟩

/-- **The loop over the headers** puts each of them on the wire, under names that are all new. -/
theorem encodeHeaders_eq_ok_iff {crates : WireCrates} {values : List (String × ResolvedValue)}
    {headers result : List (String × String)} :
    encodeHeaders crates values headers = .ok result ↔
      ∃ encoded, result = headers ++ encoded ∧ List.Forall₂ (Carries crates) values encoded ∧
        NewNames headers encoded := by
  induction values generalizing headers with
  | nil =>
    rw [encodeHeaders, Except.ok.injEq]
    refine ⟨?_, ?_⟩
    · rintro rfl
      exact ⟨[], (List.append_nil _).symm, .nil, List.nodup_nil, List.forall_mem_nil _⟩
    · rintro ⟨encoded, rfl, hencoded, -⟩
      cases hencoded
      exact (List.append_nil _).symm
  | cons header values ih =>
    rw [encodeHeaders_cons_eq_ok_iff]
    refine ⟨?_, ?_⟩
    · rintro ⟨wire, hcarries, hnew, h⟩
      obtain ⟨encoded, rfl, hencoded, hnames⟩ := ih.mp h
      exact ⟨wire :: encoded, List.append_assoc _ _ _, .cons hcarries hencoded,
        newNames_cons.mpr ⟨hnew, hnames⟩⟩
    · rintro ⟨_, rfl, hcons, hnames⟩
      cases hcons with
      | @cons _ wire _ encoded hcarries hencoded =>
        obtain ⟨hnew, hnames⟩ := newNames_cons.mp hnames
        exact ⟨wire, hcarries, hnew,
          ih.mpr ⟨encoded, (List.append_assoc headers [wire] encoded).symm, hencoded, hnames⟩⟩

omit [Platform] in
/-- The content type comes last, where the request has none of its own. -/
theorem withContentType_names (headers : List (String × String)) (body : Option EncodedBody) :
    ∃ added, (withContentType headers body).map Prod.fst = headers.map Prod.fst ++ added ∧
      (added = [] ∨ added = [contentTypeName] ∧ body.isSome = true ∧
        contentTypeName ∉ headers.map Prod.fst) := by
  cases body with
  | none => exact ⟨[], (List.append_nil _).symm, .inl rfl⟩
  | some body =>
    rw [withContentType]
    split
    · exact ⟨[], (List.append_nil _).symm, .inl rfl⟩
    · next hnew => exact ⟨[contentTypeName], List.map_append, .inr ⟨rfl, rfl, hnew⟩⟩

omit [Platform] in
/-- So names that are distinct stay distinct. -/
theorem nodup_withContentType {headers : List (String × String)}
    (h : (headers.map Prod.fst).Nodup) (body : Option EncodedBody) :
    ((withContentType headers body).map Prod.fst).Nodup := by
  obtain ⟨added, hnames, rfl | ⟨rfl, -, hnew⟩⟩ := withContentType_names headers body
  · rwa [hnames, List.append_nil]
  · rw [hnames, ← List.concat_eq_append]
    exact h.concat hnew

end

end Rettp
