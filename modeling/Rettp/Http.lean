import Rettp.Domain
import Rettp.Json

/-!
# Resolved requests and responses

The transport-neutral request that the runtime hands to an HTTP client, the response it gets
back, and the JSON encoding of a resolved body (`toJson`).
-/

namespace Rettp

/-! ## Requests -/

/-- A fully resolved request value. -/
inductive ResolvedValue where
  | string (value : String)
  | integer (value : Int)
  | unsignedInteger (value : Nat)
  | number (value : Float)
  | boolean (value : Bool)
  | null
  | array (items : List ResolvedValue)
  | object (entries : List (String × ResolvedValue))

/-- The body of a request after its variables are replaced. -/
inductive ResolvedRequestBody where
  | json (value : ResolvedValue)
  | text (value : String)
  | formData (fields : IndexMap String ResolvedValue)
  | binary (bytes : List UInt8)

/-- A request after its variables are replaced. -/
structure ResolvedHttpRequest where
  method : HttpMethod
  path : String
  headers : IndexMap String ResolvedValue
  query : IndexMap String ResolvedValue
  body : Option ResolvedRequestBody
  timeoutMs : Option Nat

/-! ## Responses -/

/-- Response headers: a multi-value map keyed by lower-case names. The fields after `entries`
are what `append`, the only way to add a value, keeps. -/
structure ResponseHeaders where
  entries : IndexMap String (List ByteArray)
  nodup : (IndexMap.keys entries).Nodup
  lower : ∀ name ∈ IndexMap.keys entries, toAsciiLowercase name = name

/-- A response body classified by its content type. -/
inductive ResponseBody where
  | empty
  | json (raw : ByteArray) (value : Json)
  | text (raw : ByteArray)
  | binary (raw : ByteArray)

/-- The bytes that a body was read from. -/
def ResponseBody.rawBytes : ResponseBody → ByteArray
  | .empty => ByteArray.empty
  | .json raw _ => raw
  | .text raw => raw
  | .binary raw => raw

/-- A response as the assertions see it. -/
structure HttpResponse where
  status : Nat
  headers : ResponseHeaders
  body : ResponseBody

/-- The bytes of the body. -/
def HttpResponse.rawBody (r : HttpResponse) : ByteArray := r.body.rawBytes

/-! ## Errors -/

/-- Why there is no response. -/
inductive HttpError where
  | invalidBaseUrl (reason : String)
  | invalidRequest (reason : String)
  | connection (message : String)
  | timeout (message : String)
  | invalidResponse (reason : String)
  | bodyTooLarge (limitBytes : Nat)
  deriving DecidableEq

/-- The text of an error. -/
def HttpError.display : HttpError → String
  | .invalidBaseUrl reason => s!"invalid HTTP base URL: {reason}"
  | .invalidRequest reason => s!"invalid HTTP request: {reason}"
  | .connection message => s!"HTTP connection failed: {message}"
  | .timeout message => s!"HTTP request timed out: {message}"
  | .invalidResponse reason => s!"invalid HTTP response: {reason}"
  | .bodyTooLarge limitBytes => s!"HTTP response body exceeds the {limitBytes}-byte limit"

/-! ## Header lookup -/

theorem asciiLower_idem (c : Char) : asciiLower (asciiLower c) = asciiLower c := by
  unfold asciiLower
  split
  · next h =>
    obtain ⟨h1, h2⟩ := h
    have hA : ('A' : Char).toNat = 65 := rfl
    have hZ : ('Z' : Char).toNat = 90 := rfl
    have h1' : 65 ≤ c.toNat := by simpa [Char.le_def, UInt32.le_iff_toNat_le, hA] using h1
    have h2' : c.toNat ≤ 90 := by simpa [Char.le_def, UInt32.le_iff_toNat_le, hZ] using h2
    have hn : (Char.ofNat (c.toNat + 32)).toNat = c.toNat + 32 := by
      have hv : (c.toNat + 32).isValidChar := by left; omega
      rw [Char.ofNat, dif_pos hv]
      rfl
    rw [if_neg]
    rintro ⟨-, hle⟩
    have : (Char.ofNat (c.toNat + 32)).toNat ≤ 90 := by
      simpa [Char.le_def, UInt32.le_iff_toNat_le, hZ] using hle
    omega
  · rfl

theorem toAsciiLowercase_idem (s : String) :
    toAsciiLowercase (toAsciiLowercase s) = toAsciiLowercase s := by
  simp only [toAsciiLowercase, String.toList_ofList, List.map_map]
  congr 1
  exact List.map_congr_left fun c _ => asciiLower_idem c

namespace ResponseHeaders

/-- No headers. -/
def new : ResponseHeaders := ⟨[], by simp, by simp⟩

/-- The values of a header, by its name in any ASCII case. -/
def get (headers : ResponseHeaders) (name : String) : Option (List ByteArray) :=
  IndexMap.get headers.entries (toAsciiLowercase name)

/-- Add one value under a name. -/
def append (headers : ResponseHeaders) (name : String) (value : ByteArray) : ResponseHeaders where
  entries :=
    let name := toAsciiLowercase name
    IndexMap.insert headers.entries name
      ((IndexMap.get headers.entries name).getD [] ++ [value])
  nodup := IndexMap.nodup_insert headers.nodup _ _
  lower := by
    intro l hl
    by_cases hmem : toAsciiLowercase name ∈ IndexMap.keys headers.entries
    · rw [IndexMap.keys_insert_of_mem hmem] at hl
      exact headers.lower l hl
    · rw [IndexMap.insert_of_not_mem hmem, IndexMap.keys_append, List.mem_append] at hl
      rcases hl with hl | hl
      · exact headers.lower l hl
      · obtain rfl : l = toAsciiLowercase name := by simpa using hl
        exact toAsciiLowercase_idem name

/-- Appending adds the value at the end of its own header and touches no other. -/
theorem get_append (headers : ResponseHeaders) (name : String) (value : ByteArray)
    (l : String) :
    (headers.append name value).get l =
      if toAsciiLowercase name = toAsciiLowercase l then some ((headers.get l).getD [] ++ [value])
      else headers.get l := by
  rw [get, append, IndexMap.get_insert]
  split
  · next h => rw [h, get]
  · rfl

end ResponseHeaders

/-! ## JSON encoding -/

/-- The nesting limit of the JSON encoder. -/
def maxJsonDepth : Nat := 256

/-- A container with contents may not stand at the limit of nesting. -/
def ensureJsonDepth (depth : Nat) (isEmpty : Bool) : Except HttpError Unit :=
  if !isEmpty && depth ≥ maxJsonDepth then
    .error (.invalidRequest s!"JSON nesting exceeds the {maxJsonDepth}-level limit")
  else .ok ()

mutual

/-- Encode a resolved body as JSON. -/
def toJson : ResolvedValue → Nat → Except HttpError JsonValue
  | .string value, _ => .ok (.string value)
  | .integer value, _ => .ok (.number (.ofI64 value))
  | .unsignedInteger value, _ => .ok (.number (.ofU64 value))
  | .number value, _ =>
    match JsonNumber.fromF64 value with
    | some n => .ok (.number n)
    | none => .error (.invalidRequest "a JSON number must be finite")
  | .boolean value, _ => .ok (.bool value)
  | .null, _ => .ok .null
  | .array items, depth => do
    ensureJsonDepth depth items.isEmpty
    return .array (← toJsonItems items (depth + 1))
  | .object entries, depth => do
    ensureJsonDepth depth entries.isEmpty
    return .object (SortedMap.ofEntries (← toJsonEntries entries (depth + 1)))

/-- The elements of an array, stopping at the first error. -/
def toJsonItems : List ResolvedValue → Nat → Except HttpError (List JsonValue)
  | [], _ => .ok []
  | v :: vs, depth => do
    let j ← toJson v depth
    return j :: (← toJsonItems vs depth)

/-- The entries of an object, stopping at the first error. -/
def toJsonEntries : List (String × ResolvedValue) → Nat →
    Except HttpError (List (String × JsonValue))
  | [], _ => .ok []
  | (name, v) :: es, depth => do
    let j ← toJson v depth
    return (name, j) :: (← toJsonEntries es depth)

end

end Rettp
