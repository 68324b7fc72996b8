import Mathlib.Data.List.DropRight
import Rettp.ExceptRel
import Rettp.Http
import Rettp.Platform

/-!
# The configured origin

The base URL of the HTTP adapter and the resolution of a request path against it.

URLs are parsed and joined by a crate. `UrlCrate` is that crate, and `UrlCrate.Whatwg` is what
is used of it: a text that starts with a slash is no URL of its own, and joining tells three
kinds of references apart (`denoted`). An absolute URL and a network-path reference stand for
a URL of their own; any other reference stays at the origin of the base.

The checks on a path are made before its leading slashes are removed, so they do not see a URL
behind a slash. `resolveUrl_stays_iff` says exactly which paths stay inside; `resolveUrl_slash`
is the general way out.
-/

namespace Rettp

/-! ## URLs -/

/-- A URL in its parts. -/
structure Url where
  scheme : String
  username : String
  password : Option String
  host : Option String
  port : Option Nat
  path : String
  query : Option String
  fragment : Option String
  cannotBeABase : Bool
  deriving DecidableEq

namespace Url

/-- Scheme, host and port are equal. -/
def SameOrigin (u v : Url) : Prop := u.scheme = v.scheme ∧ u.host = v.host ∧ u.port = v.port

instance (u v : Url) : Decidable (SameOrigin u v) := inferInstanceAs (Decidable (_ ∧ _ ∧ _))

/-- The path of the second URL starts with that of the first. -/
def PathUnder (base u : Url) : Prop := base.path.toList <+: u.path.toList

instance (base u : Url) : Decidable (PathUnder base u) :=
  inferInstanceAs (Decidable (_ <+: _))

end Url

/-- The functions of the URL crate that the adapter calls. -/
structure UrlCrate where
  parse : String → Except String Url
  join : Url → String → Except String Url

/-! ## References -/

/-- A character of a scheme, after the first one. -/
def isSchemeChar (c : Char) : Bool := isAsciiAlphanumeric c || c == '+' || c == '-' || c == '.'

/-- The scheme of a text and what follows its colon. -/
def schemeOf (s : List Char) : Option (List Char × List Char) :=
  if s.head?.any isAsciiAlphabetic then
    (splitAtChar ':' s).bind fun (scheme, rest) =>
      if scheme.all isSchemeChar then some (scheme, rest) else none
  else none

/-- A reference without the control characters and spaces around it. -/
def stripReference (s : List Char) : List Char :=
  ((s.dropWhile fun c => c.toNat ≤ 0x20).reverse.dropWhile fun c => c.toNat ≤ 0x20).reverse

/-- The URL that a reference stands for whatever the path of the base: its own when it has a
scheme, and that of another authority when it starts with two slashes. A reference that repeats
the scheme of the base without two slashes after it is relative. -/
def denoted (parse : String → Except String Url) (base : Url) (reference : String) :
    Option (Except String Url) :=
  let s := stripReference reference.toList
  match schemeOf s with
  | some (scheme, rest) =>
    if scheme.map asciiLower = base.scheme.toList ∧ ¬ "//".toList <+: rest then none
    else some (parse reference)
  | none =>
    if "//".toList <+: s then some (parse (base.scheme ++ ":" ++ String.ofList s)) else none

/-- A reference without a backslash or a control character. -/
def PlainReference (reference : String) : Prop :=
  ∀ c ∈ reference.toList, c ≠ '\\' ∧ isControl c = false

/-- What the adapter relies on. -/
structure UrlCrate.Whatwg (crate : UrlCrate) : Prop where
  parse_slash : ∀ s : String, s.toList.head? = some '/' → ∃ e, crate.parse s = .error e
  join_denoted : ∀ (base : Url) (reference : String) (result : Except String Url),
    base.scheme = "http" ∨ base.scheme = "https" → PlainReference reference →
    denoted crate.parse base reference = some result →
    ∀ u, crate.join base reference = .ok u ↔ result = .ok u
  join_path : ∀ (base : Url) (reference : String) (u : Url),
    base.scheme = "http" ∨ base.scheme = "https" → PlainReference reference →
    denoted crate.parse base reference = none → crate.join base reference = .ok u → u.SameOrigin base

/-! ## Configuration -/

/-- A base URL that was accepted. -/
structure HttpClientConfig where
  baseUrl : Url

variable (crate : UrlCrate)

/-- What follows the colon and the two slashes after it. -/
def authorityInput (raw : List Char) : Option (List Char) :=
  (splitAtChar ':' raw).bind fun (_, remainder) =>
    if "//".toList.isPrefixOf remainder then some (remainder.drop 2) else none

/-- Append an empty segment: `path_segments_mut().push("")` on a path without a final slash. -/
def withTrailingSlash (url : Url) : Except HttpError Url :=
  if "/".toList.isSuffixOf url.path.toList then .ok url
  else if url.cannotBeABase then .error (.invalidBaseUrl "the URL cannot be used as a base")
  else .ok { url with path := url.path ++ "/" }

/-- Check a base URL: no blanks or control characters, an HTTP scheme, a host, and neither
credentials nor a query or a fragment. -/
def HttpClientConfig.new (raw : String) : Except HttpError HttpClientConfig :=
  if raw.toList ≠ trim raw.toList ∨ raw.toList.any isControl then
    .error (.invalidBaseUrl "whitespace and control characters are not allowed in the base URL")
  else match crate.parse raw with
  | .error e => .error (.invalidBaseUrl e)
  | .ok baseUrl =>
    if ¬ (baseUrl.scheme = "http" ∨ baseUrl.scheme = "https") then
      .error (.invalidBaseUrl "only http and https schemes are supported")
    else if (authorityInput raw.toList).all fun authority =>
        authority.isEmpty || "/".toList.isPrefixOf authority then
      .error (.invalidBaseUrl "an HTTP base URL must contain an explicit host")
    else if baseUrl.username ≠ "" ∨ baseUrl.password.isSome then
      .error (.invalidBaseUrl "credentials are not allowed in the base URL")
    else if baseUrl.query.isSome then
      .error (.invalidBaseUrl "a query is not allowed in the base URL")
    else if baseUrl.fragment.isSome then
      .error (.invalidBaseUrl "a fragment is not allowed in the base URL")
    else (withTrailingSlash baseUrl).map fun baseUrl => ⟨baseUrl⟩

/-- The checks on a request path, on the path as it is given. -/
def checkPath (path : String) : Except HttpError Unit :=
  if (trim path.toList).isEmpty then
    .error (.invalidRequest "the relative request path cannot be empty")
  else if path.toList ≠ trim path.toList then
    .error (.invalidRequest
      "leading or trailing whitespace is not allowed in the request path")
  else if "//".toList.isPrefixOf path.toList ∨ '\\' ∈ path.toList ∨ (crate.parse path).isOk then
    .error (.invalidRequest "the request path must be relative to the configured base URL")
  else if '?' ∈ path.toList then
    .error (.invalidRequest "request query parameters must use the query collection")
  else if '#' ∈ path.toList then
    .error (.invalidRequest "a fragment is not allowed in the request path")
  else if path.toList.any isControl then
    .error (.invalidRequest "control characters are not allowed in the request path")
  else .ok ()

/-- `trim_start_matches('/')` -/
def relativePath (path : String) : String := String.ofList (path.toList.dropWhile (· = '/'))

/-- The URL of a request: its path is checked, joined to the base URL, and has to stay below it. -/
def resolveUrl (config : HttpClientConfig) (path : String) : Except HttpError Url :=
  match checkPath crate path with
  | .error e => .error e
  | .ok () =>
    match crate.join config.baseUrl (relativePath path) with
    | .error e => .error (.invalidRequest e)
    | .ok resolved =>
      if ¬ config.baseUrl.PathUnder resolved then
        .error (.invalidRequest "the request path cannot escape the configured base path")
      else .ok resolved

/-! ## What the functions do -/

variable {crate} {raw path : String} {config : HttpClientConfig} {u : Url}

/-- A configuration that was built has a base URL that is http or https. -/
theorem HttpClientConfig.new_scheme (h : HttpClientConfig.new crate raw = .ok config) :
    config.baseUrl.scheme = "http" ∨ config.baseUrl.scheme = "https" := by
  rw [HttpClientConfig.new, Except.ite_error_eq_ok] at h
  obtain ⟨-, h⟩ := h
  cases hparse : crate.parse raw with
  | error e =>
    rw [hparse] at h
    cases h
  | ok baseUrl =>
    rw [hparse] at h
    simp only [Except.ite_error_eq_ok, not_not] at h
    obtain ⟨hscheme, -, -, -, -, h⟩ := h
    obtain ⟨url, hurl, rfl⟩ := Except.map_eq_ok.mp h
    unfold withTrailingSlash at hurl
    split at hurl
    · obtain rfl := Except.ok.inj hurl
      exact hscheme
    · rw [Except.ite_error_eq_ok] at hurl
      obtain rfl := Except.ok.inj hurl.2
      exact hscheme

theorem checkPath_eq_ok_iff : checkPath crate path = .ok () ↔
    trim path.toList ≠ [] ∧ path.toList = trim path.toList ∧ ¬ "//".toList <+: path.toList ∧
      '\\' ∉ path.toList ∧ (∀ u, crate.parse path ≠ .ok u) ∧ '?' ∉ path.toList ∧
      '#' ∉ path.toList ∧ ∀ c ∈ path.toList, isControl c = false := by
  have hparse : (crate.parse path).isOk = true ↔ ∃ u, crate.parse path = .ok u := by
    cases crate.parse path <;> simp [Except.isOk, Except.toBool]
  simp only [checkPath, Except.ite_error_eq_ok, hparse, List.isEmpty_iff, not_not, not_or,
    not_exists, List.isPrefixOf_iff_prefix, List.any_eq_true, not_and, Bool.not_eq_true, and_true,
    and_assoc, ne_eq]

theorem resolveUrl_eq_ok_iff : resolveUrl crate config path = .ok u ↔
    checkPath crate path = .ok () ∧ crate.join config.baseUrl (relativePath path) = .ok u ∧
      config.baseUrl.PathUnder u := by
  unfold resolveUrl
  cases checkPath crate path with
  | error e => simp
  | ok =>
    cases crate.join config.baseUrl (relativePath path) with
    | error e => simp
    | ok resolved =>
      simp only [Except.ite_error_eq_ok, not_not, Except.ok.injEq, true_and]
      exact ⟨fun ⟨hunder, he⟩ => ⟨he, he ▸ hunder⟩, fun ⟨he, hunder⟩ => ⟨he ▸ hunder, he⟩⟩

/-- The part of a checked path that is joined is plain. -/
theorem plainReference_relativePath (h : checkPath crate path = .ok ()) :
    PlainReference (relativePath path) := by
  obtain ⟨-, -, -, hback, -, -, -, hcontrol⟩ := checkPath_eq_ok_iff.mp h
  intro c hc
  rw [relativePath, String.toList_ofList] at hc
  have hmem := (List.dropWhile_suffix _).subset hc
  exact ⟨fun he => hback (he ▸ hmem), hcontrol c hmem⟩

/-! ## Staying inside -/

/-- A path stays inside: it is refused by a check, or what is left without its leading slashes
is a plain relative reference, or the URL it stands for is malformed, has the origin of the base
or a path outside that of the base. -/
def StaysInside (crate : UrlCrate) (base : Url) (path : String) : Prop :=
  checkPath crate path ≠ .ok () ∨
    ∀ u, denoted crate.parse base (relativePath path) = some (.ok u) →
      u.SameOrigin base ∨ ¬ base.PathUnder u

/-- **Which paths stay at the configured origin and under the base path.** -/
theorem resolveUrl_stays_iff (hcrate : crate.Whatwg)
    (hconfig : HttpClientConfig.new crate raw = .ok config) (path : String) :
    (∀ u, resolveUrl crate config path = .ok u →
      u.SameOrigin config.baseUrl ∧ config.baseUrl.PathUnder u) ↔
      StaysInside crate config.baseUrl path := by
  have hscheme := HttpClientConfig.new_scheme hconfig
  by_cases hcheck : checkPath crate path = .ok ()
  · have hplain := plainReference_relativePath hcheck
    rw [StaysInside, or_iff_right (not_not.mpr hcheck)]
    refine ⟨?_, ?_⟩
    · intro h u hu
      by_cases hunder : config.baseUrl.PathUnder u
      · have hjoin := (hcrate.join_denoted _ _ _ hscheme hplain hu u).mpr rfl
        exact .inl (h u (resolveUrl_eq_ok_iff.mpr ⟨hcheck, hjoin, hunder⟩)).1
      · exact .inr hunder
    · intro h u hu
      obtain ⟨-, hjoin, hunder⟩ := resolveUrl_eq_ok_iff.mp hu
      refine ⟨?_, hunder⟩
      cases hd : denoted crate.parse config.baseUrl (relativePath path) with
      | none => exact hcrate.join_path _ _ _ hscheme hplain hd hjoin
      | some result =>
        have hresult := (hcrate.join_denoted _ _ _ hscheme hplain hd u).mp hjoin
        rcases h u (by rw [hd, hresult]) with horigin | hout
        · exact horigin
        · exact absurd hunder hout
  · refine iff_of_true ?_ (.inl hcheck)
    -- a path that is refused stays inside because no URL comes of it
    intro u hu
    exact absurd (resolveUrl_eq_ok_iff.mp hu).1 hcheck

/-- **The way out.** A slash in front of a reference hides it from the checks: a URL elsewhere
is reached, as long as its path is under that of the base. -/
theorem resolveUrl_slash (hcrate : crate.Whatwg)
    (hconfig : HttpClientConfig.new crate raw = .ok config) {text : String}
    (hslash : text.toList.head? ≠ some '/')
    (htrim : '/' :: text.toList = trim ('/' :: text.toList)) (hplain : PlainReference text)
    (hquery : '?' ∉ text.toList) (hfragment : '#' ∉ text.toList)
    (hdenoted : denoted crate.parse config.baseUrl text = some (.ok u))
    (hunder : config.baseUrl.PathUnder u) : resolveUrl crate config ("/" ++ text) = .ok u := by
  have hlist : ("/" ++ text).toList = '/' :: text.toList := by rw [String.toList_append]; rfl
  have hrelative : relativePath ("/" ++ text) = text := by
    rw [relativePath, hlist, List.dropWhile_cons_of_pos (by decide)]
    cases htext : text.toList with
    | nil => exact String.toList_inj.mp (by rw [htext]; rfl)
    | cons c rest =>
      have hc : c ≠ '/' := by
        rintro rfl
        rw [htext] at hslash
        exact hslash rfl
      rw [List.dropWhile_cons_of_neg (by simpa using hc), ← htext, String.ofList_toList]
  -- every check looks at the text with the slash, the join at the text without it
  refine resolveUrl_eq_ok_iff.mpr ⟨checkPath_eq_ok_iff.mpr ?_, ?_, hunder⟩
  · rw [hlist, ← htrim]
    refine ⟨List.cons_ne_nil _ _, rfl, ?_, ?_, ?_, ?_, ?_, ?_⟩
    · rintro ⟨rest, hrest⟩
      exact hslash (by rw [← (List.cons.inj hrest).2]; rfl)
    · rw [List.mem_cons, not_or]
      exact ⟨by decide, fun h => (hplain _ h).1 rfl⟩
    · intro u hu
      obtain ⟨e, he⟩ := hcrate.parse_slash ("/" ++ text) (by rw [hlist]; rfl)
      rw [he] at hu
      cases hu
    · rw [List.mem_cons, not_or]
      exact ⟨by decide, hquery⟩
    · rw [List.mem_cons, not_or]
      exact ⟨by decide, hfragment⟩
    · intro c hc
      rcases List.mem_cons.mp hc with rfl | hc
      · rfl
      · exact (hplain c hc).2
  · rw [hrelative]
    exact (hcrate.join_denoted _ _ _ (HttpClientConfig.new_scheme hconfig) hplain hdenoted u).mpr rfl

/-! ## A small crate -/

/-- Parsing of plain http and https URLs: a host without port or credentials, and a path without
query, fragment or dot segments. -/
def plainParse (text : String) : Except String Url :=
  match schemeOf (stripReference text.toList) with
  | none => .error "relative URL without a base"
  | some (scheme, rest) =>
    let scheme := String.ofList (scheme.map asciiLower)
    let rest := rest.dropWhile (· = '/')
    let host := rest.takeWhile (· ≠ '/')
    let path := rest.dropWhile (· ≠ '/')
    if ¬ (scheme = "http" ∨ scheme = "https") then .error "unsupported scheme"
    else if host.isEmpty then .error "empty host"
    else .ok ⟨scheme, "", none, some (String.ofList host), none,
      if path.isEmpty then "/" else String.ofList path, none, none, false⟩

/-- References are joined as by the small parser. -/
def plainJoin (base : Url) (reference : String) : Except String Url :=
  match denoted plainParse base reference with
  | some result => result
  | none =>
    let path := String.ofList (stripReference reference.toList)
    .ok { base with path := if "/".toList.isPrefixOf path.toList then path else base.path ++ path }

/-- A small parser in the place of the crate. -/
def plainCrate : UrlCrate := ⟨plainParse, plainJoin⟩

theorem stripReference_prefix {s : List Char} (h : s.head? = some '/') :
    stripReference s <+: s := by
  cases s with
  | nil => cases h
  | cons c s =>
    obtain rfl : c = '/' := Option.some.inj h
    rw [stripReference, List.dropWhile_cons_of_neg (by decide)]
    exact List.rdropWhile_prefix _ _

theorem plainCrate_whatwg : plainCrate.Whatwg where
  parse_slash := by
    intro s hs
    have hscheme : schemeOf (stripReference s.toList) = none := by
      have hany : (stripReference s.toList).head?.any isAsciiAlphabetic = false := by
        obtain ⟨rest, hrest⟩ := stripReference_prefix hs
        cases hstrip : stripReference s.toList with
        | nil => rfl
        | cons c t =>
          rw [hstrip] at hrest
          rw [← hrest] at hs
          obtain rfl : c = '/' := Option.some.inj hs
          rfl
      rw [schemeOf, hany]
      rfl
    exact ⟨_, by rw [show plainCrate.parse s = plainParse s from rfl, plainParse, hscheme]⟩
  join_denoted := by
    intro base reference result _ _ hdenoted u
    have hjoin : plainJoin base reference = result := by
      rw [plainJoin, show denoted plainParse base reference = some result from hdenoted]
    rw [show plainCrate.join base reference = plainJoin base reference from rfl, hjoin]
  join_path := by
    intro base reference u _ _ hdenoted hjoin
    rw [show plainCrate.join base reference = plainJoin base reference from rfl, plainJoin,
      show denoted plainParse base reference = none from hdenoted] at hjoin
    obtain rfl := Except.ok.inj hjoin
    exact ⟨rfl, rfl, rfl⟩

/-- `https://service.test/` -/
def serviceUrl : Url := ⟨"https", "", none, some "service.test", none, "/", none, none, false⟩

/-- A path below the root of the base, with an http URL behind its slash. -/
theorem resolveUrl_leaves_origin :
    plainCrate.Whatwg ∧
      HttpClientConfig.new plainCrate "https://service.test/" = .ok ⟨serviceUrl⟩ ∧
      ¬ ∀ u, resolveUrl plainCrate ⟨serviceUrl⟩ "/http://evil.test/" = .ok u →
        u.SameOrigin serviceUrl ∧ serviceUrl.PathUnder u := by
  refine ⟨plainCrate_whatwg, by rfl, ?_⟩
  intro h
  have hrun : resolveUrl plainCrate ⟨serviceUrl⟩ "/http://evil.test/" =
      .ok ⟨"http", "", none, some "evil.test", none, "/", none, none, false⟩ := by rfl
  exact absurd (h _ hrun).1 (by decide)

/-- A path below the base. -/
theorem resolveUrl_stays_users :
    (∀ u, resolveUrl plainCrate ⟨serviceUrl⟩ "/users" = .ok u →
      u.SameOrigin serviceUrl ∧ serviceUrl.PathUnder u) ↔
      StaysInside plainCrate serviceUrl "/users" :=
  resolveUrl_stays_iff plainCrate_whatwg
    (by rfl : HttpClientConfig.new plainCrate "https://service.test" = .ok ⟨serviceUrl⟩) "/users"

end Rettp
