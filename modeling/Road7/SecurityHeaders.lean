import Road7.Config
import Road7.Http

namespace Road7

def defaultCsp : Str :=
  ("default-src 'self'; script-src 'self'; object-src 'none'; style-src 'self'; " ++
    "img-src 'self'; frame-ancestors 'none'; base-uri 'self'; form-action 'self'").toList

def defaultXXssProtection : Str := "1; mode=block".toList

def defaultReferrerPolicy : Str := "no-referrer".toList

/-- `insert_header`: nothing where the value is absent. -/
def insertHeader (name : Str) (value : Option Str) (headers : HeaderMap) :
    Except Panic HeaderMap :=
  match value with
  | some value => (headerFromStrUnwrap value).map (headers.insert name)
  | none => .ok headers

def insertHeaderOr (name : Str) (value : Option Str) (default : Str) (headers : HeaderMap) :
    Except Panic HeaderMap :=
  insertHeader name (some (value.getD default)) headers

def applySecurityHeaders (headers : HeaderMap) (config : Option SecurityHeadersConfig) :
    Except Panic HeaderMap :=
  match config with
  | none => .ok headers
  | some config => do
    let headers ← insertHeader "strict-transport-security".toList
      config.strictTransportSecurity headers
    let headers ← insertHeader "x-content-type-options".toList config.xContentTypeOptions headers
    let headers ← insertHeader "x-frame-options".toList config.xFrameOptions headers
    let headers ← insertHeaderOr "content-security-policy".toList
      config.contentSecurityPolicy defaultCsp headers
    let headers ← insertHeaderOr "x-xss-protection".toList
      config.xXssProtection defaultXXssProtection headers
    let headers ← insertHeaderOr "referrer-policy".toList
      config.referrerPolicy defaultReferrerPolicy headers
    let headers ← insertHeader "permissions-policy".toList config.permissionsPolicy headers
    insertHeader "feature-policy".toList config.featurePolicy headers

def securityHeaderNames : List HeaderName :=
  ["strict-transport-security".toList, "x-content-type-options".toList, "x-frame-options".toList,
    "content-security-policy".toList, "x-xss-protection".toList, "referrer-policy".toList,
    "permissions-policy".toList, "feature-policy".toList]

theorem getAll_insertHeader {name n : HeaderName} {value : Option Str}
    {headers headers' : HeaderMap} (h : insertHeader name value headers = .ok headers')
    (hn : n ≠ name) : headers'.getAll n = headers.getAll n := by
  unfold insertHeader at h
  split at h
  next value =>
    obtain ⟨v, _, rfl⟩ := map_eq_ok.mp h
    rw [HeaderMap.getAll_insert, if_neg hn]
  next =>
    cases h
    rfl

/-- A text that makes a header value. -/
def ValidHeader (s : Str) : Prop := ∃ v, headerFromStr s = some v

/-- Whether a header can be inserted does not depend on the headers before it. -/
theorem insertHeader_ok_iff {name : HeaderName} {value : Option Str} {headers : HeaderMap} :
    (∃ headers', insertHeader name value headers = .ok headers') ↔
      ∀ s, value = some s → ValidHeader s := by
  cases value with
  | none => simp [insertHeader]
  | some s =>
    simp only [insertHeader, map_eq_ok, headerFromStrUnwrap, ValidHeader, Option.some.injEq,
      forall_eq']
    cases headerFromStr s <;> simp

/-- The names that security headers are inserted under, one after the other, with their values. -/
def SecurityHeadersConfig.inserts (config : SecurityHeadersConfig) :
    List (HeaderName × Option Str) :=
  [("strict-transport-security".toList, config.strictTransportSecurity),
    ("x-content-type-options".toList, config.xContentTypeOptions),
    ("x-frame-options".toList, config.xFrameOptions),
    ("content-security-policy".toList, some (config.contentSecurityPolicy.getD defaultCsp)),
    ("x-xss-protection".toList, some (config.xXssProtection.getD defaultXXssProtection)),
    ("referrer-policy".toList, some (config.referrerPolicy.getD defaultReferrerPolicy)),
    ("permissions-policy".toList, config.permissionsPolicy),
    ("feature-policy".toList, config.featurePolicy)]

def insertAll (inserts : List (HeaderName × Option Str)) (headers : HeaderMap) :
    Except Panic HeaderMap :=
  inserts.foldlM (fun headers e => insertHeader e.1 e.2 headers) headers

theorem applySecurityHeaders_some (headers : HeaderMap) (config : SecurityHeadersConfig) :
    applySecurityHeaders headers (some config) = insertAll config.inserts headers := by
  simp [applySecurityHeaders, insertAll, SecurityHeadersConfig.inserts, insertHeaderOr]

theorem getAll_insertAll {n : HeaderName} {inserts : List (HeaderName × Option Str)}
    {headers headers' : HeaderMap} (h : insertAll inserts headers = .ok headers')
    (hn : n ∉ inserts.map Prod.fst) : headers'.getAll n = headers.getAll n := by
  induction inserts generalizing headers with
  | nil =>
    cases h
    rfl
  | cons e inserts ih =>
    simp only [List.map_cons, List.mem_cons, not_or] at hn
    obtain ⟨headers1, h1, hrest⟩ := bind_eq_ok.mp h
    rw [ih hrest hn.2, getAll_insertHeader h1 hn.1]

theorem insertAll_ok_iff {inserts : List (HeaderName × Option Str)} {headers : HeaderMap} :
    (∃ headers', insertAll inserts headers = .ok headers') ↔
      ∀ e ∈ inserts, ∀ s, e.2 = some s → ValidHeader s := by
  induction inserts generalizing headers with
  | nil => exact iff_of_true ⟨headers, rfl⟩ (fun _ he => absurd he List.not_mem_nil)
  | cons e inserts ih =>
    rw [List.forall_mem_cons, ← @insertHeader_ok_iff e.1 e.2 headers]
    constructor
    · rintro ⟨headers', h⟩
      obtain ⟨headers1, h1, hrest⟩ := bind_eq_ok.mp h
      exact ⟨⟨headers1, h1⟩, ih.mp ⟨headers', hrest⟩⟩
    · rintro ⟨⟨headers1, h1⟩, hrest⟩
      obtain ⟨headers', h'⟩ := (@ih headers1).mpr hrest
      exact ⟨headers', bind_eq_ok.mpr ⟨headers1, h1, h'⟩⟩

/-- The security headers leave every header of another name alone. -/
theorem getAll_applySecurityHeaders {n : HeaderName} {config : Option SecurityHeadersConfig}
    {headers headers' : HeaderMap} (h : applySecurityHeaders headers config = .ok headers')
    (hn : n ∉ securityHeaderNames) : headers'.getAll n = headers.getAll n := by
  cases config with
  | none =>
    cases h
    rfl
  | some config =>
    rw [applySecurityHeaders_some] at h
    exact getAll_insertAll h hn

/-- Every text that a configuration has inserted makes a header value. -/
def SecurityHeadersConfig.Valid (config : SecurityHeadersConfig) : Prop :=
  ∀ e ∈ config.inserts, ∀ s, e.2 = some s → ValidHeader s

theorem applySecurityHeaders_ok_iff {config : Option SecurityHeadersConfig}
    {headers : HeaderMap} : (∃ headers', applySecurityHeaders headers config = .ok headers') ↔
      ∀ c, config = some c → c.Valid := by
  cases config with
  | none => simp [applySecurityHeaders]
  | some config =>
    rw [applySecurityHeaders_some, insertAll_ok_iff]
    simp [SecurityHeadersConfig.Valid]

end Road7
