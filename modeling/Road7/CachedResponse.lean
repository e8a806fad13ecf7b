import Road7.CacheStore
import Road7.SecurityHeaders

namespace Road7

def insertCorsHeaders (headers : HeaderMap) (cors : Option CorsHeaders) : HeaderMap :=
  match cors with
  | some cors =>
    ((headers.insert allowOriginHeader cors.allowOrigin).insert
      allowHeadersHeader cors.allowHeaders).insert allowMethodsHeader cors.allowMethods
  | none => headers

/-- The response that the hit path and the answer to a 304 both build from an entry. -/
def CacheEntry.toResponse (entry : CacheEntry) (security : Option SecurityHeadersConfig) :
    Except Panic Response := do
  let headers := insertCorsHeaders entry.headers entry.corsHeaders
  let headers ← insertHeader etagHeader entry.etag headers
  let headers ← insertHeader lastModifiedHeader entry.lastModified headers
  let headers ← applySecurityHeaders headers security
  .ok ⟨entry.status, headers, Body.ofBytes entry.response⟩

/-- The CORS headers of an entry are header values already; what is inserted besides them has to
be made one. -/
theorem CacheEntry.toResponse_ok_iff {entry : CacheEntry}
    {security : Option SecurityHeadersConfig} :
    (∃ reply, entry.toResponse security = .ok reply) ↔
      (∀ s, entry.etag = some s → ValidHeader s) ∧
      (∀ s, entry.lastModified = some s → ValidHeader s) ∧
      ∀ c, security = some c → c.Valid := by
  unfold toResponse
  constructor
  · rintro ⟨reply, h⟩
    obtain ⟨h1, hetag, h⟩ := bind_eq_ok.mp h
    obtain ⟨h2, hlast, h⟩ := bind_eq_ok.mp h
    obtain ⟨h3, hsecurity, _⟩ := bind_eq_ok.mp h
    exact ⟨insertHeader_ok_iff.mp ⟨h1, hetag⟩, insertHeader_ok_iff.mp ⟨h2, hlast⟩,
      applySecurityHeaders_ok_iff.mp ⟨h3, hsecurity⟩⟩
  · rintro ⟨hetag, hlast, hsecurity⟩
    obtain ⟨h1, hh1⟩ := (@insertHeader_ok_iff etagHeader _
      (insertCorsHeaders entry.headers entry.corsHeaders)).mpr hetag
    obtain ⟨h2, hh2⟩ := (@insertHeader_ok_iff lastModifiedHeader _ h1).mpr hlast
    obtain ⟨h3, hh3⟩ := (@applySecurityHeaders_ok_iff _ h2).mpr hsecurity
    exact ⟨_, bind_eq_ok.mpr ⟨h1, hh1, bind_eq_ok.mpr ⟨h2, hh2, bind_eq_ok.mpr ⟨h3, hh3, rfl⟩⟩⟩⟩

/-- The CORS headers of an answer from upstream: those of the target, else the default ones. -/
def insertFreshCors (headers : HeaderMap) (corsConfig defaultCorsConfig : Option CorsConfig) :
    Except Panic HeaderMap :=
  match corsConfig <|> defaultCorsConfig with
  | some config =>
    if config.enabled then do
      let headers ← insertHeader allowOriginHeader config.allowOrigin headers
      let headers ← insertHeader allowHeadersHeader config.allowHeaders headers
      insertHeader allowMethodsHeader config.allowMethods headers
    else .ok headers
  | none => .ok headers

end Road7
