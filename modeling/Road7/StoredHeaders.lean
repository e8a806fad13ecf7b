import Road7.AsciiText
import Road7.ReadThrough

namespace Road7

/-- The header is absent, or the value that `get` finds is visible ASCII. -/
def HeaderMap.TextOrAbsent (headers : HeaderMap) (name : HeaderName) : Prop :=
  ∀ v, headers.get name = some v → ∀ b ∈ v, isVisibleAscii b = true

/-- The tag and the time of the last change are text, where a response has them. -/
def Response.TagsAreText (resp : Response) : Prop :=
  resp.headers.TextOrAbsent etagHeader ∧ resp.headers.TextOrAbsent lastModifiedHeader

/-- Every value that a CORS configuration has makes a header value. -/
def CorsConfig.Valid (config : CorsConfig) : Prop :=
  ∀ f ∈ corsFields, ∀ s, f.value config = some s → ValidHeader s

theorem headerToStrUnwrap_ok_iff {v : HeaderValue} :
    (∃ s, headerToStrUnwrap v = .ok s) ↔ ∀ b ∈ v, isVisibleAscii b = true := by
  constructor
  · rintro ⟨s, h⟩
    unfold headerToStrUnwrap at h
    cases hv : headerToStr v with
    | none => simp [hv] at h
    | some s' => exact visible_of_headerToStr hv
  · intro hvisible
    have hall : v.all isVisibleAscii = true := List.all_eq_true.mpr hvisible
    rw [headerToStrUnwrap, headerToStr, if_pos hall]
    exact ⟨_, rfl⟩

theorem headerFromStrUnwrap_of_valid {s : Str} (h : ValidHeader s) :
    ∃ v, headerFromStrUnwrap s = .ok v := by
  obtain ⟨v, hv⟩ := h
  exact ⟨v, by rw [headerFromStrUnwrap, hv]⟩

theorem corsFields_fallback_valid : ∀ f ∈ corsFields, ValidHeader f.fallback :=
  corsFields_cases.mpr ⟨⟨_, rfl⟩, ⟨_, rfl⟩, ⟨_, rfl⟩⟩

theorem storedCors_of_valid {target : Option CorsConfig}
    (h : ∀ config, target = some config → config.Valid) : ∃ cors, storedCors target = .ok cors := by
  cases target with
  | none => exact ⟨none, rfl⟩
  | some config =>
    have hfield : ∀ f ∈ corsFields,
        ∃ v, headerFromStrUnwrap ((f.value config).getD f.fallback) = .ok v := by
      intro f hf
      refine headerFromStrUnwrap_of_valid ?_
      cases hvalue : f.value config with
      | none => exact corsFields_fallback_valid f hf
      | some s => exact h config rfl f hf s hvalue
    obtain ⟨⟨allowOrigin, ho⟩, ⟨allowHeaders, hh⟩, ⟨allowMethods, hm⟩⟩ := corsFields_cases.mp hfield
    exact ⟨_, bind_eq_ok.mpr ⟨allowOrigin, ho, bind_eq_ok.mpr ⟨allowHeaders, hh,
      bind_eq_ok.mpr ⟨allowMethods, hm, rfl⟩⟩⟩⟩

theorem storedEtag_ok_iff {md5 : Bytes → Str} {headers : HeaderMap} {bytes : Bytes} :
    (∃ etag, storedEtag md5 headers bytes = .ok etag) ↔ headers.TextOrAbsent etagHeader := by
  unfold storedEtag HeaderMap.TextOrAbsent
  cases headers.get etagHeader with
  | none => simp
  | some v => simp [headerToStrUnwrap_ok_iff]

theorem storedLastModified_ok_iff {headers : HeaderMap} :
    (∃ lastModified, storedLastModified headers = .ok lastModified) ↔
      headers.TextOrAbsent lastModifiedHeader := by
  unfold storedLastModified HeaderMap.TextOrAbsent
  cases headers.get lastModifiedHeader with
  | none => simp
  | some v =>
    simp only [Option.some.injEq, forall_eq', ← headerToStrUnwrap_ok_iff, map_eq_ok]
    exact ⟨fun ⟨_, s, hs, _⟩ => ⟨s, hs⟩, fun ⟨s, hs⟩ => ⟨_, s, hs, rfl⟩⟩

/-- Of the headers of a response only the tag and the time of the last change have to be text. -/
theorem storedEntry_ok_iff {md5 : Bytes → Str} {now : Nat} {response : Response}
    {target : Option CorsConfig} (hcors : ∀ config, target = some config → config.Valid) :
    (∃ entry, storedEntry md5 now response target = .ok entry) ↔ response.TagsAreText := by
  obtain ⟨cors, hcors⟩ := storedCors_of_valid hcors
  rw [Response.TagsAreText, ← storedLastModified_ok_iff, ← @storedEtag_ok_iff md5 _ []]
  constructor
  · rintro ⟨entry, h⟩
    obtain ⟨_, _, ⟨etag, hetag, _⟩, hlast, _⟩ := storedEntry_ok h
    exact ⟨⟨etag, hetag⟩, ⟨_, hlast⟩⟩
  · rintro ⟨⟨etag, hetag⟩, ⟨lastModified, hlast⟩⟩
    unfold storedEntry
    rw [fromResponse_eq]
    exact ⟨_, map_eq_ok.mpr ⟨_, bind_eq_ok.mpr ⟨cors, hcors, bind_eq_ok.mpr ⟨etag, hetag,
      bind_eq_ok.mpr ⟨lastModified, hlast, rfl⟩⟩⟩, rfl⟩⟩

/-- Whenever a lookup on the hit path or for a 304 finds the entry, the answer is this one. -/
structure CacheEntry.RepliedAs (entry : CacheEntry) (security : Option SecurityHeadersConfig)
    (reply : Response) : Prop where
  hit : ∀ (proxy : Proxy) (env : Surroundings) (selected : Selected) (url cacheKey : Str)
    (req : Request) (first : CacheEntry), proxy.securityHeadersConfig = security →
      selected.cacheConfig.isSome = true →
      findCached env.hitCaches cacheKey cacheKey env.hitNow = .hit first →
      findCached env.varyCaches cacheKey (proxy.key url req first.varyHeaders) env.varyNow =
        .hit entry →
      proxy.serveFromCache env selected url cacheKey req = .ended (.cached reply)
  notModified : ∀ (ctx : LoopContext) (s : LoopState) (r : Round),
      ctx.securityHeadersConfig = security →
      findCached r.caches ctx.cacheKey ctx.cacheKey r.now = .hit entry →
      ctx.replay s r = .ended (.cached reply)

theorem CacheEntry.repliedAs_of_toResponse {entry : CacheEntry}
    {security : Option SecurityHeadersConfig} {reply : Response}
    (h : entry.toResponse security = .ok reply) : entry.RepliedAs security reply where
  hit := by
    rintro proxy env selected url cacheKey req first rfl hconfig hfirst hfound
    exact Proxy.serveFromCache_cached.mpr ⟨hconfig, first, entry, hfirst, hfound, h⟩
  notModified := by
    rintro ctx s r rfl hfound
    simp only [LoopContext.replay, hfound]
    exact Progress.endWith_cached.mpr h

/-- However the requests of several clients follow one another, an answer can be made of every
entry that the caches come to hold. -/
theorem CacheClients.entries_replied {proxy : Proxy} {ok : CacheClients → CacheEvent → Prop}
    {es : List CacheEvent} {now : Nat} {c : CacheClients}
    (hrun : Run (CacheClients.step proxy) ok (CacheClients.idle now) es c)
    (hmd5 : ∀ bytes, HexDigits (proxy.crates.md5 bytes))
    (hsecurity : ∀ config, proxy.securityHeadersConfig = some config → config.Valid)
    {K k : Str} {entry : CacheEntry} (hentry : c.caches.entryAt K k = some entry) :
    ∃ reply, entry.RepliedAs proxy.securityHeadersConfig reply := by
  have hsound := sound_run hrun
  obtain ⟨_, x, hx, rfl⟩ := hsound.entries hentry
  obtain ⟨headers, hheaders⟩ := (@applySecurityHeaders_ok_iff _ []).mpr hsecurity
  obtain ⟨reply, hreply⟩ := toResponse_of_sound
    (hsound.exchanges x (mem_of_lastStored hx).1) hmd5 hheaders
  exact ⟨reply, CacheEntry.repliedAs_of_toResponse hreply⟩

/-- A response of the upstream is stored without a panic, and so is every answer made from the
entry that is filed for it. -/
def LoopContext.StoresAndReplays (ctx : LoopContext) (s : LoopState) (targetUrl : Str)
    (resp : Response) (r : Round) : Prop :=
  ∃ kept caches entry reply,
    ctx.store s targetUrl (resp.applyTransforms ctx.selected.responseTransforms) r =
      (.ok kept, caches) ∧
    caches.entryAt
      (createCacheKey ctx.crates.hashers.defaultHash targetUrl s.originalReq entry.varyHeaders)
      (createCacheKey ctx.crates.hashers.defaultHash targetUrl s.originalReq entry.varyHeaders) =
        some entry ∧
    entry.toResponse ctx.securityHeadersConfig = .ok reply ∧
    entry.RepliedAs ctx.securityHeadersConfig reply

/-- An entry put for the response expires at an `Instant`, by the `ttl` of the cache that it is put
into. -/
def LoopContext.FilesInTime (ctx : LoopContext) (s : LoopState) (targetUrl : Str)
    (resp : Response) (r : Round) : Prop :=
  ∀ config, ctx.selected.cacheConfig = some config →
    r.now + (r.caches.cacheFor config (createCacheKey ctx.crates.hashers.defaultHash targetUrl
      s.originalReq resp.vary)).ttl < instantEnd

/-- The unwraps on what the upstream has sent succeed exactly for a tag and a time of the last
change in visible ASCII; `put` needs a time at which the entry expires, and the answers from the
entry need valid security headers besides. -/
theorem stores_and_replays_iff {ctx : LoopContext} {s : LoopState} {targetUrl : Str}
    {resp : Response} {r : Round} (hcache : ctx.selected.cacheConfig.isSome = true)
    (hcors : ∀ config, ctx.selected.corsConfig = some config → config.Valid)
    (hmd5 : ∀ bytes, HexDigits (ctx.crates.md5 bytes)) :
    ctx.StoresAndReplays s targetUrl resp r ↔
      (resp.applyTransforms ctx.selected.responseTransforms).TagsAreText ∧
      ctx.FilesInTime s targetUrl (resp.applyTransforms ctx.selected.responseTransforms) r ∧
      ∀ config, ctx.securityHeadersConfig = some config → config.Valid := by
  obtain ⟨config, hconfig⟩ := Option.isSome_iff_exists.mp hcache
  unfold LoopContext.StoresAndReplays
  generalize resp.applyTransforms ctx.selected.responseTransforms = response
  have hstore := ctx.store_eq s targetUrl response r
  rw [hconfig] at hstore
  dsimp only at hstore
  rw [← @storedEntry_ok_iff ctx.crates.md5 r.now response _ hcors]
  constructor
  · rintro ⟨kept, caches, entry, reply, hstored, _, hreply, _⟩
    rw [hstore] at hstored
    cases hmade : storedEntry ctx.crates.md5 r.now response ctx.selected.corsConfig with
    | error p =>
      rw [hmade] at hstored
      cases hstored
    | ok made =>
      rw [hmade] at hstored
      refine ⟨⟨made, rfl⟩, ?_, (CacheEntry.toResponse_ok_iff.mp ⟨reply, hreply⟩).2.2⟩
      rintro config' hconfig'
      cases hconfig.symm.trans hconfig'
      rw [← storedEntry_vary hmade]
      refine Nat.lt_of_not_le fun hlate => ?_
      simp only [Caches.store_of_le hlate] at hstored
      cases hstored
  · rintro ⟨⟨made, hmade⟩, hintime, hsecurity⟩
    obtain ⟨hetag, hlast⟩ := storedEntry_valid hmd5 hmade
    have hnow := hintime config hconfig
    rw [← storedEntry_vary hmade] at hnow
    simp only [hmade, Caches.store_of_lt hnow] at hstore
    obtain ⟨reply, hreply⟩ := (@CacheEntry.toResponse_ok_iff
      ((r.caches.cacheFor config (createCacheKey ctx.crates.hashers.defaultHash targetUrl
        s.originalReq made.varyHeaders)).filed ctx.crates.toVec made r.now)
      ctx.securityHeadersConfig).mpr ⟨hetag, hlast, hsecurity⟩
    refine ⟨_, _, _, reply, hstore, ?_, hreply, CacheEntry.repliedAs_of_toResponse hreply⟩
    exact (Caches.entryAt_afterStore _ _ _ _ _ _).trans (if_pos ⟨rfl, rfl⟩)

theorem stores_and_replays_iff_tagged : ∃ proxy : Proxy, ∃ env : Surroundings, ∃ ctx req,
    Proxy.ofConfig hashingCrates (cachingConfig ["http://localhost:5001".toList]) = .ok proxy ∧
    env.targetOrder = proxy.targetMap.entries ∧
    proxy.begin env (getRequest "/api/users".toList []) = .going (ctx, LoopState.start req) ∧
    ctx.StoresAndReplays (LoopState.start req) "http://localhost:5001".toList
      (textResponse [(etagHeader, utf8 "v1".toList)] "hello") (env.rounds 0) := by
  refine ⟨_, plainSurroundings _ (fun _ => plainRound (.response
    (textResponse [(etagHeader, utf8 "v1".toList)] "hello"))), _, _, rfl, rfl, rfl, ?_⟩
  refine (stores_and_replays_iff ?_ ?_ ?_).mpr ⟨⟨?_, ?_⟩, ?_, ?_⟩
  · rfl
  · exact fun _ hcors => nomatch hcors
  · exact fun _ => rfl
  · rintro v hv
    cases hv
    exact List.all_eq_true.mp rfl
  · exact fun _ hv => nomatch hv
  · rintro config hconfig
    cases hconfig
    exact of_decide_eq_true rfl
  · exact fun _ hsecurity => nomatch hsecurity

/-- A tag in Latin-1, of which the `http` crate makes a header value: the request that its response
answers ends in a panic. -/
theorem latin1_tag_panics : ∃ proxy : Proxy, ∃ env : Surroundings, ∃ ctx req,
    Proxy.ofConfig hashingCrates (cachingConfig ["http://localhost:5001".toList]) = .ok proxy ∧
    env.targetOrder = proxy.targetMap.entries ∧
    proxy.begin env (getRequest "/api/users".toList []) = .going (ctx, LoopState.start req) ∧
    ctx.selected.cacheConfig.isSome = true ∧ ctx.selected.corsConfig = none ∧
    (ctx.turn (LoopState.start req) (env.rounds 0)).next = .ended (.panicked .headerNotText) ∧
    ¬ctx.StoresAndReplays (LoopState.start req) "http://localhost:5001".toList
      (textResponse [(etagHeader, [0x22, 0xe9, 0x22])] "hello") (env.rounds 0) := by
  refine ⟨_, plainSurroundings _ (fun _ => plainRound (.response
    (textResponse [(etagHeader, [0x22, 0xe9, 0x22])] "hello"))), _, _, rfl, rfl, rfl, rfl, rfl,
    rfl, ?_⟩
  rintro ⟨kept, caches, entry, reply, hstored, _⟩
  cases hstored

end Road7
