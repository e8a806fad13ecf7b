import Road7.CacheAge
import Road7.EntityTags

namespace Road7

/-- The headers that an entry writes over those of the upstream, besides the security headers,
which the fresh path writes too. -/
def replacedNames : List HeaderName :=
  corsFields.map CorsField.name ++ [etagHeader, lastModifiedHeader]

/-- A client cannot tell the responses apart. -/
structure SameReply (resp resp' : Response) : Prop where
  status : resp.status = resp'.status
  headers : ∀ name, resp.headers.getAll name = resp'.headers.getAll name
  body : resp.body = resp'.body

/-- A header comes to the same values wherever it has the same values before. -/
theorem getAll_insertHeader_congr {name n : HeaderName} {value : Option Str}
    {a a' b b' : HeaderMap} (ha : insertHeader name value a = .ok a')
    (hb : insertHeader name value b = .ok b') (h : a.getAll n = b.getAll n) :
    a'.getAll n = b'.getAll n := by
  by_cases hn : n = name
  · subst hn
    rw [getAll_insertHeader_self ha, getAll_insertHeader_self hb, h]
  · rw [getAll_insertHeader ha hn, getAll_insertHeader hb hn, h]

theorem getAll_insertAll_congr {n : HeaderName} {inserts : List (HeaderName × Option Str)}
    {a a' b b' : HeaderMap} (ha : insertAll inserts a = .ok a') (hb : insertAll inserts b = .ok b')
    (h : a.getAll n = b.getAll n) : a'.getAll n = b'.getAll n := by
  induction inserts generalizing a b with
  | nil =>
    cases ha
    cases hb
    exact h
  | cons e inserts ih =>
    obtain ⟨a1, ha1, ha⟩ := bind_eq_ok.mp ha
    obtain ⟨b1, hb1, hb⟩ := bind_eq_ok.mp hb
    exact ih ha hb (getAll_insertHeader_congr ha1 hb1 h)

theorem getAll_applySecurityHeaders_congr {n : HeaderName} {config : Option SecurityHeadersConfig}
    {a a' b b' : HeaderMap} (ha : applySecurityHeaders a config = .ok a')
    (hb : applySecurityHeaders b config = .ok b') (h : a.getAll n = b.getAll n) :
    a'.getAll n = b'.getAll n := by
  cases config with
  | none =>
    cases ha
    cases hb
    exact h
  | some config =>
    rw [applySecurityHeaders_some] at ha hb
    exact getAll_insertAll_congr ha hb h

theorem getAll_insertCorsHeaders_of_not_mem {n : HeaderName}
    (hn : n ∉ corsFields.map CorsField.name) (headers : HeaderMap) (cors : Option CorsHeaders) :
    (insertCorsHeaders headers cors).getAll n = headers.getAll n := by
  simp only [corsFields, List.map_cons, List.map_nil, List.mem_cons, List.not_mem_nil, or_false,
    not_or] at hn
  cases cors with
  | none => rfl
  | some cors => simp [insertCorsHeaders, HeaderMap.getAll_insert, hn]

theorem getAll_insertFreshCors_of_not_mem {n : HeaderName}
    (hn : n ∉ corsFields.map CorsField.name) {target default : Option CorsConfig}
    {headers headers' : HeaderMap} (h : insertFreshCors headers target default = .ok headers') :
    headers'.getAll n = headers.getAll n := by
  simp only [corsFields, List.map_cons, List.map_nil, List.mem_cons, List.not_mem_nil, or_false,
    not_or] at hn
  unfold insertFreshCors at h
  split at h
  next config _ =>
    split at h
    next =>
      obtain ⟨h1, ho, h⟩ := bind_eq_ok.mp h
      obtain ⟨h2, hh, hm⟩ := bind_eq_ok.mp h
      rw [getAll_insertHeader hm hn.2.2, getAll_insertHeader hh hn.2.1,
        getAll_insertHeader ho hn.1]
    next =>
      cases h
      rfl
  next =>
    cases h
    rfl

theorem tagNames_not_cors : etagHeader ∉ corsFields.map CorsField.name ∧
    lastModifiedHeader ∉ corsFields.map CorsField.name := by decide

/-- What an entry has for a header that it does not write over is what the upstream has sent. -/
theorem CacheEntry.toResponse_parts {entry : CacheEntry} {security : Option SecurityHeadersConfig}
    {resp : Response} (h : entry.toResponse security = .ok resp) :
    resp.status = entry.status ∧ resp.body = Body.ofBytes entry.response ∧
      ∃ headers, applySecurityHeaders headers security = .ok resp.headers ∧
        (∀ name, name ∉ replacedNames → headers.getAll name = entry.headers.getAll name) ∧
        headers.getAll etagHeader =
          entry.etag.elim (entry.headers.getAll etagHeader) (fun v => [utf8 v]) ∧
        headers.getAll lastModifiedHeader =
          entry.lastModified.elim (entry.headers.getAll lastModifiedHeader)
            (fun v => [utf8 v]) := by
  have hne : etagHeader ≠ lastModifiedHeader := by decide
  obtain ⟨h1, he, h⟩ := bind_eq_ok.mp h
  obtain ⟨h2, hl, h⟩ := bind_eq_ok.mp h
  obtain ⟨h3, hs, h⟩ := bind_eq_ok.mp h
  cases h
  refine ⟨rfl, rfl, h2, hs, fun name hname => ?_, ?_, ?_⟩
  · simp only [replacedNames, List.mem_append, List.mem_cons, List.not_mem_nil, or_false,
      not_or] at hname
    rw [getAll_insertHeader hl hname.2.2, getAll_insertHeader he hname.2.1,
      getAll_insertCorsHeaders_of_not_mem hname.1]
  · rw [getAll_insertHeader hl hne, getAll_insertHeader_self he,
      getAll_insertCorsHeaders_of_not_mem tagNames_not_cors.1]
  · rw [getAll_insertHeader_self hl, getAll_insertHeader he hne.symm,
      getAll_insertCorsHeaders_of_not_mem tagNames_not_cors.2]

theorem Exchange.fresh_parts {proxy : Proxy} {x : Exchange} {fresh : Response}
    (h : x.fresh proxy = .ok fresh) :
    fresh.status = x.response.status ∧ fresh.body = Body.ofBytes x.body ∧
      ∃ headers, applySecurityHeaders headers proxy.securityHeadersConfig = .ok fresh.headers ∧
        ∀ name, name ∉ corsFields.map CorsField.name →
          headers.getAll name = x.response.headers.getAll name := by
  obtain ⟨h1, hcors, h⟩ := bind_eq_ok.mp h
  obtain ⟨h2, hs, h⟩ := bind_eq_ok.mp h
  cases h
  exact ⟨rfl, rfl, h1, hs, fun name hname => getAll_insertFreshCors_of_not_mem hname hcors⟩

theorem storedEntry_status {md5 : Bytes → Str} {now : Nat} {response : Response}
    {corsConfig : Option CorsConfig} {entry : CacheEntry}
    (h : storedEntry md5 now response corsConfig = .ok entry) : entry.status = response.status := by
  unfold storedEntry at h
  rw [fromResponse_eq] at h
  obtain ⟨made, hmade, rfl⟩ := map_eq_ok.mp h
  obtain ⟨_, _, hmade⟩ := bind_eq_ok.mp hmade
  obtain ⟨_, _, hmade⟩ := bind_eq_ok.mp hmade
  obtain ⟨_, _, hmade⟩ := bind_eq_ok.mp hmade
  cases hmade
  rfl

theorem utf8_of_headerToStrUnwrap {v : HeaderValue} {s : Str} (h : headerToStrUnwrap v = .ok s) :
    utf8 s = v := by
  unfold headerToStrUnwrap at h
  cases hv : headerToStr v with
  | none => simp [hv] at h
  | some s' =>
    simp only [hv, Option.elim_some, Except.ok.injEq] at h
    exact h ▸ utf8_of_headerToStr hv

theorem eq_singleton_of_head {α : Type} {l : List α} {v : α} (h : l.head? = some v) :
    [v] = l ↔ l.length = 1 := by
  cases l with
  | nil => simp at h
  | cons a l =>
    cases h
    simp [List.length_eq_zero_iff, eq_comm]

/-- The one tag that an entry keeps is what the upstream has sent when that was one tag. -/
theorem storedEtag_same_iff {md5 : Bytes → Str} {headers : HeaderMap} {bytes : Bytes} {etag : Str}
    (h : storedEtag md5 headers bytes = .ok etag) :
    [utf8 etag] = headers.getAll etagHeader ↔ (headers.getAll etagHeader).length = 1 := by
  unfold storedEtag at h
  rw [HeaderMap.get_eq_head?] at h
  split at h
  next v hv =>
    rw [utf8_of_headerToStrUnwrap h]
    exact eq_singleton_of_head hv
  next hnone =>
    rw [List.head?_eq_none_iff.mp hnone]
    simp

theorem storedLastModified_same_iff {headers : HeaderMap} {lastModified : Option Str}
    (h : storedLastModified headers = .ok lastModified) :
    lastModified.elim (headers.getAll lastModifiedHeader) (fun v => [utf8 v]) =
        headers.getAll lastModifiedHeader ↔ (headers.getAll lastModifiedHeader).length ≤ 1 := by
  unfold storedLastModified at h
  rw [HeaderMap.get_eq_head?] at h
  split at h
  next v hv =>
    obtain ⟨s, hs, rfl⟩ := map_eq_ok.mp h
    rw [Option.elim_some, utf8_of_headerToStrUnwrap hs, eq_singleton_of_head hv]
    have hne : headers.getAll lastModifiedHeader ≠ [] := by
      rintro hnil
      simp [hnil] at hv
    have hpos := List.length_pos_iff.mpr hne
    omega
  next hnone =>
    cases h
    rw [List.head?_eq_none_iff.mp hnone]
    simp

/-- The body is filed as it is: the cache does not serialize, or serializing changes nothing. -/
def Exchange.KeepsBody (toVec : Bytes → Option Bytes) (config : CacheConfig) (x : Exchange) :
    Prop :=
  config.serialize = true → ∀ bytes, toVec x.body = some bytes → bytes = x.body

theorem filed_response_same_iff {toVec : Bytes → Option Bytes} {config : CacheConfig}
    {x : Exchange} (hbody : x.entry.response = x.body) :
    ((Cache.new config).filed toVec x.entry x.now).response = x.body ↔
      x.KeepsBody toVec config := by
  have hserialize : (Cache.new config).serialize = config.serialize := rfl
  unfold Exchange.KeepsBody Cache.filed
  dsimp only
  rw [hserialize, hbody]
  cases config.serialize with
  | false => simp
  | true =>
    cases toVec x.body with
    | none => simp
    | some bytes => simp

/-- The exchanges whose response comes out of the cache as it went to the first client. -/
structure Exchange.Repeats (proxy : Proxy) (config : CacheConfig) (x : Exchange) : Prop where
  cors : CorsAgrees x.selected.corsConfig proxy.defaultCorsConfig x.response.headers
  etag : (x.response.headers.getAll etagHeader).length = 1
  lastModified : (x.response.headers.getAll lastModifiedHeader).length ≤ 1
  body : x.KeepsBody proxy.crates.toVec config

section Replay

variable {proxy : Proxy} {config : CacheConfig} {x : Exchange} {resp fresh : Response}

theorem replay_other_headers (h : x.Sound proxy)
    (hresp : x.filed.toResponse proxy.securityHeadersConfig = .ok resp)
    (hfresh : x.fresh proxy = .ok fresh) : resp.status = fresh.status ∧
      ∀ name, name ∉ replacedNames → resp.headers.getAll name = fresh.headers.getAll name := by
  obtain ⟨_, hentry, cache, hfiled⟩ := h
  obtain ⟨hstatus, _, headers, hs, hothers, _, _⟩ := CacheEntry.toResponse_parts hresp
  obtain ⟨hstatus', _, headers', hs', hothers'⟩ := Exchange.fresh_parts hfresh
  have hheaders : x.filed.headers = x.response.headers := by
    rw [hfiled]
    exact (storedEntry_ok hentry).1
  constructor
  · have hsame : x.entry.status = x.response.status := storedEntry_status hentry
    rw [hstatus, hstatus', hfiled]
    exact hsame
  · intro name hname
    have hcors : name ∉ corsFields.map CorsField.name :=
      fun hmem => hname (List.mem_append_left _ hmem)
    refine getAll_applySecurityHeaders_congr hs hs' ?_
    rw [hothers name hname, hothers' name hcors, hheaders]

theorem replay_etag_iff (h : x.Sound proxy)
    (hresp : x.filed.toResponse proxy.securityHeadersConfig = .ok resp)
    (hfresh : x.fresh proxy = .ok fresh) :
    resp.headers.getAll etagHeader = fresh.headers.getAll etagHeader ↔
      (x.response.headers.getAll etagHeader).length = 1 := by
  obtain ⟨_, hentry, cache, hfiled⟩ := h
  obtain ⟨_, _, headers, hs, _, hetag, _⟩ := CacheEntry.toResponse_parts hresp
  obtain ⟨_, _, headers', hs', hothers⟩ := Exchange.fresh_parts hfresh
  obtain ⟨_, _, ⟨etag, hstored, hsome⟩, _⟩ := storedEntry_ok hentry
  have hname : etagHeader ∉ securityHeaderNames := by decide
  have hkept : x.filed.etag = some etag := by
    rw [hfiled]
    exact hsome
  rw [getAll_applySecurityHeaders hs hname, getAll_applySecurityHeaders hs' hname, hetag, hkept,
    hothers _ tagNames_not_cors.1]
  exact storedEtag_same_iff hstored

theorem replay_lastModified_iff (h : x.Sound proxy)
    (hresp : x.filed.toResponse proxy.securityHeadersConfig = .ok resp)
    (hfresh : x.fresh proxy = .ok fresh) :
    resp.headers.getAll lastModifiedHeader = fresh.headers.getAll lastModifiedHeader ↔
      (x.response.headers.getAll lastModifiedHeader).length ≤ 1 := by
  obtain ⟨_, hentry, cache, hfiled⟩ := h
  obtain ⟨_, _, headers, hs, _, _, hlast⟩ := CacheEntry.toResponse_parts hresp
  obtain ⟨_, _, headers', hs', hothers⟩ := Exchange.fresh_parts hfresh
  obtain ⟨hheaders, _, _, hstored, _⟩ := storedEntry_ok hentry
  have hname : lastModifiedHeader ∉ securityHeaderNames := by decide
  have hkept : x.filed.lastModified = x.entry.lastModified ∧
      x.filed.headers = x.response.headers := by
    rw [hfiled]
    exact ⟨rfl, hheaders⟩
  rw [getAll_applySecurityHeaders hs hname, getAll_applySecurityHeaders hs' hname, hlast, hkept.1,
    hkept.2, hothers _ tagNames_not_cors.2]
  exact storedLastModified_same_iff hstored

theorem replay_body_iff (h : x.Sound proxy)
    (hfiled : x.filed = (Cache.new config).filed proxy.crates.toVec x.entry x.now)
    (hresp : x.filed.toResponse proxy.securityHeadersConfig = .ok resp)
    (hfresh : x.fresh proxy = .ok fresh) :
    resp.body = fresh.body ↔ x.KeepsBody proxy.crates.toVec config := by
  have hbody : x.entry.response = x.body := storedEntry_response h.entry
  rw [(CacheEntry.toResponse_parts hresp).2.1, (Exchange.fresh_parts hfresh).2.1,
    ← filed_response_same_iff hbody, ← hfiled]
  simp [Body.ofBytes]

theorem sameReply_iff (h : x.Sound proxy)
    (hfiled : x.filed = (Cache.new config).filed proxy.crates.toVec x.entry x.now)
    (hresp : x.filed.toResponse proxy.securityHeadersConfig = .ok resp)
    (hfresh : x.fresh proxy = .ok fresh) : SameReply resp fresh ↔ x.Repeats proxy config := by
  have hcors := sameCors_iff h hresp hfresh
  have hetag := replay_etag_iff h hresp hfresh
  have hlast := replay_lastModified_iff h hresp hfresh
  have hbody := replay_body_iff h hfiled hresp hfresh
  obtain ⟨hstatus, hothers⟩ := replay_other_headers h hresp hfresh
  constructor
  · intro hsame
    exact ⟨hcors.mp fun f _ => hsame.headers f.name, hetag.mp (hsame.headers _),
      hlast.mp (hsame.headers _), hbody.mp hsame.body⟩
  · intro hrepeats
    refine ⟨hstatus, fun name => ?_, hbody.mpr hrepeats.body⟩
    by_cases hname : name ∈ replacedNames
    · rcases List.mem_append.mp hname with hname | hname
      · obtain ⟨f, hf, rfl⟩ := List.mem_map.mp hname
        exact hcors.mpr hrepeats.cors f hf
      · rcases List.mem_pair.mp hname with rfl | rfl
        · exact hetag.mpr hrepeats.etag
        · exact hlast.mpr hrepeats.lastModified
    · exact hothers name hname

end Replay

/-- In every run a response out of the cache repeats the one that went to the client whose
exchange was stored, in its status and in all but five headers. It is the same response exactly
when the two paths agree on the CORS headers, the upstream has sent one ETag and at most one
Last-Modified, and the cache files the body as it is. -/
theorem replayed_reply_same_iff {proxy : Proxy} {start : Nat} {es : List CacheEvent}
    {c : CacheClients} (h : Run (CacheClients.step proxy) anyStep (CacheClients.idle start) es c)
    {reply : Reply} {resp : Response} (hmem : reply ∈ c.replies)
    (hcached : reply.ending = .cached resp) :
    ∃ x ∈ c.stored, ∃ y config, reply.source = some x ∧
      c.founder proxy (x.key proxy.crates.hashers.defaultHash) = some y ∧
      y.selected.cacheConfig = some config ∧
      ∀ fresh, x.fresh proxy = .ok fresh →
        (∃ reply' ∈ c.replies, reply'.request = x.request ∧ reply'.ending = .upstream fresh) ∧
        resp.status = fresh.status ∧
        (∀ name, name ∉ replacedNames →
          resp.headers.getAll name = fresh.headers.getAll name) ∧
        (SameReply resp fresh ↔ x.Repeats proxy config) := by
  obtain ⟨x, hx, hsource, hresp⟩ := CacheClients.sourced_run h reply hmem resp hcached
  have hsound := (CacheClients.sound_run h).exchanges x hx
  have hfounded := CacheClients.founded_run h
  obtain ⟨y, config, hy, hconfig, hfiled⟩ := CacheClients.filed_of_founder hfounded hx
  refine ⟨x, hx, y, config, hsource, hy, hconfig, fun fresh hfresh => ?_⟩
  obtain ⟨hstatus, hothers⟩ := replay_other_headers hsound hresp hfresh
  exact ⟨CacheClients.answered_run h x hx fresh hfresh, hstatus, hothers,
    sameReply_iff hsound hfiled hresp hfresh⟩

set_option maxRecDepth 2000 in
theorem replayed_reply_same_iff_tagged :
    ∃ (proxy : Proxy) (env : Surroundings) (c : CacheClients) (reply : Reply)
      (resp fresh : Response),
    Proxy.ofConfig hashingCrates (cachingConfig ["http://localhost:5001".toList]) = .ok proxy ∧
    env.targetOrder = proxy.targetMap.entries ∧
    Run (CacheClients.step proxy) anyStep (CacheClients.idle 0)
      (fetchedThen env (getRequest "/api/users".toList [])
        (plainRound (.response (textResponse [(etagHeader, utf8 "v1".toList)] "users")))
        (getRequest "/api/users".toList [])) c ∧
    reply ∈ c.replies ∧ reply.ending = .cached resp ∧
    (∃ reply' ∈ c.replies, reply'.ending = .upstream fresh) ∧ SameReply resp fresh := by
  have htrace : ∃ (proxy : Proxy) (env : Surroundings) (c : CacheClients) (reply : Reply)
      (resp fresh : Response) (x : Exchange),
      Proxy.ofConfig hashingCrates (cachingConfig ["http://localhost:5001".toList]) = .ok proxy ∧
      env.targetOrder = proxy.targetMap.entries ∧
      Run (CacheClients.step proxy) anyStep (CacheClients.idle 0)
        (fetchedThen env (getRequest "/api/users".toList [])
          (plainRound (.response (textResponse [(etagHeader, utf8 "v1".toList)] "users")))
          (getRequest "/api/users".toList [])) c ∧
      c.replies.head? = some reply ∧ reply.ending = .cached resp ∧ c.stored = [x] ∧
      x.selected.corsConfig = none ∧ proxy.defaultCorsConfig = none ∧
      x.response.headers = [(etagHeader, utf8 "v1".toList)] ∧
      x.selected.cacheConfig = some ⟨60, 10, false, 60⟩ ∧ x.fresh proxy = .ok fresh :=
    ⟨_, plainSurroundings _ (fun _ => plainRound .timedOut), _, _, _, _, _, rfl, rfl,
      .cons trivial rfl (.cons trivial rfl (.cons trivial rfl (.cons trivial rfl (.nil _)))),
      rfl, rfl, rfl, rfl, rfl, rfl, rfl, rfl⟩
  obtain ⟨proxy, env, c, reply, resp, fresh, x, hproxy, horder, hrun, hreply, hcached, hstored,
    htarget, hdefault, hheaders, hcache, hfresh⟩ := htrace
  have hmem := List.mem_of_head? hreply
  obtain ⟨z, hz, y, config, _, hy, hconfig, hsame⟩ := replayed_reply_same_iff hrun hmem hcached
  have hfirst := (CacheClients.mem_of_founder hy).1
  rw [hstored, List.mem_singleton] at hz hfirst
  subst hz
  subst hfirst
  cases hcache.symm.trans hconfig
  obtain ⟨⟨reply', hmem', _, hends⟩, _, _, hiff⟩ := hsame fresh hfresh
  have hcors : CorsAgrees y.selected.corsConfig proxy.defaultCorsConfig y.response.headers := by
    intro f _
    rw [htarget, hdefault]
    exact fun config hnone => by cases hnone
  have hrepeats : y.Repeats proxy ⟨60, 10, false, 60⟩ := by
    refine ⟨hcors, ?_, ?_, fun hserialize => by cases hserialize⟩
    · rw [hheaders]
      decide
    · rw [hheaders]
      decide
  exact ⟨proxy, env, c, reply, resp, fresh, hproxy, horder, hrun, hmem, hcached,
    ⟨reply', hmem', hends⟩, hiff.mpr hrepeats⟩

end Road7
