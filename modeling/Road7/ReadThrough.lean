import Road7.CacheHits
import Road7.CorsReplay
import Road7.TargetRouting

namespace Road7

/-- The digits in which the digest of `md5::compute` is written. -/
def HexDigits (s : Str) : Prop := s.all ("0123456789abcdef".toList.contains ·) = true

theorem headerFromStr_quoted {s : Str} (h : HexDigits s) :
    ∃ v, headerFromStr ('"' :: s ++ ['"']) = some v := by
  have hdigits : "0123456789abcdef".toList.all (fun ch => (utf8 [ch]).all isHeaderByte) = true := by
    rfl
  have hs : headerFromStr s = some (utf8 s) := by
    refine headerFromStr_eq_some.mpr ⟨?_, rfl⟩
    rw [utf8, List.all_flatMap, List.all_eq_true]
    intro ch hch
    have hmem := List.all_eq_true.mp h ch hch
    have hbytes := List.all_eq_true.mp hdigits ch (by simpa using hmem)
    simpa [utf8] using hbytes
  have hquote : headerFromStr ['"'] = some (utf8 ['"']) := rfl
  exact ⟨_, headerFromStr_append (headerFromStr_append hquote hs) hquote⟩

theorem headerToStrUnwrap_valid {v : HeaderValue} {s : Str} (h : headerToStrUnwrap v = .ok s) :
    ValidHeader s := by
  unfold headerToStrUnwrap at h
  cases hv : headerToStr v with
  | none => simp [hv] at h
  | some s' =>
    simp only [hv, Option.elim_some, Except.ok.injEq] at h
    exact ⟨v, h ▸ headerFromStr_of_headerToStr hv⟩

theorem storedEtag_valid {md5 : Bytes → Str} {headers : HeaderMap} {bytes : Bytes} {etag : Str}
    (hmd5 : ∀ bytes, HexDigits (md5 bytes)) (h : storedEtag md5 headers bytes = .ok etag) :
    ValidHeader etag := by
  unfold storedEtag at h
  split at h
  next => exact headerToStrUnwrap_valid h
  next =>
    cases h
    exact headerFromStr_quoted (hmd5 bytes)

theorem storedLastModified_valid {headers : HeaderMap} {lastModified : Option Str} {s : Str}
    (h : storedLastModified headers = .ok lastModified) (hs : lastModified = some s) :
    ValidHeader s := by
  unfold storedLastModified at h
  split at h
  next =>
    obtain ⟨s', hs', heq⟩ := map_eq_ok.mp h
    cases heq.trans hs
    exact headerToStrUnwrap_valid hs'
  next =>
    cases h
    simp at hs

/-- What an entry keeps of the tag and of the time of the last change are header values again. -/
theorem storedEntry_valid {md5 : Bytes → Str} {now : Nat} {response : Response}
    {target : Option CorsConfig} {entry : CacheEntry} (hmd5 : ∀ bytes, HexDigits (md5 bytes))
    (h : storedEntry md5 now response target = .ok entry) :
    (∀ s, entry.etag = some s → ValidHeader s) ∧
      ∀ s, entry.lastModified = some s → ValidHeader s := by
  obtain ⟨_, _, ⟨etag, hetag, hetagEq⟩, hlast, _⟩ := storedEntry_ok h
  refine ⟨fun s hs => ?_, fun s hs => storedLastModified_valid hlast hs⟩
  cases hetagEq.symm.trans hs
  exact storedEtag_valid hmd5 hetag

/-- An entry that a store has filed makes a response, unless the security headers are at fault. -/
theorem toResponse_of_sound {proxy : Proxy} {x : Exchange} {headers headers' : HeaderMap}
    (h : x.Sound proxy) (hmd5 : ∀ bytes, HexDigits (proxy.crates.md5 bytes))
    (hsecurity : applySecurityHeaders headers proxy.securityHeadersConfig = .ok headers') :
    ∃ resp, x.filed.toResponse proxy.securityHeadersConfig = .ok resp := by
  obtain ⟨_, hentry, cache, hfiled⟩ := h
  obtain ⟨hetag, hlast⟩ := storedEntry_valid hmd5 hentry
  rw [CacheEntry.toResponse_ok_iff, hfiled]
  exact ⟨hetag, hlast, applySecurityHeaders_ok_iff.mp ⟨headers', hsecurity⟩⟩

namespace CacheClients

variable {proxy : Proxy} {c d f : CacheClients} {e : CacheEvent} {K k : Str} {now : Nat}
  {swept : List (Str × Str)}

/-- The entries under some keys have expired at a moment. -/
def Expired (c : CacheClients) (swept : List (Str × Str)) (now : Nat) : Prop :=
  ∀ K k entry, (K, k) ∈ swept → c.caches.entryAt K k = some entry → entry.expiresAt ≤ now

/-- The step stores nothing and removes no entry that has not expired. -/
def Undisturbed (c : CacheClients) : CacheEvent → Prop
  | .arrive _ env _ swept => c.Expired swept env.varyNow
  | .prepare _ _ => True
  | .turn id r => ∀ env request ctx s, c.running id = some ⟨env, request, .looping ctx s⟩ →
      ctx.exchange id request s (c.onCaches r) = none
  | .sweep cacheKey key now => c.Expired [(cacheKey, key)] now

/-- The entry under a key, while it is live. -/
def liveAt (c : CacheClients) (K k : Str) (now : Nat) : Option CacheEntry :=
  (c.caches.entryAt K k).filter (·.live now)

theorem liveAt_eq_some {entry : CacheEntry} : c.liveAt K k now = some entry ↔
    c.caches.entryAt K k = some entry ∧ now < entry.expiresAt := by
  simp [liveAt, Option.filter_eq_some_iff, CacheEntry.live]

theorem liveAt_removeEntries {t : Nat} (h : c.Expired swept t) (ht : t ≤ now) :
    liveAt { c with caches := c.caches.removeEntries swept } K k now = c.liveAt K k now := by
  unfold liveAt
  rw [Caches.entryAt_removeEntries]
  split
  next hmem =>
    cases hentry : c.caches.entryAt K k with
    | none => rfl
    | some entry =>
      have hdead : entry.expiresAt ≤ now := Nat.le_trans (h K k entry hmem hentry) ht
      exact (filter_live_of_le hdead).symm
  next => rfl

theorem liveAt_congr (h : d.caches.entryAt K k = c.caches.entryAt K k) :
    d.liveAt K k now = c.liveAt K k now := by
  rw [liveAt, h, liveAt]

/-- What is live and stays live, an undisturbed step leaves where it is. -/
theorem liveAt_step (h : c.step proxy e = some d) (hok : c.Undisturbed e) (ht : d.clock ≤ now) :
    d.liveAt K k now = c.liveAt K k now := by
  obtain ⟨c', heffect, rfl⟩ := step_effected h
  cases heffect with
  | arrive _ => exact (liveAt_congr (by rw [caches_settle])).trans (liveAt_removeEntries hok ht)
  | prepare _ => exact liveAt_congr (by rw [caches_settle])
  | turn hid =>
    refine liveAt_congr ?_
    rw [caches_settle]
    exact LoopContext.entryAt_of_no_exchange (hok _ _ _ _ hid) K k
  | @sweep cacheKey key t =>
    have hexpired : c.Expired [(cacheKey, key)] t := hok
    exact liveAt_removeEntries hexpired ht

theorem clock_le_step (h : c.step proxy e = some d) : c.clock ≤ d.clock := by
  obtain ⟨hstart, htime, c', _, rfl⟩ := step_eq_some h
  exact Nat.le_trans hstart htime

theorem clock_le_run {ok : CacheClients → CacheEvent → Prop} {es : List CacheEvent}
    (h : Run (step proxy) ok c es d) : c.clock ≤ d.clock :=
  h.invariant (P := fun s => c.clock ≤ s.clock)
    (fun hc _ hstep => Nat.le_trans hc (clock_le_step hstep)) (Nat.le_refl _)

theorem liveAt_run {es : List CacheEvent} (h : Run (step proxy) Undisturbed c es d)
    (ht : d.clock ≤ now) : d.liveAt K k now = c.liveAt K k now := by
  induction h with
  | nil => rfl
  | cons hok hstep hrest ih =>
    have hclock := clock_le_run hrest
    rw [ih ht, liveAt_step hstep hok (Nat.le_trans hclock ht)]

/-- A turn in which the upstream answers a request and its answer is stored. -/
structure StoresAnswer (proxy : Proxy) (c : CacheClients) (id : Nat) (r : Round)
    (env : Surroundings) (x : Exchange) (d : CacheClients) : Prop where
  step : c.step proxy (.turn id r) = some d
  stored : ∃ ctx s fresh, c.running id = some ⟨env, x.request, .looping ctx s⟩ ∧
    ctx.exchange id x.request s (c.onCaches r) = some x ∧
    BreakerClients.turned ctx s (c.onCaches r) = .ended (.upstream fresh)

variable {id : Nat} {r : Round} {env env' : Surroundings} {x : Exchange} {req : Request}
  {selected : Selected} {url : Str}

theorem storesAnswer_of_turn {request : Request} {ctx : LoopContext} {s : LoopState}
    {fresh : Response} (hstep : c.step proxy (.turn id r) = some d)
    (hid : c.running id = some ⟨env, request, .looping ctx s⟩)
    (hx : ctx.exchange id request s (c.onCaches r) = some x)
    (hended : BreakerClients.turned ctx s (c.onCaches r) = .ended (.upstream fresh)) :
    StoresAnswer proxy c id r env x d := by
  obtain ⟨_, hex⟩ := LoopContext.exchange_some hx
  refine ⟨hstep, ctx, s, fresh, ?_, ?_, hended⟩
  · rw [hex.request, hid]
  · rw [hex.request, hx]

theorem StoresAnswer.received (h : StoresAnswer proxy c id r env x d) (hc : c.Sound proxy) :
    proxy.receive env x.request = .going (x.request.bodyRead, x.selected) ∧
      x.selected.cacheConfig.isSome = true := by
  obtain ⟨ctx, s, fresh, hid, hx, _⟩ := h.stored
  obtain ⟨config, hex⟩ := LoopContext.exchange_some hx
  have hadmits := (hc.clients hid).1
  rw [hex.selected]
  exact ⟨hadmits.receives, by simp [hex.configured]⟩

theorem StoresAnswer.answered (h : StoresAnswer proxy c id r env x d) (hc : c.Sound proxy) :
    ∃ fresh, x.fresh proxy = .ok fresh := by
  obtain ⟨ctx, s, fresh, hid, hx, hended⟩ := h.stored
  obtain ⟨config, hex⟩ := LoopContext.exchange_some hx
  have hnext := hex.next
  rw [fresh_eq (hc.clients hid).1 hex.selected] at hnext
  cases hfresh : x.fresh proxy with
  | ok resp => exact ⟨resp, rfl⟩
  | error p =>
    rw [BreakerClients.turned, hnext, hfresh] at hended
    simp [Progress.endWith, Progress.orPanic] at hended

theorem StoresAnswer.entryAt (h : StoresAnswer proxy c id r env x d) (hc : c.Sound proxy)
    (K : Str) : d.caches.entryAt K K =
      if x.key proxy.crates.hashers.defaultHash = K then some x.filed
      else c.caches.entryAt K K := by
  obtain ⟨ctx, s, fresh, hid, hx, _⟩ := h.stored
  obtain ⟨config, hex⟩ := LoopContext.exchange_some hx
  have hcrates := crates_of_admits (hc.clients hid).1
  obtain ⟨_, _, c', heffect, rfl⟩ := step_eq_some h.step
  simp only [effect, hid, Option.some.injEq] at heffect
  cases heffect
  have hcaches := hex.caches
  have hfiled := hex.filed
  rw [hcrates] at hcaches hfiled
  rw [caches_settle, show (c.afterTurn ctx id x.request s r).caches = _ from hcaches,
    Caches.entryAt_afterStore]
  by_cases hK : x.key proxy.crates.hashers.defaultHash = K
  · subst hK
    simp only [and_self, if_true]
    exact congrArg some hfiled.symm
  · have hne : ¬(K = x.key proxy.crates.hashers.defaultHash) := fun heq => hK heq.symm
    simp only [hne, hK, and_self, if_false]
    rfl

/-- A request that has come to its target is answered out of the cache exactly when it has a
token and passes the gate, and a live entry under its plain key varies by nothing that it
carries. -/
theorem served_iff (hc : c.Sound proxy)
    (hresponds : ∀ x ∈ c.stored, ∃ resp, x.filed.toResponse proxy.securityHeadersConfig = .ok resp)
    (hreceive : proxy.receive env req = .going (req.bodyRead, selected))
    (hurl : selected.targetUrls.head? = some url) (hcache : selected.cacheConfig.isSome = true)
    (hexpired : c.Expired swept env.varyNow) (hnow : env.hitNow ≤ env.varyNow) :
    (∃ resp, proxy.arrive (c.seenBy env swept) req = .ended (.cached resp)) ↔
      takeToken env req.uri.path = .going () ∧
      authenticate proxy.crates env.systemTime selected.authConfig req.bodyRead = .ok () ∧ ∃ entry,
        c.liveAt (proxy.key url req none) (proxy.key url req none) env.varyNow = some entry ∧
        proxy.key url req entry.varyHeaders = proxy.key url req none := by
  constructor
  · rintro ⟨resp, hreply⟩
    obtain ⟨selected', url', x, hreceive', hurl', hhit, _, hkey, hlive, _⟩ := hit_source hc hreply
    cases hreceive.symm.trans hreceive'
    cases hurl.symm.trans hurl'
    obtain ⟨_, hreceive'', happroach⟩ := Proxy.arrive_cached.mp hreply
    cases hreceive.symm.trans hreceive''
    obtain ⟨htoken, hauth, _⟩ := Proxy.approach_cached.mp happroach
    refine ⟨htoken, hauth, x.filed, ?_, hkey⟩
    exact liveAt_eq_some.mpr ⟨(Caches.findCached_hit.mp hhit).1, hlive⟩
  · rintro ⟨htoken, hauth, entry, hentry, hkey⟩
    obtain ⟨hentry, hlive⟩ := liveAt_eq_some.mp hentry
    obtain ⟨_, x, hx, rfl⟩ := hc.entries hentry
    obtain ⟨resp, hresp⟩ := hresponds x (mem_of_lastStored hx).1
    have hkept : (proxy.key url req none, proxy.key url req none) ∉ swept := by
      intro hmem
      have hdead := hexpired _ _ _ hmem hentry
      omega
    refine ⟨resp, Proxy.arrive_cached.mpr ⟨selected, hreceive, Proxy.approach_cached.mpr
      ⟨htoken, hauth, url, hurl, Proxy.serveFromCache_cached.mpr
        ⟨hcache, x.filed, x.filed, ?_, ?_, hresp⟩⟩⟩⟩
    · exact Caches.findCached_hit.mpr ⟨hentry, Nat.lt_of_le_of_lt hnow hlive⟩
    · refine Caches.findCached_hit.mpr ⟨?_, hlive⟩
      rw [show (c.seenBy env swept).varyCaches = c.caches.removeEntries swept from rfl,
        Caches.entryAt_removeEntries, show proxy.key url req.bodyRead x.filed.varyHeaders =
          proxy.key url req none from hkey]
      exact (if_neg hkept).trans hentry

theorem arrive_replies_cached {id : Nat} (h : c.step proxy (.arrive id env req swept) = some d) :
    (∃ resp source, d.replies = ⟨id, req, .cached resp, source⟩ :: c.replies) ↔
      ∃ resp, proxy.arrive (c.seenBy env swept) req = .ended (.cached resp) := by
  obtain ⟨c', heffect, rfl⟩ := step_effected h
  cases heffect with
  | arrive _ =>
    unfold arrival
    cases proxy.arrive (c.seenBy env swept) req with
    | going admitted => simp [settle, CacheClients.runOn]
    | ended ending => simp [settle, CacheClients.runOn]
    | blocked => simp [settle, CacheClients.runOn]

/-- What the same request comes to under its plain key after an exchange has been stored: the
exchange, if it was stored under that key, else an older entry. It has to be live, and the key
with the headers that it varies by has to be the plain key again. -/
def FoundAgain (proxy : Proxy) (c : CacheClients) (x : Exchange) (url : Str) (req : Request)
    (now : Nat) : Prop :=
  ∃ entry, (if x.key proxy.crates.hashers.defaultHash = proxy.key url req none then some x.filed
      else c.caches.entryAt (proxy.key url req none) (proxy.key url req none)) = some entry ∧
    now < entry.expiresAt ∧ proxy.key url req entry.varyHeaders = proxy.key url req none

theorem StoresAnswer.stored_eq (h : StoresAnswer proxy c id r env x d) :
    d.stored = x :: c.stored := by
  obtain ⟨ctx, s, fresh, hid, hx, _⟩ := h.stored
  obtain ⟨_, _, c', heffect, rfl⟩ := step_eq_some h.step
  simp only [effect, hid, Option.some.injEq] at heffect
  cases heffect
  refine (stored_settle _).trans ?_
  simp [afterTurn, hx]

end CacheClients

/-- A request that is repeated. -/
structure Request.SameAs (req req' : Request) : Prop where
  method : req'.method = req.method
  uri : req'.uri = req.uri
  headers : req'.headers = req.headers

/-- The header names of the `Vary` of a response. -/
def Response.vary (resp : Response) : Option (List Str) :=
  ((resp.headers.get varyHeader).bind headerToStr).map splitVary

theorem storedEntry_vary {md5 : Bytes → Str} {now : Nat} {response : Response}
    {target : Option CorsConfig} {entry : CacheEntry}
    (h : storedEntry md5 now response target = .ok entry) : entry.varyHeaders = response.vary :=
  (storedEntry_ok h).2.2.2.2

/-- Without collisions: the exchange is found again when it went to the first url of the target
and its request carried none of the headers of `Vary`. -/
theorem foundAgain_iff {proxy : Proxy} {c d : CacheClients} {x : Exchange} {url : Str}
    {req : Request} {now : Nat} (hc : c.Sound proxy) (hx : x.Sound proxy)
    (hstored : d.stored = x :: c.stored) (hsame : x.request.SameAs req)
    (hinj : Set.InjOn proxy.crates.hashers.defaultHash (d.hashed url req)) :
    c.FoundAgain proxy x url req now ↔
      (x.targetUrl = url ∧ x.kept.CarriesNone x.response.vary ∧ now < x.filed.expiresAt) ∨
      (¬(x.targetUrl = url ∧ x.kept.CarriesNone x.response.vary) ∧ ∃ entry,
        c.caches.entryAt (proxy.key url req none) (proxy.key url req none) = some entry ∧
        now < entry.expiresAt ∧ req.CarriesNone entry.varyHeaders) := by
  obtain ⟨hkept, hentry, cache, hfiled⟩ := hx
  have hvary : x.entry.varyHeaders = x.response.vary := storedEntry_vary hentry
  have hfiledVary : x.filed.varyHeaders = x.response.vary := by
    rw [hfiled]
    exact hvary
  have hplain : cacheKeyStream url req none ∈ d.hashed url req := .inr (.inl rfl)
  have hxd : x ∈ d.stored := by
    rw [hstored]
    exact List.mem_cons_self
  have hstore : x.key proxy.crates.hashers.defaultHash = proxy.key url req none ↔
      x.targetUrl = url ∧ x.kept.CarriesNone x.response.vary := by
    have hkey := createCacheKey_inj hinj (.inl ⟨x, hxd, rfl⟩) hplain
    rw [show x.key proxy.crates.hashers.defaultHash = _ from rfl,
      show proxy.key url req none = _ from rfl, Exchange.key, Proxy.key, hkey,
      cacheKeyStream_eq_none_iff, hvary, hkept.uri, hsame.uri]
    simp
  have hlookup : ∀ y ∈ d.stored,
      proxy.key url req y.filed.varyHeaders = proxy.key url req none ↔
        req.CarriesNone y.filed.varyHeaders := by
    intro y hy
    have hkey := createCacheKey_inj hinj (.inr (.inr ⟨y, hy, rfl⟩)) hplain
    rw [Proxy.key, Proxy.key, hkey, cacheKeyStream_eq_none_iff]
    simp
  unfold CacheClients.FoundAgain
  by_cases hfound : x.targetUrl = url ∧ x.kept.CarriesNone x.response.vary
  · have hcarries : req.CarriesNone x.filed.varyHeaders := by
      intro name hname
      rw [hsame.headers]
      exact hkept.headers _ (hfound.2 name (hfiledVary ▸ hname))
    have hagain := (hlookup x hxd).mpr hcarries
    simp only [hstore.mpr hfound, if_true, Option.some.injEq, exists_eq_left', hagain, and_true]
    simp [hfound]
  · simp only [show ¬_ from fun heq => hfound (hstore.mp heq), if_false, hfound, not_false_eq_true,
      true_and]
    constructor
    · rintro ⟨entry, hentry, hlive, hagain⟩
      obtain ⟨_, y, hy, rfl⟩ := hc.entries hentry
      have hmem : y ∈ d.stored := by
        rw [hstored]
        exact List.mem_cons_of_mem x (CacheClients.mem_of_lastStored hy).1
      exact .inr ⟨y.filed, hentry, hlive, (hlookup y hmem).mp hagain⟩
    · rintro (⟨hurl, hnone, _⟩ | ⟨entry, hentry, hlive, hnone⟩)
      · exact absurd ⟨hurl, hnone⟩ hfound
      · obtain ⟨_, y, hy, rfl⟩ := hc.entries hentry
        have hmem : y ∈ d.stored := by
          rw [hstored]
          exact List.mem_cons_of_mem x (CacheClients.mem_of_lastStored hy).1
        exact ⟨y.filed, hentry, hlive, (hlookup y hmem).mpr hnone⟩

/-- Repeating a request whose answer has been stored, with no store and no removal of an entry
that has not expired in between: it is answered out of the cache exactly when it comes to its
target, has a token, passes the gate once more and finds an entry again. -/
theorem repeat_served_from_cache_iff {proxy : Proxy} {start id id' : Nat} {es es' : List CacheEvent}
    {c d f g : CacheClients} {r : Round} {env env' : Surroundings} {x : Exchange} {req : Request}
    {swept : List (Str × Str)} {url : Str}
    (h : Run (CacheClients.step proxy) anyStep (CacheClients.idle start) es c)
    (hstore : CacheClients.StoresAnswer proxy c id r env x d)
    (hrest : Run (CacheClients.step proxy) CacheClients.Undisturbed d es' f)
    (hrepeat : f.step proxy (.arrive id' env' req swept) = some g)
    (hkept : f.Undisturbed (.arrive id' env' req swept))
    (hsame : x.request.SameAs req) (horder : env'.targetOrder = env.targetOrder)
    (hmd5 : ∀ bytes, HexDigits (proxy.crates.md5 bytes))
    (hurl : x.selected.targetUrls.head? = some url) :
    ((∃ resp source, g.replies = ⟨id', req, .cached resp, source⟩ :: f.replies) ↔
      (∃ selected, proxy.receive env' req = .going (req.bodyRead, selected) ∧
        authenticate proxy.crates env'.systemTime selected.authConfig req.bodyRead = .ok ()) ∧
      takeToken env' req.uri.path = .going () ∧
      c.FoundAgain proxy x url req env'.varyNow) ∧
    (Set.InjOn proxy.crates.hashers.defaultHash (d.hashed url req) →
      (c.FoundAgain proxy x url req env'.varyNow ↔
        (x.targetUrl = url ∧ x.kept.CarriesNone x.response.vary ∧
          env'.varyNow < x.filed.expiresAt) ∨
        (¬(x.targetUrl = url ∧ x.kept.CarriesNone x.response.vary) ∧ ∃ entry,
          c.caches.entryAt (proxy.key url req none) (proxy.key url req none) = some entry ∧
          env'.varyNow < entry.expiresAt ∧ req.CarriesNone entry.varyHeaders))) := by
  have hc := CacheClients.sound_run h
  have hd := CacheClients.sound_step hc hstore.step
  have hf : f.Sound proxy :=
    hrest.invariant (fun hs _ hstep => CacheClients.sound_step hs hstep) hd
  have hxd : x ∈ d.stored := by
    rw [hstore.stored_eq]
    exact List.mem_cons_self
  constructor
  · obtain ⟨hclock, hnow, _⟩ := CacheClients.step_eq_some hrepeat
    obtain ⟨hreceived, hcache⟩ := hstore.received hc
    obtain ⟨fresh, hfresh⟩ := hstore.answered hc
    obtain ⟨_, _, hsecurity⟩ := bind_eq_ok.mp hfresh
    obtain ⟨_, hsecurity, _⟩ := bind_eq_ok.mp hsecurity
    have hresponds : ∀ y ∈ f.stored, ∃ resp,
        y.filed.toResponse proxy.securityHeadersConfig = .ok resp :=
      fun y hy => toResponse_of_sound (hf.exchanges y hy) hmd5 hsecurity
    have hlive : f.liveAt (proxy.key url req none) (proxy.key url req none) env'.varyNow =
        d.liveAt (proxy.key url req none) (proxy.key url req none) env'.varyNow :=
      CacheClients.liveAt_run hrest (Nat.le_trans hclock hnow)
    have hfound : (∃ entry, f.liveAt (proxy.key url req none) (proxy.key url req none)
        env'.varyNow = some entry ∧ proxy.key url req entry.varyHeaders = proxy.key url req none) ↔
        c.FoundAgain proxy x url req env'.varyNow := by
      unfold CacheClients.FoundAgain
      refine exists_congr (fun entry => ?_)
      rw [hlive, CacheClients.liveAt_eq_some, hstore.entryAt hc, and_assoc]
    -- The same request comes to the same target.
    have hserved : ∀ selected, proxy.receive env' req = .going (req.bodyRead, selected) →
        ((∃ resp, proxy.arrive (f.seenBy env' swept) req = .ended (.cached resp)) ↔
          takeToken env' req.uri.path = .going () ∧
          authenticate proxy.crates env'.systemTime selected.authConfig req.bodyRead = .ok () ∧
          c.FoundAgain proxy x url req env'.varyNow) := by
      intro selected hreceive
      obtain ⟨hurls, _, hcaching⟩ := same_route (Proxy.receive_going hreceived).2.2
        (Proxy.receive_going hreceive).2.2 hsame.uri hsame.headers horder
      rw [← hfound]
      exact CacheClients.served_iff hf hresponds hreceive (hurls ▸ hurl)
        (hcaching ▸ hcache) hkept hnow
    rw [CacheClients.arrive_replies_cached hrepeat]
    constructor
    · rintro ⟨resp, hreply⟩
      obtain ⟨selected, hreceive, _⟩ := Proxy.arrive_cached.mp hreply
      obtain ⟨htoken, hauth, hagain⟩ := (hserved selected hreceive).mp ⟨resp, hreply⟩
      exact ⟨⟨selected, hreceive, hauth⟩, htoken, hagain⟩
    · rintro ⟨⟨selected, hreceive, hauth⟩, htoken, hagain⟩
      exact (hserved selected hreceive).mpr ⟨htoken, hauth, hagain⟩
  · exact foundAgain_iff hc (hd.exchanges x hxd) hstore.stored_eq hsame

def acceptHeader : HeaderName × HeaderValue := ("accept".toList, utf8 "text/html".toList)

set_option maxRecDepth 2000 in
theorem repeat_served_from_cache_iff_plain :
    ∃ (proxy : Proxy) (env : Surroundings) (c d g : CacheClients) (x : Exchange) (resp : Response)
      (source : Option Exchange),
    Proxy.ofConfig hashingCrates (cachingConfig ["http://localhost:5001".toList]) = .ok proxy ∧
    env.targetOrder = proxy.targetMap.entries ∧
    Run (CacheClients.step proxy) anyStep (CacheClients.idle 0)
      [.arrive 0 env (getRequest "/api/users".toList [acceptHeader]) [], .prepare 0 0] c ∧
    CacheClients.StoresAnswer proxy c 0 (plainRound (.response (textResponse [] "users"))) env x d ∧
    d.step proxy (.arrive 1 env (getRequest "/api/users".toList [acceptHeader]) []) = some g ∧
    g.replies = ⟨1, getRequest "/api/users".toList [acceptHeader], .cached resp, source⟩ ::
      d.replies := by
  have htrace : ∃ (proxy : Proxy) (env : Surroundings) (c d g : CacheClients) (x : Exchange)
      (selected : Selected) (url : Str),
      Proxy.ofConfig hashingCrates (cachingConfig ["http://localhost:5001".toList]) = .ok proxy ∧
      env.targetOrder = proxy.targetMap.entries ∧ proxy.crates = hashingCrates ∧
      Run (CacheClients.step proxy) anyStep (CacheClients.idle 0)
        [.arrive 0 env (getRequest "/api/users".toList [acceptHeader]) [], .prepare 0 0] c ∧
      CacheClients.StoresAnswer proxy c 0 (plainRound (.response (textResponse [] "users")))
        env x d ∧
      d.step proxy (.arrive 1 env (getRequest "/api/users".toList [acceptHeader]) []) = some g ∧
      x.request = getRequest "/api/users".toList [acceptHeader] ∧
      x.selected.targetUrls.head? = some url ∧ x.targetUrl = url ∧ x.response.vary = none ∧
      env.varyNow < x.filed.expiresAt ∧
      proxy.receive env (getRequest "/api/users".toList [acceptHeader]) =
        .going ((getRequest "/api/users".toList [acceptHeader]).bodyRead, selected) ∧
      selected.authConfig = none ∧
      takeToken env (getRequest "/api/users".toList [acceptHeader]).uri.path = .going () :=
    ⟨_, plainSurroundings _ (fun _ => plainRound .timedOut), _, _, _, _, _, _, rfl, rfl, rfl,
      .cons trivial rfl (.cons trivial rfl (.nil _)),
      CacheClients.storesAnswer_of_turn rfl rfl rfl rfl, rfl, rfl, rfl, rfl, rfl, by decide, rfl, rfl,
      rfl⟩
  obtain ⟨proxy, env, c, d, g, x, selected, url, hproxy, horder, hcrates, hrun, hstore, hrepeat,
    hrequest, hurl, htarget, hvary, hlive, hreceive, hopen, htoken⟩ := htrace
  have hsame : x.request.SameAs (getRequest "/api/users".toList [acceptHeader]) := by
    rw [hrequest]
    exact ⟨rfl, rfl, rfl⟩
  have hkept : d.Undisturbed (.arrive 1 env (getRequest "/api/users".toList [acceptHeader]) []) :=
    fun _ _ _ hmem => absurd hmem List.not_mem_nil
  have hmd5 : ∀ bytes, HexDigits (proxy.crates.md5 bytes) := by
    rw [hcrates]
    intro _
    rfl
  have hinj : Set.InjOn proxy.crates.hashers.defaultHash
      (d.hashed url (getRequest "/api/users".toList [acceptHeader])) := by
    rw [hcrates]
    exact digitsHash_injective.injOn
  obtain ⟨hserved, hfound⟩ := repeat_served_from_cache_iff hrun hstore (.nil d) hrepeat hkept hsame
    rfl hmd5 hurl
  have hnone : x.kept.CarriesNone x.response.vary := by
    rw [hvary]
    exact fun name hname => absurd hname List.not_mem_nil
  obtain ⟨resp, source, hreply⟩ := hserved.mpr
    ⟨⟨selected, hreceive, hopen ▸ rfl⟩, htoken, (hfound hinj).mpr (.inl ⟨htarget, hnone, hlive⟩)⟩
  exact ⟨proxy, env, c, d, g, x, resp, source, hproxy, horder, hrun, hstore, hrepeat, hreply⟩

set_option maxRecDepth 2000 in
/-- An answer with `Vary: Accept` to a request with that header is stored under a key that no
request is looked up under: at the same moment the same request goes to the upstream again. -/
theorem varied_answer_not_found_again :
    ∃ (proxy : Proxy) (env : Surroundings) (c d g f : CacheClients) (x : Exchange) (reply : Reply)
      (fresh : Response),
    Proxy.ofConfig hashingCrates (cachingConfig ["http://localhost:5001".toList]) = .ok proxy ∧
    env.targetOrder = proxy.targetMap.entries ∧
    Run (CacheClients.step proxy) anyStep (CacheClients.idle 0)
      [.arrive 0 env (getRequest "/api/users".toList [acceptHeader]) [], .prepare 0 0] c ∧
    CacheClients.StoresAnswer proxy c 0 (plainRound (.response
      (textResponse [(varyHeader, utf8 "Accept".toList)] "users"))) env x d ∧
    x.request = getRequest "/api/users".toList [acceptHeader] ∧
    env.varyNow < x.filed.expiresAt ∧
    d.step proxy (.arrive 1 env (getRequest "/api/users".toList [acceptHeader]) []) = some g ∧
    g.replies = d.replies ∧
    Run (CacheClients.step proxy) anyStep g [.prepare 1 0, .turn 1 (plainRound (.response
      (textResponse [(varyHeader, utf8 "Accept".toList)] "users")))] f ∧
    f.replies = reply :: g.replies ∧
    reply.request = getRequest "/api/users".toList [acceptHeader] ∧ reply.ending = .upstream fresh :=
  ⟨_, plainSurroundings _ (fun _ => plainRound .timedOut), _, _, _, _, _, _, _, rfl, rfl,
    .cons trivial rfl (.cons trivial rfl (.nil _)),
    CacheClients.storesAnswer_of_turn rfl rfl rfl rfl, rfl, by decide, rfl, rfl,
    .cons trivial rfl (.cons trivial rfl (.nil _)), rfl, rfl, rfl⟩

end Road7
