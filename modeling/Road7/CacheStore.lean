import Road7.Config
import Road7.Http
import Road7.Time

namespace Road7

structure CorsHeaders where
  allowOrigin : HeaderValue
  allowHeaders : HeaderValue
  allowMethods : HeaderValue
deriving DecidableEq, Repr

structure CacheEntry where
  response : Bytes
  headers : HeaderMap
  status : Nat
  expiresAt : Nat
  corsHeaders : Option CorsHeaders
  etag : Option Str
  lastModified : Option Str
  varyHeaders : Option (List Str)
deriving DecidableEq, Repr

structure Cache where
  entries : StrMap CacheEntry
  ttl : Nat
  serialize : Bool

abbrev Caches := StrMap Cache

def Cache.new (config : CacheConfig) : Cache := ⟨∅, fromSecs config.ttlSeconds, config.serialize⟩

/-- `Cache::get`, which drops an entry that it finds expired. -/
def Cache.get (cache : Cache) (key : Str) (now : Nat) : Option CacheEntry × Cache :=
  match cache.entries.lookup key with
  | some entry =>
    if entry.expiresAt > now then (some entry, cache)
    else (none, { cache with entries := cache.entries.erase key })
  | none => (none, cache)

/-- Whether `get` finds the entry expired. It then asks for the write lock of a shard of
`entries` while the `Ref` it looks at still holds the read lock, and waits for itself. -/
def Cache.getBlocks (cache : Cache) (key : Str) (now : Nat) : Bool :=
  (cache.entries.lookup key).any (fun entry => entry.expiresAt ≤ now)

inductive Lookup where
  | hit (entry : CacheEntry)
  | miss
  | blocked
deriving DecidableEq, Repr

def Cache.find (cache : Cache) (key : Str) (now : Nat) : Lookup :=
  if cache.getBlocks key now then .blocked else (cache.get key now).1.elim .miss .hit

/-- `caches.get(cache_key)` with a `cache.get(key)` inside. -/
def findCached (caches : Caches) (cacheKey key : Str) (now : Nat) : Lookup :=
  (caches.lookup cacheKey).elim .miss (fun cache => cache.find key now)

/-- `Cache::put`; `toVec` is `serde_json::to_vec` on a byte vector. It panics, before it inserts
anything, where the entry would expire past the last `Instant`. -/
def Cache.put (toVec : Bytes → Option Bytes) (cache : Cache) (key : Str) (response : CacheEntry)
    (now : Nat) : Except Panic Cache :=
  let stored :=
    if cache.serialize then (toVec response.response).getD response.response
    else response.response
  match instantAdd now cache.ttl with
  | some expiresAt =>
    let entry : CacheEntry := { response with response := stored, expiresAt }
    .ok { cache with entries := cache.entries.insert key entry }
  | none => .error .overflow

def jsonItems : Bytes → Str
  | [] => []
  | [b] => Nat.toDigits 10 b.toNat
  | b :: bs => Nat.toDigits 10 b.toNat ++ ',' :: jsonItems bs

/-- What `serde_json::to_vec` writes for a vector of bytes, an array of numbers. -/
def jsonArray (bytes : Bytes) : Bytes := utf8 ('[' :: jsonItems bytes ++ [']'])

/-- The entry that `put` files. -/
def Cache.filed (toVec : Bytes → Option Bytes) (cache : Cache) (response : CacheEntry)
    (now : Nat) : CacheEntry :=
  { response with
    response := if cache.serialize then (toVec response.response).getD response.response
      else response.response
    expiresAt := now + cache.ttl }

/-- The cache after a `put` that returns. -/
def Cache.afterPut (toVec : Bytes → Option Bytes) (cache : Cache) (key : Str)
    (response : CacheEntry) (now : Nat) : Cache :=
  { cache with entries := cache.entries.insert key (cache.filed toVec response now) }

/-- `caches.entry(key).or_insert_with(..)` with a `put` under the same key inside; a `put` that
panics leaves a cache that has been made for it. -/
def Caches.store (toVec : Bytes → Option Bytes) (caches : Caches) (config : CacheConfig)
    (key : Str) (entry : CacheEntry) (now : Nat) : Except Panic Unit × Caches :=
  let cache := (caches.lookup key).getD (Cache.new config)
  match cache.put toVec key entry now with
  | .ok cache => (.ok (), caches.insert key cache)
  | .error p => (.error p, caches.insert key cache)

def Cache.cleanExpiredEntries (cache : Cache) (now : Nat) : Cache :=
  let expired := (cache.entries.entries.filter (fun e => e.2.expiresAt ≤ now)).map Sigma.fst
  { cache with entries := expired.foldl (fun m key => m.erase key) cache.entries }

section Lookup

variable {toVec : Bytes → Option Bytes} {cache : Cache} {key k : Str} {now : Nat}

theorem Cache.put_of_lt (response : CacheEntry) (h : now + cache.ttl < instantEnd) :
    cache.put toVec key response now = .ok (cache.afterPut toVec key response now) := by
  rw [put, instantAdd_of_lt h]
  rfl

theorem Cache.put_of_le (response : CacheEntry) (h : instantEnd ≤ now + cache.ttl) :
    cache.put toVec key response now = .error .overflow := by
  rw [put, instantAdd_eq_none.mpr h]

/-- `put` returns exactly when its entry expires at an `Instant`. -/
theorem Cache.put_eq_ok {response : CacheEntry} {after : Cache} :
    cache.put toVec key response now = .ok after ↔
      now + cache.ttl < instantEnd ∧ after = cache.afterPut toVec key response now := by
  rcases Nat.lt_or_ge (now + cache.ttl) instantEnd with h | h
  · rw [put_of_lt response h]
    exact ⟨fun heq => ⟨h, (Except.ok.inj heq).symm⟩, fun heq => congrArg Except.ok heq.2.symm⟩
  · rw [put_of_le response h]
    exact iff_of_false nofun (fun heq => Nat.not_lt.mpr h heq.1)

/-- The entries that are still good at a moment. -/
def CacheEntry.live (now : Nat) (entry : CacheEntry) : Bool := now < entry.expiresAt

theorem filter_live_of_lt {entry : CacheEntry} (h : now < entry.expiresAt) :
    (some entry).filter (·.live now) = some entry := by
  simp [CacheEntry.live, h]

theorem filter_live_of_le {entry : CacheEntry} (h : entry.expiresAt ≤ now) :
    (some entry).filter (·.live now) = none := by
  simp [CacheEntry.live, h]

theorem Cache.get_eq : (cache.get key now).1 = (cache.entries.lookup key).filter (·.live now) := by
  unfold Cache.get
  split
  next entry h =>
    rw [h]
    split
    next hlive => exact (filter_live_of_lt hlive).symm
    next hdead => exact (filter_live_of_le (Nat.not_lt.mp hdead)).symm
  next h =>
    rw [h]
    rfl

/-- `get` leaves the other keys alone, and its own one without an expired entry. -/
theorem Cache.lookup_get : (cache.get key now).2.entries.lookup k =
    if k = key then (cache.entries.lookup k).filter (·.live now) else cache.entries.lookup k := by
  unfold Cache.get
  split
  next entry h =>
    split
    next hlive =>
      split
      next hk =>
        subst hk
        rw [h]
        exact (filter_live_of_lt hlive).symm
      next => rfl
    next hdead =>
      split
      next hk =>
        subst hk
        rw [h, AList.lookup_erase]
        exact (filter_live_of_le (Nat.not_lt.mp hdead)).symm
      next hk => exact AList.lookup_erase_ne hk
  next h =>
    split
    next hk =>
      subst hk
      rw [h]
      rfl
    next => rfl

theorem lookup_foldl_erase {V : Type} (keys : List Str) (m : StrMap V) (k : Str) :
    (keys.foldl (fun m key => m.erase key) m).lookup k =
      if k ∈ keys then none else m.lookup k := by
  induction keys generalizing m with
  | nil => simp
  | cons key keys ih =>
    simp only [List.foldl_cons, ih, List.mem_cons]
    by_cases hk : k = key
    · subst hk
      simp [AList.lookup_erase]
    · simp [hk, AList.lookup_erase_ne hk]

/-- The sweep takes the expired entries out, and no others. -/
theorem Cache.lookup_cleanExpiredEntries : (cache.cleanExpiredEntries now).entries.lookup k =
    (cache.entries.lookup k).filter (·.live now) := by
  simp only [Cache.cleanExpiredEntries, lookup_foldl_erase]
  have hmem : k ∈ (cache.entries.entries.filter (fun e => e.2.expiresAt ≤ now)).map Sigma.fst ↔
      ∃ entry, cache.entries.lookup k = some entry ∧ entry.expiresAt ≤ now := by
    simp only [List.mem_map, List.mem_filter, decide_eq_true_eq, Sigma.exists]
    constructor
    · rintro ⟨key, entry, ⟨hentry, hle⟩, rfl⟩
      exact ⟨entry, AList.mem_lookup_iff.mpr hentry, hle⟩
    · rintro ⟨entry, hentry, hle⟩
      exact ⟨k, entry, ⟨AList.mem_lookup_iff.mp hentry, hle⟩, rfl⟩
  split
  next hdead =>
    obtain ⟨entry, h, hle⟩ := hmem.mp hdead
    rw [h]
    exact (filter_live_of_le hle).symm
  next hlive =>
    cases h : cache.entries.lookup k with
    | none => rfl
    | some entry =>
      have hlt : now < entry.expiresAt :=
        Nat.not_le.mp (fun hle => hlive (hmem.mpr ⟨entry, h, hle⟩))
      exact (filter_live_of_lt hlt).symm

end Lookup

def headerLength8 (n : Nat) : Bytes :=
  (List.range 8).map (fun i => UInt8.ofNat (n / 256 ^ i % 256))

def hashStr (s : Str) : Bytes := utf8 s ++ [0xFF]

/-- What `HeaderValue::hash` writes: the length, then the bytes. -/
def hashHeaderValue (v : HeaderValue) : Bytes := headerLength8 v.length ++ v

def cacheKeyStream (targetUrl : Str) (req : Request) (varyHeaders : Option (List Str)) : Bytes :=
  hashStr targetUrl ++ hashStr req.uri.toStr ++
    (varyHeaders.getD []).flatMap (fun name =>
      match req.headers.get (toLowerAscii name) with
      | some value => hashStr name ++ hashHeaderValue value
      | none => [])

/-- `create_cache_key`; `hash` is `DefaultHasher` over the bytes written to it. -/
def createCacheKey (hash : Bytes → Nat) (targetUrl : Str) (req : Request)
    (varyHeaders : Option (List Str)) : Str :=
  Nat.toDigits 16 (hash (cacheKeyStream targetUrl req varyHeaders))

def etagHeader : HeaderName := "etag".toList

def lastModifiedHeader : HeaderName := "last-modified".toList

def varyHeader : HeaderName := "vary".toList

def allowOriginHeader : HeaderName := "access-control-allow-origin".toList

def allowHeadersHeader : HeaderName := "access-control-allow-headers".toList

def allowMethodsHeader : HeaderName := "access-control-allow-methods".toList

def headerToStrUnwrap (v : HeaderValue) : Except Panic Str :=
  (headerToStr v).elim (.error .headerNotText) .ok

def splitVary (s : Str) : List Str :=
  (s.splitOn ',').map (fun part =>
    ((part.dropWhile Char.isWhitespace).reverse.dropWhile Char.isWhitespace).reverse)

/-- `CacheEntry::from_response`, with `md5::compute` as `md5` and the reading of the clock it
makes; it reads the body of the response to its end. -/
def CacheEntry.fromResponse (md5 : Bytes → Str) (now : Nat) (response : Response)
    (corsConfig : Option CorsConfig) : Except Panic (CacheEntry × Response) := do
  let headers := response.headers
  let corsHeaders ← match corsConfig with
    | some config => do
      let allowOrigin ← headerFromStrUnwrap (config.allowOrigin.getD "*".toList)
      let allowHeaders ← headerFromStrUnwrap (config.allowHeaders.getD "*".toList)
      let allowMethods ← headerFromStrUnwrap
        (config.allowMethods.getD "GET,POST,PUT,DELETE,OPTIONS,PATCH".toList)
      .ok (some ⟨allowOrigin, allowHeaders, allowMethods⟩)
    | none => .ok none
  let (bytes, body) := response.body.toBytes
  let bytes := bytes.getD []
  let etag ← match headers.get etagHeader with
    | some v => headerToStrUnwrap v
    | none => .ok ('"' :: md5 bytes ++ ['"'])
  let lastModified ← match headers.get lastModifiedHeader with
    | some v => (headerToStrUnwrap v).map some
    | none => .ok none
  let varyHeaders := ((headers.get varyHeader).bind headerToStr).map splitVary
  .ok (⟨bytes, headers, response.status, now, corsHeaders, some etag, lastModified, varyHeaders⟩,
    { response with body })

end Road7
