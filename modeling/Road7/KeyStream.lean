import Road7.CacheKey
import Road7.PrefixCode

namespace Road7

/-- The listed headers that a request carries, each with its first value, in the order of the
list. -/
def Request.listed (req : Request) (varyHeaders : Option (List Str)) : List (Str × HeaderValue) :=
  (varyHeaders.getD []).filterMap fun name =>
    (req.headers.get (toLowerAscii name)).map (fun value => (name, value))

/-- The length of a value is a `usize`. -/
def HeaderMap.Sized (h : HeaderMap) : Prop := ∀ e ∈ h, e.2.length < 2 ^ 64

def hashListed (e : Str × HeaderValue) : Bytes := hashStr e.1 ++ hashHeaderValue e.2

theorem hashStr_prefixFree : PrefixFreeOn hashStr Set.univ :=
  fun _ _ _ _ _ _ h => hashStr_append_inj h

theorem headerLength8_prefixFree : PrefixFreeOn headerLength8 {n | n < 2 ^ 64} := by
  refine .of_length_eq (n := 8) (fun n _ => by simp [headerLength8]) (fun m hm n hn h => ?_)
  refine eq_of_digits_eq (b := 256) (k := 8) hm hn (fun i hi => ?_)
  have hbyte := List.map_inj_left.mp h i (List.mem_range.mpr hi)
  have hmod : m / 256 ^ i % 256 % 256 = n / 256 ^ i % 256 % 256 := congrArg UInt8.toNat hbyte
  simpa only [Nat.mod_mod] using hmod

theorem hashListed_prefixFree :
    PrefixFreeOn hashListed (Set.univ ×ˢ {value | value.length < 2 ^ 64}) :=
  hashStr_prefixFree.pair headerLength8_prefixFree.withLength

/-- The headers that are not there leave nothing in the stream. -/
theorem cacheKeyStream_eq (url : Str) (req : Request) (varyHeaders : Option (List Str)) :
    cacheKeyStream url req varyHeaders =
      hashStr url ++ (hashStr req.uri.toStr ++ (req.listed varyHeaders).flatMap hashListed) := by
  unfold cacheKeyStream Request.listed
  rw [List.append_assoc]
  congr 2
  induction varyHeaders.getD [] with
  | nil => rfl
  | cons name names ih =>
    rw [List.flatMap_cons, ih, List.filterMap_cons]
    cases req.headers.get (toLowerAscii name) <;> rfl

theorem HeaderMap.Sized.get {h : HeaderMap} (hsized : h.Sized) {name : HeaderName}
    {value : HeaderValue} (hget : h.get name = some value) : value.length < 2 ^ 64 := by
  obtain ⟨e, he, rfl⟩ := Option.map_eq_some_iff.mp hget
  exact hsized e (List.mem_of_find?_eq_some he)

theorem Request.listed_sized {req : Request} (hsized : req.headers.Sized)
    (varyHeaders : Option (List Str)) : ∀ e ∈ req.listed varyHeaders,
      e ∈ (Set.univ : Set Str) ×ˢ {value : HeaderValue | value.length < 2 ^ 64} := by
  intro e he
  obtain ⟨name, _, hname⟩ := List.mem_filterMap.mp he
  obtain ⟨value, hget, rfl⟩ := Option.map_eq_some_iff.mp hname
  exact ⟨trivial, hsized.get hget⟩

/-- Two requests feed the same bytes to the hasher exactly when url, URI and the listed headers
that they carry are the same. -/
theorem cacheKeyStream_eq_iff {url url' : Str} {req req' : Request}
    {varyHeaders varyHeaders' : Option (List Str)} (hsized : req.headers.Sized)
    (hsized' : req'.headers.Sized) :
    cacheKeyStream url req varyHeaders = cacheKeyStream url' req' varyHeaders' ↔
      url = url' ∧ req.uri.toStr = req'.uri.toStr ∧
        req.listed varyHeaders = req'.listed varyHeaders' := by
  have hlisted := hashListed_prefixFree.flatMap_inj (fun e _ => by simp [hashListed, hashStr])
    (Request.listed_sized hsized varyHeaders) (Request.listed_sized hsized' varyHeaders')
  rw [cacheKeyStream_eq, cacheKeyStream_eq]
  constructor
  · intro h
    obtain ⟨hurl, h⟩ := hashStr_append_inj h
    obtain ⟨huri, h⟩ := hashStr_append_inj h
    exact ⟨hurl, huri, hlisted.mp h⟩
  · rintro ⟨rfl, huri, hsame⟩
    rw [huri, hsame]

/-- A header that a `Vary` list names and the request does not carry makes no difference. -/
theorem cacheKeyStream_eq_iff_absent : ∃ req : Request,
    req.headers = [("accept".toList, utf8 "text/html".toList)] ∧
    cacheKeyStream "http://a:1".toList req (some ["Accept".toList, "Cookie".toList]) =
      cacheKeyStream "http://a:1".toList req (some ["Accept".toList]) := by
  have hsized : HeaderMap.Sized [("accept".toList, utf8 "text/html".toList)] := by
    intro e he
    rw [List.mem_singleton.mp he]
    decide
  exact ⟨⟨"GET".toList, ⟨none, none, "/".toList, none⟩, "HTTP/1.1".toList, _, Body.empty⟩, rfl,
    (cacheKeyStream_eq_iff hsized hsized).mpr ⟨rfl, rfl, by decide⟩⟩

end Road7
