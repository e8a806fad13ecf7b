import Road7.CacheReplies
import Road7.PlainProxy

namespace Road7

/-- The body of the response as it has been read. -/
def Exchange.body (x : Exchange) : Bytes := x.response.body.toBytes.1.getD []

def Exchange.Untagged (x : Exchange) : Prop := x.response.headers.get etagHeader = none

def quotedTag (digest : Str) : Str := '"' :: digest ++ ['"']

theorem quotedTag_injective : Function.Injective quotedTag := by
  intro a b h
  exact List.append_cancel_right (List.cons.inj h).2

namespace CacheClients

/-- Every entry of a response without an ETag is tagged with the digest of its bytes, and no two
with different bytes have the same tag. -/
structure TagsBodies (md5 : Bytes → Str) (c : CacheClients) : Prop where
  own : ∀ x ∈ c.stored, x.Untagged → x.filed.etag = some (quotedTag (md5 x.filed.response))
  apart : ∀ x ∈ c.stored, ∀ y ∈ c.stored, x.Untagged → y.Untagged →
    x.filed.response ≠ y.filed.response → x.filed.etag ≠ y.filed.etag

/-- Every entry of a response without an ETag has the tag of the empty body. -/
def EmptyTagged (md5 : Bytes → Str) (c : CacheClients) : Prop :=
  ∀ x ∈ c.stored, x.Untagged → x.filed.etag = some (quotedTag (md5 []))

/-- A response without an ETag is stored only if it has no body, and in a cache that does not
serialize. -/
def StoresEmpty (proxy : Proxy) (c : CacheClients) (e : CacheEvent) : Prop :=
  ∀ x, c.exchangeAt e = some x → x.Untagged → x.body = [] ∧
    ∀ config, x.selected.cacheConfig = some config →
      (c.caches.cacheFor config (x.key proxy.crates.hashers.defaultHash)).serialize = false

end CacheClients

/-- The tag of an entry is made of the body that has been taken out before. -/
theorem etag_of_untagged {md5 : Bytes → Str} {x : Exchange} (hnone : x.Untagged)
    (hentry : storedEntry md5 x.now x.response x.selected.corsConfig = .ok x.entry) :
    x.entry.etag = some (quotedTag (md5 [])) := by
  obtain ⟨_, _, ⟨etag, hetag, hsome⟩, _⟩ := storedEntry_ok hentry
  have hempty : storedEtag md5 x.response.headers [] = .ok (quotedTag (md5 [])) := by
    unfold storedEtag
    rw [hnone]
    rfl
  cases hempty.symm.trans hetag
  exact hsome

theorem storedEntry_response {md5 : Bytes → Str} {now : Nat} {response : Response}
    {corsConfig : Option CorsConfig} {entry : CacheEntry}
    (h : storedEntry md5 now response corsConfig = .ok entry) :
    entry.response = response.body.toBytes.1.getD [] := by
  obtain ⟨_, _, rfl⟩ := map_eq_ok.mp h
  rfl

theorem jsonArray_ne_nil (bytes : Bytes) : jsonArray bytes ≠ [] := by
  have hopen : utf8 ['['] ≠ [] := by decide
  simp [jsonArray, utf8] at hopen ⊢

/-- What is filed is empty only for an empty entry that is not serialized. -/
theorem filed_response_nil {toVec : Bytes → Option Bytes}
    (hjson : ∀ bytes, toVec bytes = some (jsonArray bytes)) (cache : Cache) (entry : CacheEntry)
    (now : Nat) : (cache.filed toVec entry now).response = [] ↔
      entry.response = [] ∧ cache.serialize = false := by
  unfold Cache.filed
  cases cache.serialize with
  | false => simp
  | true => simp [hjson, jsonArray_ne_nil]

namespace CacheClients

variable {proxy : Proxy} {c d : CacheClients} {e : CacheEvent} {x : Exchange}

/-- The tag of what a step files is the digest of nothing. -/
theorem tagged_of_step (hc : c.Sound proxy) (hstep : c.step proxy e = some d)
    (hx : c.exchangeAt e = some x) (hnone : x.Untagged) :
    x.filed.etag = some (quotedTag (proxy.crates.md5 [])) := by
  obtain ⟨config, _, hentry, hfiled, _⟩ := exchangeAt_some hc hstep hx
  rw [hfiled]
  exact etag_of_untagged hnone hentry

theorem filed_nil_of_step (hjson : ∀ bytes, proxy.crates.toVec bytes = some (jsonArray bytes))
    (hc : c.Sound proxy) (hstep : c.step proxy e = some d) (hx : c.exchangeAt e = some x) :
    x.filed.response = [] ↔ x.body = [] ∧ ∀ config, x.selected.cacheConfig = some config →
      (c.caches.cacheFor config (x.key proxy.crates.hashers.defaultHash)).serialize = false := by
  obtain ⟨config, hconfig, hentry, hfiled, _⟩ := exchangeAt_some hc hstep hx
  rw [hfiled, filed_response_nil hjson, storedEntry_response hentry, hconfig]
  simp [Exchange.body]

theorem EmptyTagged.step (h : c.EmptyTagged proxy.crates.md5) (hc : c.Sound proxy)
    (hstep : c.step proxy e = some d) : d.EmptyTagged proxy.crates.md5 := by
  intro x hx hnone
  rw [stored_of_step hstep] at hx
  rcases List.mem_append.mp hx with hx | hx
  · exact tagged_of_step hc hstep (Option.mem_toList.mp hx) hnone
  · exact h x hx hnone

/-- All entries having the same tag, it is the digest of the bytes of those that have none. -/
theorem tagsBodies_iff {md5 : Bytes → Str} (hmd5 : Function.Injective md5)
    (htag : c.EmptyTagged md5) :
    c.TagsBodies md5 ↔ ∀ x ∈ c.stored, x.Untagged → x.filed.response = [] := by
  constructor
  · intro h x hx hnone
    have heq := (htag x hx hnone).symm.trans (h.own x hx hnone)
    exact (hmd5 (quotedTag_injective (Option.some.inj heq))).symm
  · intro h
    refine ⟨fun x hx hnone => ?_, fun x hx y hy hxnone hynone hne => ?_⟩
    · rw [h x hx hnone]
      exact htag x hx hnone
    · exact absurd ((h x hx hxnone).trans (h y hy hynone).symm) hne

theorem tagsBodies_step_iff (hmd5 : Function.Injective proxy.crates.md5)
    (hjson : ∀ bytes, proxy.crates.toVec bytes = some (jsonArray bytes)) (hc : c.Sound proxy)
    (htag : c.EmptyTagged proxy.crates.md5) (hbodies : c.TagsBodies proxy.crates.md5)
    (hstep : c.step proxy e = some d) :
    d.TagsBodies proxy.crates.md5 ↔ StoresEmpty proxy c e := by
  rw [tagsBodies_iff hmd5 (htag.step hc hstep), stored_of_step hstep]
  have hold := (tagsBodies_iff hmd5 htag).mp hbodies
  constructor
  · intro h x hx hnone
    exact (filed_nil_of_step hjson hc hstep hx).mp
      (h x (List.mem_append_left _ (Option.mem_toList.mpr hx)) hnone)
  · intro h x hx hnone
    rcases List.mem_append.mp hx with hx | hx
    · have hx := Option.mem_toList.mp hx
      exact (filed_nil_of_step hjson hc hstep hx).mpr (h x hx hnone)
    · exact hold x hx hnone

end CacheClients

/-- In every run the entries of responses without an ETag are tagged with the digests of their
bytes, in every state, exactly when nothing but empty bodies is stored for such responses, in
caches that do not serialize. -/
theorem tags_bodies_iff {proxy : Proxy} {es : List CacheEvent} {c : CacheClients} {now : Nat}
    (hmd5 : Function.Injective proxy.crates.md5)
    (hjson : ∀ bytes, proxy.crates.toVec bytes = some (jsonArray bytes))
    (h : Run (CacheClients.step proxy) anyStep (CacheClients.idle now) es c) :
    Run (CacheClients.step proxy) (Run.keeping (CacheClients.step proxy)
      (CacheClients.TagsBodies proxy.crates.md5)) (CacheClients.idle now) es c ↔
    Run (CacheClients.step proxy) (CacheClients.StoresEmpty proxy) (CacheClients.idle now) es
      c := by
  have hidle : (CacheClients.idle now).EmptyTagged proxy.crates.md5 := fun x hx => by cases hx
  have hbodies : (CacheClients.idle now).TagsBodies proxy.crates.md5 :=
    (CacheClients.tagsBodies_iff hmd5 hidle).mpr (fun x hx => by cases hx)
  refine h.keeping_iff (I := fun c => c.Sound proxy ∧ c.EmptyTagged proxy.crates.md5) ?_
    ⟨CacheClients.idle_sound now, hidle⟩ hbodies
  rintro c e d ⟨hsound, htag⟩ hbodies _ hstep
  exact ⟨⟨CacheClients.sound_step hsound hstep, htag.step hsound hstep⟩,
    CacheClients.tagsBodies_step_iff hmd5 hjson hsound htag hbodies hstep⟩

/-- The digest of the empty body, followed by what tells the others apart. -/
def plainDigest (bytes : Bytes) : Str :=
  "d41d8cd98f00b204e9800998ecf8427e".toList ++ bytes.map (fun b => Char.ofNat b.toNat)

theorem plainDigest_injective : Function.Injective plainDigest := by
  intro a b h
  have htoNat : ∀ n < 256, (Char.ofNat n).toNat = n := by decide +kernel
  have hchar : Function.Injective (fun b : UInt8 => Char.ofNat b.toNat) := by
    intro b b' hb
    have hnat := congrArg Char.toNat hb
    simp only [htoNat _ b.toNat_lt, htoNat _ b'.toNat_lt] at hnat
    exact UInt8.toNat_inj.mp hnat
  exact List.map_injective_iff.mpr hchar (List.append_cancel_left h)

/-- Caching crates whose digests differ. -/
def digestingCrates : Crates := { hashingCrates with md5 := plainDigest }

theorem tags_bodies_iff_empty : ∃ (proxy : Proxy) (env : Surroundings) (c : CacheClients)
    (x : Exchange),
    Proxy.ofConfig digestingCrates (cachingConfig ["http://a:1".toList]) = .ok proxy ∧
    env.targetOrder = proxy.targetMap.entries ∧
    Run (CacheClients.step proxy) (Run.keeping (CacheClients.step proxy)
      (CacheClients.TagsBodies proxy.crates.md5)) (CacheClients.idle 0)
      (fetched 0 env (getRequest "/api/users".toList [])
        (plainRound (.response (textResponse [] "")))) c ∧
    c.stored = [x] ∧ x.Untagged := by
  refine ⟨_, plainSurroundings _ (fun _ => plainRound .timedOut), _, _, rfl, rfl,
    (tags_bodies_iff plainDigest_injective (fun _ => rfl)
      (.cons trivial rfl (.cons trivial rfl (.cons trivial rfl (.nil _))))).mpr
      (.cons ?_ rfl (.cons ?_ rfl (.cons ?_ rfl (.nil _)))), rfl, rfl⟩
  · intro x hx
    cases hx
  · intro x hx
    cases hx
  · intro x hx _
    cases hx
    refine ⟨rfl, fun config hconfig => ?_⟩
    cases hconfig
    rfl

/-- Two pages with different bodies are stored with one tag, which is the digest of neither. -/
theorem pages_share_a_tag : ∃ (proxy : Proxy) (env : Surroundings) (c : CacheClients)
    (x y : Exchange),
    Proxy.ofConfig digestingCrates (cachingConfig ["http://a:1".toList]) = .ok proxy ∧
    env.targetOrder = proxy.targetMap.entries ∧
    Run (CacheClients.step proxy) anyStep (CacheClients.idle 0)
      (fetched 0 env (getRequest "/api/users".toList [])
          (plainRound (.response (textResponse [] "users"))) ++
        fetched 1 env (getRequest "/api/orders".toList [])
          (plainRound (.response (textResponse [] "orders")))) c ∧
    c.stored = [y, x] ∧ x.Untagged ∧ y.Untagged ∧
    x.filed.response = utf8 "users".toList ∧ y.filed.response = utf8 "orders".toList ∧
    x.filed.etag = some "\"d41d8cd98f00b204e9800998ecf8427e\"".toList ∧
    y.filed.etag = x.filed.etag ∧ ¬c.TagsBodies proxy.crates.md5 := by
  refine ⟨_, plainSurroundings _ (fun _ => plainRound .timedOut), _, _, _, rfl, rfl,
    .cons trivial rfl (.cons trivial rfl (.cons trivial rfl (.cons trivial rfl (.cons trivial rfl
      (.cons trivial rfl (.nil _)))))), rfl, rfl, rfl, rfl, rfl, rfl, rfl, fun h => ?_⟩
  exact h.apart _ List.mem_cons_self _ (List.mem_cons_of_mem _ List.mem_cons_self) rfl rfl
    (by decide) rfl

end Road7
