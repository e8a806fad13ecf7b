import Road7.UriGrammar

namespace Road7

/-- The places where the code panics: a slice or an index out of range, an `expect` or an
`unwrap` on a failed value, arithmetic that overflows or divides by zero, a random draw from
an empty range. -/
inductive Panic where
  | sliceOutOfRange
  | indexOutOfRange
  | invalidUri
  | invalidHeaderValue
  | headerNotText
  | bodyRead
  | fileRead
  | overflow
  | divisionByZero
  | emptyRange
deriving DecidableEq, Repr

theorem bind_eq_ok {ε α β : Type} {x : Except ε α} {f : α → Except ε β} {b : β} :
    (x >>= f) = .ok b ↔ ∃ a, x = .ok a ∧ f a = .ok b := by
  cases x <;> simp [bind, Except.bind]

theorem map_eq_ok {α β : Type} {x : Except Panic α} {f : α → β} {b : β} :
    x.map f = .ok b ↔ ∃ a, x = .ok a ∧ f a = b := by
  cases x <;> simp [Except.map]

/-- Header names are kept in the lower case that `HeaderName` normalises to. -/
abbrev HeaderName := Str

abbrev HeaderValue := Bytes

/-- A multimap; the values of one name stand in their order. -/
abbrev HeaderMap := List (HeaderName × HeaderValue)

def isVisibleAscii (b : UInt8) : Bool := (32 ≤ b && b < 127) || b = 9

def headerToStr (v : HeaderValue) : Option Str :=
  if v.all isVisibleAscii then some (v.map (fun b => Char.ofNat b.toNat)) else none

def headerFromStr (s : Str) : Option HeaderValue :=
  if (utf8 s).all (fun b => (32 ≤ b && b ≠ 127) || b = 9) then some (utf8 s) else none

def headerFromStrUnwrap (s : Str) : Except Panic HeaderValue :=
  match headerFromStr s with
  | some v => .ok v
  | none => .error .invalidHeaderValue

def isHeaderByte (b : UInt8) : Bool := (32 ≤ b && b ≠ 127) || b = 9

/-- The value that `from_str` makes is the bytes of the text. -/
theorem headerFromStr_eq_some {s : Str} {v : HeaderValue} :
    headerFromStr s = some v ↔ v.all isHeaderByte = true ∧ utf8 s = v := by
  change (if (utf8 s).all isHeaderByte = true then some (utf8 s) else none) = some v ↔ _
  split
  next h =>
    rw [Option.some.injEq]
    exact ⟨fun hv => ⟨hv ▸ h, hv⟩, fun hv => hv.2⟩
  next h =>
    refine iff_of_false nofun ?_
    rintro ⟨hall, rfl⟩
    exact h hall

theorem headerFromStr_append {s t : Str} {v w : HeaderValue} (hs : headerFromStr s = some v)
    (ht : headerFromStr t = some w) : headerFromStr (s ++ t) = some (v ++ w) := by
  rw [headerFromStr_eq_some] at hs ht ⊢
  refine ⟨?_, by rw [utf8_append, hs.2, ht.2]⟩
  rw [List.all_append, hs.1, ht.1]
  rfl

theorem headerFromStrUnwrap_ok {s : Str} {v : HeaderValue} (h : headerFromStrUnwrap s = .ok v) :
    v = utf8 s := by
  unfold headerFromStrUnwrap at h
  split at h
  next w hw =>
    cases h
    exact (headerFromStr_eq_some.mp hw).2.symm
  next => simp at h

theorem toNat_lt_of_visible {b : UInt8} (h : isVisibleAscii b = true) : b.toNat < 128 := by
  simp only [isVisibleAscii, Bool.or_eq_true, Bool.and_eq_true, decide_eq_true_eq] at h
  rcases h with ⟨_, hb⟩ | rfl
  · have hb' : b.toNat < 127 := UInt8.lt_iff_toNat_lt.mp hb
    omega
  · decide

theorem utf8EncodeChar_of_visible {b : UInt8} (h : isVisibleAscii b = true) :
    String.utf8EncodeChar (Char.ofNat b.toNat) = [b] := by
  have hlt := toNat_lt_of_visible h
  have hnat : (Char.ofNat b.toNat).toNat = b.toNat := by
    have hall : ∀ n < 128, (Char.ofNat n).toNat = n := by decide
    exact hall b.toNat hlt
  rw [utf8EncodeChar_ascii (by rwa [hnat]), hnat, UInt8.ofNat_toNat]

theorem utf8_of_headerToStr {v : HeaderValue} {s : Str} (h : headerToStr v = some s) :
    utf8 s = v := by
  unfold headerToStr at h
  split at h
  next hvisible =>
    cases h
    rw [utf8, List.flatMap_map]
    refine (List.flatMap_congr (fun b hb => ?_)).trans (List.flatMap_singleton' v)
    exact utf8EncodeChar_of_visible (List.all_eq_true.mp hvisible b hb)
  next => simp at h

theorem visible_of_headerToStr {v : HeaderValue} {s : Str} (h : headerToStr v = some s) :
    ∀ b ∈ v, isVisibleAscii b = true := by
  unfold headerToStr at h
  split at h
  next hvisible => exact List.all_eq_true.mp hvisible
  next => simp at h

/-- A value that `to_str` reads, `from_str` makes again. -/
theorem headerFromStr_of_headerToStr {v : HeaderValue} {s : Str} (h : headerToStr v = some s) :
    headerFromStr s = some v := by
  refine headerFromStr_eq_some.mpr ⟨List.all_eq_true.mpr fun b hb => ?_, utf8_of_headerToStr h⟩
  have hb := visible_of_headerToStr h b hb
  simp only [isVisibleAscii, isHeaderByte, Bool.or_eq_true, Bool.and_eq_true,
    decide_eq_true_eq] at hb ⊢
  rcases hb with ⟨hlow, hhigh⟩ | htab
  · exact .inl ⟨hlow, fun heq => by simp [heq] at hhigh⟩
  · exact .inr htab

def toLowerAscii (s : Str) : Str := s.map Char.toLower

def isTokenChar (c : Char) : Bool := c.isAlphanum || c ∈ "!\"#$%&'*+-.^_`|~".toList

def maxHeaderNameLen : Nat := 65535

def parseHeaderName (s : Str) : Option HeaderName :=
  if s ≠ [] ∧ s.length ≤ maxHeaderNameLen ∧ s.all isTokenChar then some (toLowerAscii s) else none

def HeaderMap.get (h : HeaderMap) (name : HeaderName) : Option HeaderValue :=
  (h.find? (fun e => e.1 = name)).map Prod.snd

def HeaderMap.remove (h : HeaderMap) (name : HeaderName) : HeaderMap :=
  h.filter (fun e => e.1 ≠ name)

/-- `HeaderMap::insert` replaces every earlier value of the name. -/
def HeaderMap.insert (h : HeaderMap) (name : HeaderName) (v : HeaderValue) : HeaderMap :=
  h.remove name ++ [(name, v)]

def HeaderMap.getAll (h : HeaderMap) (name : HeaderName) : List HeaderValue :=
  (h.filter (fun e => e.1 = name)).map Prod.snd

theorem HeaderMap.getAll_remove (h : HeaderMap) (name n : HeaderName) :
    (h.remove name).getAll n = if n = name then [] else h.getAll n := by
  simp only [getAll, remove, List.filter_filter]
  split
  next hn =>
    subst hn
    simp
  next hn =>
    refine congrArg (List.map Prod.snd) (List.filter_congr (fun e _ => ?_))
    by_cases he : e.1 = n
    · simp [he, hn]
    · simp [he]

theorem HeaderMap.getAll_insert (h : HeaderMap) (name n : HeaderName) (v : HeaderValue) :
    (h.insert name v).getAll n = if n = name then [v] else h.getAll n := by
  have happend : (h.insert name v).getAll n = (h.remove name).getAll n ++ getAll [(name, v)] n := by
    simp [getAll, insert]
  rw [happend, getAll_remove]
  by_cases hn : n = name
  · simp [hn, getAll]
  · simp [hn, getAll, Ne.symm hn]

theorem HeaderMap.get_eq_head? (h : HeaderMap) (name : HeaderName) :
    h.get name = (h.getAll name).head? := by
  simp [get, getAll, List.head?_filter]

theorem HeaderMap.get_insert (h : HeaderMap) (name n : HeaderName) (v : HeaderValue) :
    (h.insert name v).get n = if n = name then some v else h.get n := by
  simp only [get_eq_head?, getAll_insert]
  split <;> rfl

/-- `http::request::Request` bodies are streams: `unread` is what is left to read, and
`broken` tells that reading on ends in a transport error. -/
structure Body where
  unread : Bytes
  broken : Bool
deriving DecidableEq, Repr

def Body.empty : Body := ⟨[], false⟩

def Body.ofBytes (b : Bytes) : Body := ⟨b, false⟩

/-- `hyper::body::to_bytes` on a `&mut Body` reads to the end and leaves nothing behind. -/
def Body.toBytes (b : Body) : Option Bytes × Body :=
  (if b.broken then none else some b.unread, Body.empty)

structure Request where
  method : Str
  uri : Uri
  version : Str
  headers : HeaderMap
  body : Body
deriving DecidableEq, Repr

structure Response where
  status : Nat
  headers : HeaderMap
  body : Body
deriving DecidableEq, Repr

structure SocketAddr where
  ip : Str
  port : Nat
  isV6 : Bool
deriving DecidableEq, Repr

/-- `SocketAddr`'s `Display`, which writes the port too. -/
def SocketAddr.toStr (a : SocketAddr) : Str :=
  let port := (toString a.port).toList
  if a.isV6 then '[' :: a.ip ++ "]:".toList ++ port else a.ip ++ ':' :: port

inductive ProxyError where
  | circuitBreakerOpen
  | tooManyRequests (msg : String)
  | timeout
  | internalServerError (msg : String)
  | badRequest (msg : String)
  | notFound (msg : String)
  | serviceUnavailable (msg : String)
  | unauthorized (msg : String)
  | forbidden (msg : String)
deriving DecidableEq, Repr

def ProxyError.toString : ProxyError → String
  | .circuitBreakerOpen => "Service Unavailable: Circuit Breaker is Open"
  | .tooManyRequests _ => "Too Many Requests: Rate limit exceeded"
  | .timeout => "Gateway Timeout"
  | .internalServerError msg => "Internal Server Error: " ++ msg
  | .badRequest msg => "Bad Request: " ++ msg
  | .notFound msg => "Not Found: " ++ msg
  | .serviceUnavailable msg => "Service Unavailable: " ++ msg
  | .unauthorized msg => "Unauthorized: " ++ msg
  | .forbidden msg => "Forbidden: " ++ msg

def ProxyError.status : ProxyError → Nat
  | .circuitBreakerOpen => 503
  | .tooManyRequests _ => 429
  | .timeout => 504
  | .internalServerError _ => 500
  | .badRequest _ => 400
  | .notFound _ => 404
  | .serviceUnavailable _ => 503
  | .unauthorized _ => 401
  | .forbidden _ => 403

/-- `From<ProxyError> for Response<Body>`: `TooManyRequests` alone shows its bare message. -/
def ProxyError.toResponse (e : ProxyError) : Response :=
  let text := match e with
    | .tooManyRequests msg => msg
    | e => e.toString
  ⟨e.status, [], Body.ofBytes (utf8 text.toList)⟩

end Road7
