import Road7.Config
import Road7.Http

namespace Road7

def authorizationHeader : HeaderName := "authorization".toList

def fromUtf8 (b : Bytes) : Option Str := (String.fromUTF8? ⟨b.toArray⟩).map String.toList

/-- `splitn(2, c)`: the part before the first `c`, and the rest when there is a `c`. -/
def splitFirst (c : Char) (s : Str) : Str × Option Str :=
  match s.dropWhile (· ≠ c) with
  | [] => (s.takeWhile (· ≠ c), none)
  | _ :: rest => (s.takeWhile (· ≠ c), some rest)

/-- `validate_basic`, with `base64::decode` as `decode`. -/
def validateBasic (decode : Str → Option Bytes) (req : Request) (validUsers : StrMap Str) :
    Except String Unit := do
  let headerValue ← match req.headers.get authorizationHeader with
    | some value => (headerToStr value).elim (.error "Invalid header format") .ok
    | none => .error "Authorization header missing"
  if !"Basic ".toList.isPrefixOf headerValue then .error "Invalid authorization scheme"
  else
    let decoded ← (decode (headerValue.drop 6)).elim
      (.error "Failed to decode base64 credentials") .ok
    let cred ← (fromUtf8 decoded).elim (.error "Invalid UTF-8 sequence") .ok
    let (username, password?) := splitFirst ':' cred
    let password ← password?.elim (.error "Missing password") .ok
    match validUsers.lookup username with
    | some validPassword =>
      if validPassword = password then .ok () else .error "Invalid credentials"
    | none => .error "Invalid credentials"

structure Claims where
  sub : Str
  company : Str
  exp : Nat
deriving DecidableEq, Repr

/-- `str::trim_start_matches`, which strips the prefix as often as it stands there. -/
def trimStartMatches (p : Str) : Nat → Str → Str
  | 0, s => s
  | fuel + 1, s => if p ≠ [] ∧ p.isPrefixOf s then trimStartMatches p fuel (s.drop p.length) else s

/-- `validate_jwt`, with the HS256 `jsonwebtoken::decode` as `decode`. -/
def validateJwt (decode : Str → Str → Except String Claims) (req : Request) (secret : Str) :
    Except String Claims := do
  let token ← match req.headers.get authorizationHeader with
    | some value =>
      (headerToStr value).elim (.error "Invalid token format")
        (fun s => .ok (trimStartMatches "Bearer ".toList s.length s))
    | none => .error "Authorization header missing"
  decode token secret

end Road7
