import Road7.Http

namespace Road7

def maxHeaderSize : Nat := 8192

def maxBodySize : Nat := 1048576

/-- A regular expression of the form `^[class]+$`. -/
def matchesClass (inClass : Char → Bool) (s : Str) : Bool := !s.isEmpty && s.all inClass

def uriChar (c : Char) : Bool := c.isAlphanum || c ∈ "-._~:/?#[]@!$&'()*+,;=%".toList

def headerNameChar (c : Char) : Bool := c.isAlphanum || c = '-'

def contentTypeChar (c : Char) : Bool :=
  c.isAlphanum || c ∈ "-._+/;= ".toList || (9 ≤ c.toNat && c.toNat ≤ 13)

def userAgentChar (c : Char) : Bool := c.isAlphanum || c ∈ "-._~!$&'()*+,;=/: ".toList

def defaultHeaderValueChar (c : Char) : Bool := 0x20 ≤ c.toNat && c.toNat ≤ 0x7E

def validateUri (uri : Str) : Except String Unit :=
  if matchesClass uriChar uri then .ok () else .error "Invalid URI detected"

/-- `HeaderValue`'s `Debug`: quoted, other bytes than visible ASCII in hexadecimal. -/
def debugHeaderValue (v : HeaderValue) : String :=
  let show1 (b : UInt8) : Str :=
    if b = 34 then ['\\', '"']
    else if isVisibleAscii b then [Char.ofNat b.toNat]
    else '\\' :: 'x' :: Nat.toDigits 16 b.toNat
  String.ofList ('"' :: v.flatMap show1 ++ ['"'])

/-- The grammar a value has to match; names arrive in lower case, the first two arms do not. -/
def validHeaderValue (name : HeaderName) (value : Str) : Bool :=
  if name = "Content-Type".toList then matchesClass contentTypeChar value
  else if name = "User-Agent".toList then matchesClass userAgentChar value
  else matchesClass defaultHeaderValueChar value

def validateHeader (e : HeaderName × HeaderValue) : Except String Unit :=
  let name := String.ofList e.1
  if !matchesClass headerNameChar e.1 then .error ("Invalid header name detected: " ++ name)
  else match headerToStr e.2 with
    | none => .error ("Non-ASCII header value detected for " ++ name)
    | some value =>
      if !validHeaderValue e.1 value then
        .error ("Invalid header value detected for " ++ name ++ ": " ++ debugHeaderValue e.2)
      else .ok ()

def totalHeaderSize (headers : HeaderMap) : Nat :=
  (headers.map (fun e => byteLen e.1 + e.2.length)).sum

def validateHeaders (headers : HeaderMap) : Except String Unit :=
  if totalHeaderSize headers > maxHeaderSize then .error "Header size exceeds the limit"
  else headers.forM validateHeader

def isContinuation (b : UInt8) : Bool := 0x80 ≤ b && b < 0xC0

/-- The range of the second byte after a lead byte of a three or four byte character. -/
def secondByteRange (lead : UInt8) : UInt8 × UInt8 :=
  if lead = 0xE0 then (0xA0, 0xBF)
  else if lead = 0xED then (0x80, 0x9F)
  else if lead = 0xF0 then (0x90, 0xBF)
  else if lead = 0xF4 then (0x80, 0x8F)
  else (0x80, 0xBF)

def continuationBits (b : UInt8) : Nat := b.toNat % 64

/-- The character at the head of a byte string, U+FFFD for the longest prefix of a character
that stands there, and what follows it. -/
def lossyChar (lead : UInt8) (rest : Bytes) : Char × Bytes :=
  let range := secondByteRange lead
  if lead < 0x80 then (Char.ofNat lead.toNat, rest)
  else if 0xC2 ≤ lead && lead ≤ 0xDF then
    match rest with
    | b :: rest' =>
      if isContinuation b then
        (Char.ofNat (lead.toNat % 32 * 64 + continuationBits b), rest')
      else ('\uFFFD', rest)
    | [] => ('\uFFFD', rest)
  else if 0xE0 ≤ lead && lead ≤ 0xF4 then
    match rest with
    | b :: rest' =>
      if range.1 ≤ b && b ≤ range.2 then
        match rest' with
        | c :: rest'' =>
          if isContinuation c then
            if lead < 0xF0 then
              (Char.ofNat ((lead.toNat % 16 * 64 + continuationBits b) * 64 +
                continuationBits c), rest'')
            else match rest'' with
              | d :: rest''' =>
                if isContinuation d then
                  (Char.ofNat (((lead.toNat % 8 * 64 + continuationBits b) * 64 +
                    continuationBits c) * 64 + continuationBits d), rest''')
                else ('\uFFFD', rest'')
              | [] => ('\uFFFD', rest'')
          else ('\uFFFD', rest')
        | [] => ('\uFFFD', rest')
      else ('\uFFFD', rest)
    | [] => ('\uFFFD', rest)
  else ('\uFFFD', rest)

def lossyChars : Nat → Bytes → Str
  | 0, _ => []
  | _ + 1, [] => []
  | fuel + 1, b :: rest =>
    let (c, rest') := lossyChar b rest
    c :: lossyChars fuel rest'

/-- `String::from_utf8_lossy`; a character takes at least one byte. -/
def fromUtf8Lossy (b : Bytes) : Str := lossyChars b.length b

/-- `validate_body`, with `ammonia::clean` as `clean`. It reads the body to its end. -/
def validateBody (clean : Str → Str) (body : Body) : Except String Unit × Body :=
  match body.toBytes with
  | (none, rest) => (.error "Failed to read body", rest)
  | (some bytes, rest) =>
    if bytes.length > maxBodySize then (.error "Body size exceeds the limit", rest)
    else if fromUtf8Lossy bytes ≠ clean (fromUtf8Lossy bytes) then
      (.error "HTML sanitization failed: potentially harmful content detected", rest)
    else (.ok (), rest)

def validateRequest (clean : Str → Str) (req : Request) : Except String Unit × Request :=
  match validateUri req.uri.toStr with
  | .error e => (.error e, req)
  | .ok () =>
    match validateHeaders req.headers with
    | .error e => (.error e, req)
    | .ok () =>
      let (result, body) := validateBody clean req.body
      (result, { req with body })

/-- A validated request is the request it was, but for the body, which has been read. -/
theorem validateRequest_ok {clean : Str → Str} {req req' : Request}
    (h : validateRequest clean req = (.ok (), req')) :
    validateUri req.uri.toStr = .ok () ∧ req' = { req with body := Body.empty } := by
  unfold validateRequest at h
  split at h
  next => simp at h
  next huri =>
    split at h
    next => simp at h
    next =>
      refine ⟨huri, ?_⟩
      have hbody : (validateBody clean req.body).2 = Body.empty := by
        simp only [validateBody, Body.toBytes]
        split
        next heq => simp only [Prod.mk.injEq] at heq; exact heq.2.symm
        next heq =>
          simp only [Prod.mk.injEq] at heq
          split
          next => exact heq.2.symm
          next => split <;> exact heq.2.symm
      simp only [Prod.mk.injEq] at h
      rw [← h.2, hbody]

end Road7
