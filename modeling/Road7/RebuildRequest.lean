import Road7.Http

namespace Road7

def hostHeader : HeaderName := "host".toList

def xForwardedForHeader : HeaderName := "x-forwarded-for".toList

def xProxyHeader : HeaderName := "x-proxy".toList

def upstreamUriText (targetUrl newPath query : Str) : Str :=
  if query = [] then targetUrl ++ newPath else targetUrl ++ newPath ++ '?' :: query

/-- The URI of the upstream request, with the panic of its `expect("Invalid URI")`. -/
def rebuildUri (parser : UriParser) (original : Uri) (targetUrl : Str) (targetUrlLen : Nat) :
    Except Panic Uri :=
  match sliceFrom original.path targetUrlLen with
  | none => .error .sliceOutOfRange
  | some newPath =>
    match parser.parse (upstreamUriText targetUrl newPath (original.query.getD [])) with
    | some uri => .ok uri
    | none => .error .invalidUri

/-- The headers of the upstream request. The copy loop inserts, so that of several values of
a name the last one stays. -/
def rebuildHeaders (headers : HeaderMap) (authority : Option Str) (clientIp : SocketAddr) :
    Except Panic HeaderMap := do
  let copied := headers.foldl (fun (h : HeaderMap) e => h.insert e.1 e.2) ([] : HeaderMap)
  let xForwardedFor := match (headers.get xForwardedForHeader).bind headerToStr with
    | some existing => existing ++ ", ".toList ++ clientIp.ip
    | none => clientIp.ip
  let forwarded ← headerFromStrUnwrap xForwardedFor
  let withForwarded := copied.insert xForwardedForHeader forwarded
  let withHost ← match authority with
    | some auth => (headerFromStrUnwrap auth).map (withForwarded.insert hostHeader)
    | none => .ok withForwarded
  .ok (withHost.insert xProxyHeader (utf8 "road7".toList))

/-- `rebuild_request`, with the original request as it is left: its body has been read. -/
def rebuildRequest (parser : UriParser) (original : Request) (targetUrl : Str)
    (targetUrlLen : Nat) (clientIp : SocketAddr) : Except Panic (Request × Request) := do
  let uri ← rebuildUri parser original.uri targetUrl targetUrlLen
  let headers ← rebuildHeaders original.headers uri.authority clientIp
  let (bytes, body) := original.body.toBytes
  .ok (⟨original.method, uri, original.version, headers, Body.ofBytes (bytes.getD [])⟩,
    { original with body })

end Road7
