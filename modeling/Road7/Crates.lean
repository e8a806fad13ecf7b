import Road7.Auth
import Road7.LoadBalancer

namespace Road7

/-- The functions of other crates that the answer to a request depends on. `jwtDecode` also reads
the system time, in seconds, that the `exp` of a token is held against. -/
structure Crates where
  uriParser : UriParser
  clean : Str → Str
  base64Decode : Str → Option Bytes
  jwtDecode : Nat → Str → Str → Except String Claims
  hashers : Hashers
  md5 : Bytes → Str
  toVec : Bytes → Option Bytes
  regex : Str → Option (Str → Bool)

end Road7
