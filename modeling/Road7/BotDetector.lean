import Road7.Config
import Road7.Http

namespace Road7

def userAgentHeader : HeaderName := "user-agent".toList

def containsText (s part : Str) : Bool := decide (part <:+: s)

/-- `is_bot_request`; `regex` is `Regex::new` with `is_match`, `none` for a pattern that does
not compile. -/
def isBotRequest (regex : Str → Option (Str → Bool)) (req : Request)
    (config : BotDetectorConfig) : Bool :=
  match req.headers.get userAgentHeader with
  | some userAgent =>
    match headerToStr userAgent with
    | some userAgent =>
      if config.allow.any (containsText userAgent) then false
      else if config.deny.any (containsText userAgent) then true
      else config.patterns.any (fun pattern => (regex pattern).elim false (· userAgent))
    | none => false
  | none => config.emptyUserAgentIsBot

end Road7
