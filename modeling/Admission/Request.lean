/-!
# Requests

What admission looks at in a request.
-/

namespace Admission

/-- The parts of a request that decide about its admission. -/
structure Request where
  /-- The method as it was received. -/
  method : String := "GET"
  /-- The path as it was received. -/
  path : String := "/"
  /-- The transport address of the peer, usually `host:port`. -/
  remoteAddr : String := ""
  /-- The value of the forwarded-for header, if there is one. -/
  forwardedFor : Option String := none
  deriving DecidableEq, Repr

end Admission
