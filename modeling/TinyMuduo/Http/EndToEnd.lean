import TinyMuduo.Http.Response
import TinyMuduo.Http.Server

/-!
# Http.EndToEnd

From the requests of a client to the responses it reads.

The client sends a stream of requests, cut into segments of which each completes at most one. The
server parses them, calls `httpCallback_` and sends what `appendToBuffer` writes; after a response
that closes the connection `TcpConnection::send` does nothing. The client reads what comes back with
the `Reader` of `Http.Response`.
-/

namespace TinyMuduo

open Result Incremental HttpSession

/-- `httpCallback_` -/
abbrev HttpApp := HttpRequest → HttpResponse → HttpResponse

namespace HttpResponse

def bufferText : Buffer.Outcome Buffer → Str
  | .next buf => buf.readable
  | .threw _ | .fault _ => []

/-- What `conn->send(&buf)` gets. -/
def sentText (r : HttpResponse) : Str := bufferText (r.appendToBuffer .fresh)

end HttpResponse

/-- `app` as `onRequest` uses it. -/
def HttpApp.callback (app : HttpApp) : HttpCallback := fun q close =>
  let response := app q (.new close)
  (response.sentText, response.closeConnection)

namespace Reader

end Reader

end TinyMuduo
