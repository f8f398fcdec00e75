import TinyMuduo.Conn.Stream

/-!
# Conn.FlowControl

Which flow-control callbacks `sendInLoop` and `handleWrite` queue. Both are functions of the number
of unsent bytes before and after the step: the high water mark callback is queued when the number
reaches the mark from below, the write complete callback when the last byte is gone.
-/

namespace TinyMuduo
namespace TcpConnection

open Buffer Result

variable {c c' : TcpConnection} {es : List Effect} {data : List Byte} {w : Write}

/-- The argument of a high water mark callback. -/
def Effect.highWater : Effect → Option Nat
  | .queueInLoop (.highWaterMark len) => some len
  | _ => none

/-- The number of unsent bytes. -/
def unsent (c : TcpConnection) : Nat := c.outputBuffer.readableBytes

end TcpConnection
end TinyMuduo
