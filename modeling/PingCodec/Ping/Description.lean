import PingCodec.Hex.Encode
import PingCodec.Json
import PingCodec.Ping.Basic

/-!
# Describing PINGs

A PING is described in three lines: its sort, its payload in hex and the class of its payload.
-/

namespace PingCodec.Ping

/-- The lines that describe a PING. -/
def description (p : Ping) : List String :=
  [s!"ack: {Json.boolText p.ack}", s!"payload: {Hex.encode p.entries.toList}",
    s!"class: {p.entries.classify.text}"]

end PingCodec.Ping
