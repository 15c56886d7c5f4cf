/-!
# Frame kinds

The frame types of HTTP/2 with the number that stands for each in a frame header.
-/

namespace PingCodec

/-- The type of a frame. -/
inductive FrameKind where
  | data
  | headers
  | priority
  | rstStream
  | settings
  | pushPromise
  | ping
  | goaway
  | windowUpdate
  | continuation
deriving DecidableEq

namespace FrameKind

/-- The frame types in the order of their numbers. -/
def all : List FrameKind :=
  [data, headers, priority, rstStream, settings, pushPromise, ping, goaway, windowUpdate,
    continuation]

def code : FrameKind → Nat
  | data => 0x0
  | headers => 0x1
  | priority => 0x2
  | rstStream => 0x3
  | settings => 0x4
  | pushPromise => 0x5
  | ping => 0x6
  | goaway => 0x7
  | windowUpdate => 0x8
  | continuation => 0x9

def ofCode? (code : Int) : Option FrameKind := all.find? fun k => k.code == code

def name : FrameKind → String
  | data => "DATA"
  | headers => "HEADERS"
  | priority => "PRIORITY"
  | rstStream => "RST_STREAM"
  | settings => "SETTINGS"
  | pushPromise => "PUSH_PROMISE"
  | ping => "PING"
  | goaway => "GOAWAY"
  | windowUpdate => "WINDOW_UPDATE"
  | continuation => "CONTINUATION"

end FrameKind

end PingCodec
