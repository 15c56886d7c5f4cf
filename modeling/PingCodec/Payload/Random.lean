import PingCodec.Payload.Class

/-!
# Random payloads

A keep-alive carries a random payload that must not be taken for a reserved one: reserved draws are
thrown away until an ordinary one comes.
-/

namespace PingCodec.Payload

/-- The first ordinary payload among the draws, with the number of draws up to and including it. -/
def firstOrdinary? : List Payload → Option (Payload × Nat)
  | [] => none
  | p :: rest =>
    if p.classify = .ordinary then some (p, 1)
    else (firstOrdinary? rest).map fun (q, n) => (q, n + 1)

end PingCodec.Payload
