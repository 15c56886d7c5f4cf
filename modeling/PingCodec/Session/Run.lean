import PingCodec.Ping.Frame
import PingCodec.Session.Step

/-!
# Running a session

Each step of a session is taken on the store that the steps before it left behind.  A step that fails
breaks off where it is, and the next one goes on from there.
-/

namespace PingCodec.Session

/-! ## Effects -/

/-- What comes of a step that does not fail. -/
structure Effect where
  reply : Reply
  store : Store
  events : List Event := []

/-- What a step leaves behind where it breaks off. -/
structure Breakdown where
  failure : Failure
  store : Store
  events : List Event := []

/-! ## Looking things up -/

def lookup {α : Type} (bindings : Bindings α) (name : String) : Except Failure α :=
  match bindings.find? name with
  | some x => .ok x
  | none => .error (.unbound name)

/-- A frame that is refused fails the step. -/
def orFrame {α : Type} (x : Except FrameError α) : Except Failure α := x.mapError .frame

def Failure.ofPing : PingError → Failure
  | .frame e => frame e
  | .entry e => entry e

def orPing {α : Type} (x : Except PingError α) : Except Failure α := x.mapError .ofPing

def orEntry {α : Type} (x : Except EntryError α) : Except Failure α := x.mapError .entry

namespace Store

/-! ## Taking a step -/

def lookupPing (s : Store) (name : String) : Except Failure Ping := (lookup s.pings name).map s.ping

/-- The entries that a source stands for. -/
def sourceEntries (s : Store) : Source → Except Failure Entries
  | .entries a => .ok a
  | .array name => do return (s.numberArray (← lookup s.arrays name)).entries

/-- Go on with what comes of looking at the store, or else break off. -/
def attempt {α : Type} (s : Store) (x : Except Failure α) : Except Breakdown α :=
  x.mapError fun failure => { failure, store := s }

/-- Write a header to a byte array; where that breaks off, its buffer is left with what was stored by
then. -/
def writeHead (s : Store) (r : ByteRef) (h : Head) (length offset : Number) :
    Except Breakdown Store :=
  match (h.put length (s.view r) offset).run (s.view r).buffer with
  | (.ok (), content) => .ok (s.setBuffer r.buffer content)
  | (.error e, content) =>
    .error { failure := .write e, store := s.setBuffer r.buffer content }

def step (s : Store) : Step → Except Breakdown Effect
  | .array name a => .ok { reply := .entries a, store := s.bindArray name ⟨a, false⟩ }
  | .arraySet name index value => do
    let n ← s.attempt (lookup s.arrays name)
    let a := s.numberArray n
    if a.frozen then .error { failure := .frozen index, store := s }
    else
      let entries := a.entries.set index.val value index.isLt
      return { reply := .entries entries, store := s.setArray n ⟨entries, false⟩ }
  | .arrayGet name => do
    let n ← s.attempt (lookup s.arrays name)
    return { reply := .entries (s.numberArray n).entries, store := s }
  | .bytes name content => .ok { reply := .bytes content, store := s.allocate name content }
  | .bytesView name target first last => do
    let r ← s.attempt (lookup s.bytes target)
    let v := (s.view r).slice first last
    return { reply := .bytes v.toBytes, store := s.bindBytes name ⟨r.buffer, v.start, v.length⟩ }
  | .bytesSet name index value => do
    let r ← s.attempt (lookup s.bytes name)
    let after := s.setBuffer r.buffer ((s.view r).set index value.toByte)
    return { reply := .bytes (after.view r).toBytes, store := after }
  | .bytesGet name => do
    let r ← s.attempt (lookup s.bytes name)
    return { reply := .bytes (s.view r).toBytes, store := s }
  | .fromBytes array bytes => do
    let r ← s.attempt (lookup s.bytes bytes)
    let p ← s.attempt (orFrame (Payload.ofView (s.view r)))
    return { reply := .entries p.entries, store := s.bindArray array ⟨p.entries, false⟩ }
  | .make ack name source => do
    let a ← s.attempt (s.sourceEntries source)
    let p ← s.attempt (orEntry (Ping.ofEntries ack a))
    return { reply := .ping p, store := s.bindPing name p }
  | .load name head bytes => do
    let r ← s.attempt (lookup s.bytes bytes)
    let p ← s.attempt (orPing (Ping.load head (s.view r)))
    return { reply := .ping p, store := s.bindPing name p }
  | .decode name bytes => do
    let r ← s.attempt (lookup s.bytes bytes)
    let p ← s.attempt (orPing (Ping.ofFrame (s.view r)))
    return { reply := .ping p, store := s.bindPing name p }
  | .inspect name => do
    let p ← s.attempt (s.lookupPing name)
    return { reply := .ping p, store := s }
  | .payloadOf name array => do
    let r ← s.attempt (lookup s.pings name)
    return { reply := .entries (s.ping r).entries, store := s.shareArray array r.array }
  | .intoPayload name bytes => do
    let p ← s.attempt (s.lookupPing name)
    return { reply := .bytes p.payloadBytes, store := s.allocate bytes p.payloadBytes }
  | .equals left right => do
    let p ← s.attempt (s.lookupPing left)
    let q ← s.attempt (s.lookupPing right)
    return { reply := .truth (p.equals q), store := s }
  | .encode name sink => do
    let p ← s.attempt (s.lookupPing name)
    let (state, events) := p.encode s.log (s.sink sink)
    return { reply := .sink state, store := s.bindSink sink state, events }
  | .encodePing name bytes => do
    let p ← s.attempt (s.lookupPing name)
    let (frame, events) := p.toFrame s.log
    return { reply := .bytes frame, store := s.allocate bytes frame, events }
  | .put sink bytes => do
    let r ← s.attempt (lookup s.bytes bytes)
    let state := (s.sink sink).put (s.view r).toBytes
    return { reply := .sink state, store := s.bindSink sink state }
  | .contents sink => .ok { reply := .bytes (s.sink sink).toBytes, store := s.openSink sink }
  | .take sink bytes =>
    let content := (s.sink sink).toBytes
    .ok { reply := .bytes content, store := (s.openSink sink).allocate bytes content }
  | .size sink => .ok { reply := .count (s.sink sink).size, store := s.openSink sink }
  | .clear sink =>
    let state := (s.sink sink).clear
    .ok { reply := .sink state, store := s.bindSink sink state }
  | .writeHead bytes head length offset => do
    let r ← s.attempt (lookup s.bytes bytes)
    let after ← s.writeHead r head length offset
    return { reply := .bytes (after.view r).toBytes, store := after }
  | .parseHead bytes => do
    let r ← s.attempt (lookup s.bytes bytes)
    let parsed ← s.attempt (orFrame (ParsedHead.ofView (s.view r)))
    return { reply := .head parsed, store := s }
  | .debug on => .ok { reply := .truth on, store := { s with log := ⟨on⟩ } }

end Store

/-! ## Runs -/

/-- What a session answers to one step. -/
structure Answer where
  result : Except Failure Reply
  events : List Event

namespace Store

/-- The store after a step, and the answer. -/
def advance (s : Store) (step : Step) : Store × Answer :=
  match s.step step with
  | .ok effect => (effect.store, ⟨.ok effect.reply, effect.events⟩)
  | .error b => (b.store, ⟨.error b.failure, b.events⟩)

/-- The store after a series of steps, and the answers. -/
def run (s : Store) : List Step → Store × List Answer
  | [] => (s, [])
  | step :: rest =>
    let (next, answer) := s.advance step
    let (last, answers) := run next rest
    (last, answer :: answers)

end Store

end PingCodec.Session
