import Tysel.Shared.Run

/-! `new Request(request)` reads the same host stream as its input, with flags of its own. A request
with a body of its own does not read the stream. -/

namespace Tysel.Web

/-- The state of a stream; cancelling closes it. -/
inductive StreamState where
  | readable | closed | errored
  deriving DecidableEq

/-- The body of a `Request` and its stream; `consuming` while `consumeBytes` reads it. -/
structure RequestBody where
  used : Bool := false
  locked : Bool := false
  consuming : Bool := false
  state : StreamState := .readable
  collected : List UInt8 := []
  deriving DecidableEq

/-- The requests of one family, and the chunks that the host still delivers before the end. -/
structure RequestFamily where
  bodies : List RequestBody := [{}]
  inbound : List (List UInt8)

inductive BodyInput where
  /-- `new Request` of a request. -/
  | construct (i : ℕ)
  /-- `text`, `json`, `bytes` or `arrayBuffer` is called. -/
  | consume (i : ℕ)
  | getReader (i : ℕ)
  | releaseLock (i : ℕ)
  | cancel (i : ℕ)
  /-- A reader of the body, that of `consumeBytes` or another one, reads. -/
  | read (i : ℕ) (fails : Bool)

namespace RequestFamily

variable (s : RequestFamily)

def update (i : ℕ) (f : RequestBody → RequestBody) : RequestFamily :=
  { s with bodies := s.bodies.modify i f }

/-- The output is what is reported as the whole body. -/
def step : BodyInput → Option (List UInt8) × RequestFamily
  | .construct i =>
    if s.bodies[i]?.any fun b => !(b.used || b.locked) then
      (none, { s with bodies := s.bodies ++ [{}] })
    else (none, s)
  | .consume i => (none, s.update i fun b =>
      if b.used || b.locked then b else { b with locked := true, consuming := true })
  | .getReader i => (none, s.update i ({ · with locked := true }))
  | .releaseLock i => (none, s.update i fun b => { b with locked := b.consuming })
  | .cancel i =>
    if s.bodies[i]?.any fun b => !b.consuming && b.state = .readable then
      (none, { s.update i ({ · with used := true, state := .closed }) with inbound := [] })
    else (none, s)
  | .read i fails =>
    match s.bodies[i]? with
    | none => (none, s)
    | some b =>
      let ended (state : StreamState) := s.update i fun b =>
        { b with used := true, state, locked := b.locked && !b.consuming, consuming := false }
      if b.locked = false then (none, s)
      else
        match b.state, fails, s.inbound with
        | .errored, _, _ => (none, s)
        | .closed, _, _ => (some b.collected, s)
        | .readable, true, _ => (none, { ended .errored with inbound := [] })
        | .readable, false, [] => (some b.collected, ended .closed)
        | .readable, false, chunk :: rest =>
          (none, { s.update i ({ · with used := true, collected := b.collected ++ chunk }) with
            inbound := rest })

end RequestFamily

end Tysel.Web
