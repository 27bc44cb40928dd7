import Mathlib.Data.Finset.Erase
import Mathlib.Data.Finset.Insert
import Tysel.Shared.Table

/-! The channels a request of a reused isolate reads and writes: its body, its socket, the bodies of
its outbound responses and its client socket. A channel is the number of the request it was
opened for. Every function is one region under the slot's lock. -/

namespace Tysel.Isolate

/-- A channel, by the number of the request it was opened for. -/
abbrev Channel := ℕ

abbrev OpId := ℕ

structure StreamSlot where
  inner : Option Channel := none
  generation : ℕ := 0

namespace StreamSlot

variable (slot : StreamSlot)

def install (rx : Channel) : StreamSlot := ⟨some rx, slot.generation + 1⟩

def clear : StreamSlot := ⟨none, slot.generation + 1⟩

def take : StreamSlot := { slot with inner := none }

/-- After a chunk the receiver goes back, unless the slot was cleared meanwhile. -/
def putBack (rx : Channel) (generation : ℕ) : StreamSlot :=
  if slot.generation = generation then { slot with inner := some rx } else slot

end StreamSlot

structure StreamRegistry where
  streams : Table ℕ Channel := ∅
  inFlight : Finset ℕ := ∅
  cancelled : Finset ℕ := ∅
  generation : ℕ := 0
  nextId : ℕ := 1

namespace StreamRegistry

variable (registry : StreamRegistry)

def clear (id : ℕ) : StreamRegistry :=
  match registry.streams.get? id with
  | some _ => { registry with streams := registry.streams.erase id }
  | none =>
    if id ∈ registry.inFlight then
      { registry with cancelled := insert id registry.cancelled }
    else registry

def clearAll : StreamRegistry :=
  { registry with
    generation := registry.generation + 1
    streams := ∅
    cancelled := ∅ }

def install (rx : Channel) : StreamRegistry :=
  { registry with
    nextId := registry.nextId + 1
    streams := registry.streams.insert registry.nextId rx }

/-- The receiver of a body is taken out while it is read. -/
def beginRead (id : ℕ) : StreamRegistry :=
  { registry with
    streams := registry.streams.erase id
    inFlight := insert id registry.inFlight }

/-- It goes back only after a chunk, and if the body was not cleared meanwhile. -/
def endRead (id : ℕ) (rx : Channel) (generation : ℕ) (chunk : Bool) : StreamRegistry :=
  let explicitlyCancelled := id ∈ registry.cancelled
  let rest := { registry with
    inFlight := registry.inFlight.erase id
    cancelled := registry.cancelled.erase id }
  if !chunk ∨ registry.generation ≠ generation ∨ explicitlyCancelled then rest
  else { rest with streams := rest.streams.insert id rx }

end StreamRegistry

structure ClientWebSocketSlot where
  generation : ℕ := 0
  connecting : Bool := false
  commands : Option Channel := none

namespace ClientWebSocketSlot

variable (slot : ClientWebSocketSlot)

def nextGeneration : ClientWebSocketSlot := { slot with generation := slot.generation + 1 }

def reset : ClientWebSocketSlot := { slot with connecting := false, commands := none }

def busy : Bool := slot.connecting || slot.commands.isSome

/-- The end of a connection attempt that failed. -/
def refuse (generation : ℕ) : ClientWebSocketSlot :=
  if slot.generation = generation then { slot with connecting := false } else slot

/-- The end of a connection attempt that succeeded. -/
def connect (tx : Channel) (generation : ℕ) : ClientWebSocketSlot :=
  if slot.generation ≠ generation then { slot with connecting := false }
  else { slot with connecting := false, commands := some tx }

end ClientWebSocketSlot

end Tysel.Isolate
