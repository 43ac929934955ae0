import TableGateway.Session

/-! The one handle that a whole program shares. Callers that ask for it take several steps, between which
others may take theirs: the cell is filled once, and whoever comes late closes the pool it built. -/
namespace TableGateway

structure Shared where
  pools : List Pool := []
  cell : Option Nat := none
  deriving DecidableEq, Repr

inductive Request
  | setUp (config : Configuration)
  | take (lookup : Text → Option Text)

inductive Turn
  | begin
  | build
  | publish (own : Nat)
  | abandon (own : Nat)
  | read
  | done (result : Except Fault Nat)

namespace Shared

def configuration : Request → Except Fault Configuration
  | .setUp config => config.validate
  | .take lookup => Configuration.ofLookup lookup

def closePool (s : Shared) (own : Nat) : Shared :=
  { s with pools := s.pools.modify own Pool.close }

def turn (s : Shared) (request : Request) : Turn → Turn × Shared × List Event
  | .begin =>
    match request, s.cell with
    | .take _, some i => (.done (.ok i), s, [])
    | _, _ => (.build, s, [])
  | .build =>
    match configuration request with
    | .error fault => (.done (.error fault), s, [])
    | .ok config =>
      let p : Pool := { config, listening := false, reaper := .dormant }
      (.publish s.pools.length, { s with pools := s.pools ++ [p] }, Session.createdEvents config .lazily)
  | .publish own =>
    if s.cell.isSome then (.abandon own, s, []) else (.read, { s with cell := some own }, [])
  | .abandon own =>
    let next : Turn := match request with
      | .setUp _ => .done (.error (.config .alreadyInitialized))
      | .take _ => .read
    (next, s.closePool own, [.poolClosed])
  | .read =>
    match s.cell with
    | some i => (.done (.ok i), s, [])
    | none => (.done (.error (.config .notInitialized)), s, [])
  | .done result => (.done result, s, [])

def complete (request : Request) : (fuel : Nat) → Turn → Shared → Except Fault Nat × Shared × List Event
  | _, .done result, s => (result, s, [])
  | 0, _, s => (.error (.config .notInitialized), s, [])
  | fuel + 1, t, s =>
    let (t, s, events) := s.turn request t
    let (result, s, more) := complete request fuel t s
    (result, s, events ++ more)

def call (s : Shared) (request : Request) : Except Fault Pool × Shared × List Event :=
  let (result, s, events) := complete request 5 .begin s
  let found := result.bind fun i =>
    match s.pools[i]? with
    | some p => .ok p
    | none => .error (.config .notInitialized)
  (found, s, events)

end Shared
end TableGateway
