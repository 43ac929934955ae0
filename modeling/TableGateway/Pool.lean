import TableGateway.Configuration
import TableGateway.Connection

/-! The pool of connections. Idle ones wait in a queue, and those in use are counted against the size of
the pool. A reaper closes idle connections at the ticks of its own clock. A closed pool lends nothing and
keeps nothing that comes back. -/
namespace TableGateway

structure Status where
  maxSize : Nat
  size : Nat
  available : Nat
  waiting : Nat
  deriving DecidableEq, Repr

namespace Status

def describe (s : Status) (closed : Bool) : Text :=
  let field (name : String) (n : Nat) : Text := name ++ ": " ++ Text.ofNat n
  "Database \x7b status: PoolStatus \x7b " ++
    Text.listed [field "max_size" s.maxSize, field "size" s.size, field "available" s.available,
      field "waiting" s.waiting] ++
    " \x7d, closed: " ++ (if closed then "true" else "false") ++ " \x7d"

end Status

/-- Ticks come at every full period since the start; the first one comes as soon as something waits. -/
inductive Reaper
  | absent
  | dormant
  | running (elapsed : Nat) (first : Bool)
  | ended
  deriving DecidableEq, Repr

/-- `now` is the clock by which idle ages are measured; the reaper has its own, which may run ahead of it.
Both count microseconds. Connections are numbered as they are opened. Whoever wants one is `pending` until it
is lent or refused. -/
structure Pool where
  config : Configuration
  listening : Bool
  reaper : Reaper
  idle : List Connection := []
  lent : List Connection := []
  pending : Nat := 0
  created : Nat := 0
  closed : Bool := false
  now : Nat := 0
  deriving DecidableEq, Repr

namespace Pool

def status (p : Pool) : Status :=
  { maxSize := if p.closed then 0 else p.config.maxSize
    size := p.idle.length + p.lent.length
    available := p.idle.length - p.pending
    waiting := p.pending - p.idle.length }

def describe (p : Pool) : Text := p.status.describe p.closed

def giveBack (p : Pool) (c : Connection) : Pool :=
  { p with
    lent := p.lent.filter fun other => other.id ≠ c.id
    idle := if p.closed then p.idle else p.idle ++ [c] }

def enter (p : Pool) : Pool := { p with pending := p.pending + 1 }

def leave (p : Pool) : Pool := { p with pending := p.pending - 1 }

def lend (p : Pool) (c : Connection) : Pool := { p.leave with lent := c :: p.lent }

def close (p : Pool) : Pool := { p with closed := true, idle := [] }

def period (p : Pool) : Nat := max (p.config.idleTimeout * 500) 1000000

def fresh (p : Pool) (c : Connection) : Bool := p.now - c.lastUsed < p.config.idleTimeout * 1000

def tick (p : Pool) : Pool × List Event :=
  match p.reaper with
  | .running elapsed _ =>
    if p.closed then ({ p with reaper := .ended }, [.reaperEnded])
    else
      let kept := p.idle.filter p.fresh
      let reaped := p.idle.length - kept.length
      ({ p with idle := kept, reaper := .running elapsed false },
        if reaped = 0 then [] else [.idleClosed reaped (kept.length + p.lent.length)])
  | _ => (p, [])

def settle (p : Pool) : Pool × List Event :=
  match p.reaper with
  | .running _ true => p.tick
  | _ => (p, [])

def ticks (p : Pool) : (count : Nat) → Pool × List Event
  | 0 => (p, [])
  | count + 1 =>
    let (p, events) := p.tick
    let (p, more) := ticks p count
    (p, events ++ more)

def advance (p : Pool) (duration : Nat) : Pool × List Event :=
  match p.reaper with
  | .running elapsed first =>
    let later := elapsed + duration
    { p with reaper := .running later first }.ticks (later / p.period - elapsed / p.period)
  | _ => (p, [])

def wake (p : Pool) : Pool × List Event :=
  match p.reaper with
  | .dormant => ({ p with reaper := .running 0 true }, [.reaperStarted])
  | _ => (p, [])

def takeIdle? (p : Pool) : Option (Connection × Pool) :=
  match p.idle.dropWhile fun c => !c.alive with
  | [] => none
  | c :: rest => some ({ c with lastUsed := p.now }, { p with idle := rest })

def connect (p : Pool) (script : Script) : Except BackendFault Connection × List Exchange × Pool :=
  let c := p.config
  if !p.listening then (.error .unreachable, [], p)
  else if [c.user, c.password, c.database].any Channel.unsendable then (.error .encoding, [], p)
  else
    let message := Message.connect c.user c.database c.password
    let next := { p with created := p.created + 1 }
    match script.connect with
    | some code => (.error (.server code), [⟨p.created, message, .refused code⟩], next)
    | none => (.ok { id := p.created, lastUsed := p.now }, [⟨p.created, message, .acknowledged⟩], next)

def checkout (p : Pool) (script : Script) : Except AcquireCause Connection × List Exchange × Pool :=
  let p := p.enter
  if p.closed then (.error .closed, [], p.leave)
  else if p.config.maxSize ≤ p.lent.length then (.error .timeout, [], p.leave)
  else
    match p.takeIdle? with
    | some (c, p) => (.ok c, [], p.lend c)
    | none =>
      match { p with idle := [] }.connect script with
      | (.ok c, exchanges, p) => (.ok c, exchanges, p.lend c)
      | (.error fault, exchanges, p) => (.error (.connect fault), exchanges, p.leave)

end Pool
end TableGateway
