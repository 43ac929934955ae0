import TableGateway.Pool
import TableGateway.Query.Call
import TableGateway.Run

/-! A database handle at work: a sequence of steps over one pool, each with the script by which the server
answers. Every step reports its outcome, what was exchanged and what was logged. A plan of several statements
runs in a transaction; whatever comes of a plan, its connection goes back to the pool. A query that stops the
program has no envelope; its transaction is rolled back on the way out. -/
namespace TableGateway

structure Lease where
  channel : Channel
  pool : Pool
  events : List Event := []
  deriving DecidableEq, Repr

namespace Lease

def emit (event : Event) (l : Lease) : Lease := { l with events := l.events ++ [event] }

def settle (l : Lease) : Lease :=
  let (pool, events) := l.pool.settle
  { l with pool, events := l.events ++ events }

def query (statement : Statement) (l : Lease) : Except Fault Output × Lease :=
  let l := if Channel.unsendable statement.sql then l else l.settle
  let (result, channel) := l.channel.query statement
  (result, { l with channel })

def client : Client Lease := ⟨emit, query⟩

def command (l : Lease) (run : Channel → Except BackendFault Unit × Channel) :
    Except BackendFault Unit × Lease :=
  let l := l.settle
  let (result, channel) := run l.channel
  (result, { l with channel })

/-- A transaction that cannot begin is rolled back all the same, whatever comes of it. -/
def begin (l : Lease) : Except Fault Unit × Lease :=
  match l.command Channel.begin with
  | (.ok (), l) => (.ok (), l)
  | (.error fault, l) => (.error (.query fault), (l.command Channel.rollback).2)

def finish (plan : Plan) (result : Except Halt Output) (l : Lease) : Except Halt Output × Lease :=
  match result with
  | .ok output =>
    match l.command Channel.commit with
    | (.ok (), l) => (.ok output, l)
    | (.error fault, l) => (.error (.fault (.query fault)), l)
  | .error (.fault fault) =>
    match l.command Channel.rollback with
    | (.ok (), l) => (.error (.fault fault), l)
    | (.error failed, l) => (.error (.fault fault), l.emit (.rollbackFailed plan.table failed))
  | .error .overflow => (.error .overflow, (l.command Channel.rollback).2)

def execute (plan : Plan) (l : Lease) : Except Halt Output × Lease :=
  if plan.needsTransaction then
    match l.begin with
    | (.error fault, l) => (.error (.fault fault), l)
    | (.ok (), l) =>
      let (result, l) := plan.run client l
      finish plan result l
  else plan.run client l

def answer (statement : Statement) (l : Lease) : Except Halt Output × Lease :=
  ((l.query statement).1.mapError .fault, (l.query statement).2)

end Lease

inductive Step
  | query (query : Query) (script : Script)
  | raw (statement : Statement) (script : Script)
  | status
  | describe
  | close
  | hold (script : Script)
  | release
  | advance (duration : Nat)
  | elapse (duration : Nat)
  deriving DecidableEq, Repr

inductive Outcome
  | envelope (e : Envelope)
  | text (t : Text)
  | fault (f : Fault)
  | stopped
  | done
  deriving DecidableEq, Repr

structure Report where
  outcome : Outcome
  exchanges : List Exchange
  status : Status
  events : List Event
  deriving DecidableEq, Repr

namespace Session

structure Progress (α : Type) where
  result : α
  pool : Pool
  exchanges : List Exchange := []
  events : List Event := []

def withConnection {α : Type} (p : Pool) (script : Script)
    (run : Lease → Except Halt α × Lease) : Progress (Except Halt α) :=
  match p.checkout script with
  | (.error cause, exchanges, p) => { result := .error (.fault (.acquire cause)), pool := p, exchanges }
  | (.ok c, exchanges, p) =>
    let (result, l) := run ⟨⟨c, script, exchanges⟩, p, []⟩
    { result
      pool := l.pool.giveBack l.channel.connection
      exchanges := l.channel.exchanges
      events := l.events }

def enclose {α : Type} (table : Option Text) (wrap : α → Envelope) (x : Progress (Except Halt α)) :
    Progress Outcome :=
  match x.result with
  | .ok a => { result := .envelope (wrap a), pool := x.pool, exchanges := x.exchanges, events := x.events }
  | .error (.fault fault) =>
    { result := .envelope (.failure fault)
      pool := x.pool
      exchanges := x.exchanges
      events := x.events ++ [.queryFailed table fault] }
  | .error .overflow => { result := .stopped, pool := x.pool, exchanges := x.exchanges, events := x.events }

def logged {α : Type} (events : List Event) (x : Progress α) : Progress α :=
  { x with events := events ++ x.events }

def runPlan (p : Pool) (plan : Plan) (script : Script) : Progress Outcome :=
  let (p, started) := p.wake
  logged started <|
    if plan.statements.isEmpty then { result := .envelope (.ofOutput plan {}), pool := p }
    else enclose (some plan.table) (.ofOutput plan) (withConnection p script (Lease.execute plan))

def runQuery (p : Pool) (q : Query) (script : Script) : Progress Outcome :=
  match q.plan with
  | .error (.fault fault) =>
    { result := .envelope (.failure fault), pool := p, events := [.queryFailed (some q.table) fault] }
  | .error .overflow => { result := .stopped, pool := p }
  | .ok plan => runPlan p plan script

def runRaw (p : Pool) (statement : Statement) (script : Script) : Progress Outcome :=
  let (p, started) := p.wake
  logged (started ++ [.rawQuery statement.params.length statement.sql]) <|
    enclose none .ofRows (withConnection p script (Lease.answer statement))

def hold (p : Pool) (script : Script) : Progress Outcome :=
  match p.checkout script with
  | (.error cause, exchanges, p) => { result := .fault (.acquire cause), pool := p, exchanges }
  | (.ok _, exchanges, p) => { result := .done, pool := p, exchanges }

def release (p : Pool) : Pool :=
  match p.lent with
  | [] => p
  | c :: _ => p.giveBack c

def act (p : Pool) : Step → Progress Outcome
  | .query q script => runQuery p q script
  | .raw statement script => runRaw p statement script
  | .status => { result := .done, pool := p }
  | .describe => { result := .text p.describe, pool := p }
  | .close => { result := .done, pool := p.close, events := [.poolClosed] }
  | .hold script => hold p script
  | .release => { result := .done, pool := release p }
  | .advance duration =>
    let (p, events) := p.advance duration
    { result := .done, pool := p, events }
  | .elapse duration => { result := .done, pool := { p with now := p.now + duration } }

def step (p : Pool) (s : Step) : Report × Pool :=
  let x := act p s
  let (p, events) := x.pool.settle
  (⟨x.result, x.exchanges, p.status, x.events ++ events⟩, p)

def steps (p : Pool) : List Step → List Report × Pool
  | [] => ([], p)
  | s :: rest =>
    let (report, p) := step p s
    let (reports, p) := steps p rest
    (report :: reports, p)

end Session

/-- How a handle comes to be: with a reaper from the start, with one that waits for the first query, or
around a pool of its caller's, which is left to itself. -/
inductive Mode
  | connected
  | lazily
  | wrapped
  deriving DecidableEq, Repr

namespace Session

def createdEvents (config : Configuration) : Mode → List Event
  | .wrapped => []
  | mode => [.poolCreated config.host config.port config.database config.maxSize (mode = .connected)]

def start (mode : Mode) (config : Configuration) (listening : Bool) : Except Fault (Report × Pool) :=
  config.validate.map fun config =>
    let reaper : Reaper := match mode with
      | .connected => .running 0 false
      | .lazily => .dormant
      | .wrapped => .absent
    let p : Pool := { config, listening, reaper }
    (⟨.done, [], p.status, createdEvents config mode⟩, p)

end Session
end TableGateway
