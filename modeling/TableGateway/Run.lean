import TableGateway.Envelope
import TableGateway.Event

/-! Running the statements of a plan one after the other, up to the first that fails or whose count no longer
fits. -/
namespace TableGateway

structure Client (σ : Type) where
  emit : Event → σ → σ
  query : Statement → σ → Except Fault Output × σ

namespace Plan

def runFrom {σ : Type} (client : Client σ) (p : Plan) (output : Output) :
    List Statement → σ → Except Halt Output × σ
  | [], s => (.ok output, s)
  | statement :: rest, s =>
    let s := client.emit (.statement p.action p.table statement.params.length statement.sql) s
    match client.query statement s with
    | (.error fault, s) => (.error (.fault fault), s)
    | (.ok part, s) =>
      match output.append part with
      | some output => runFrom client p output rest s
      | none => (.error .overflow, s)

def run {σ : Type} (client : Client σ) (p : Plan) (s : σ) : Except Halt Output × σ :=
  runFrom client p {} p.statements s

end Plan

structure Recorder where
  answers : List (Except Fault Output)
  seen : List Statement := []
  events : List Event := []

namespace Recorder

def query (statement : Statement) (r : Recorder) : Except Fault Output × Recorder :=
  let next := { r with seen := r.seen ++ [statement], answers := r.answers.drop 1 }
  (r.answers.head?.getD (.ok {}), next)

def client : Client Recorder where
  emit event r := { r with events := r.events ++ [event] }
  query := query

end Recorder
end TableGateway
