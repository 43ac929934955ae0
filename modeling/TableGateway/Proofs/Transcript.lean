import TableGateway.Session
import Mathlib.Data.List.Forall2

/-! What goes over a connection while statements run on it, told from the server's script alone. A statement
is prepared, its values are bound once their number and their types fit, and its rows are read; the first
statement that fails, or whose count no longer fits, ends the run. -/
namespace TableGateway

abbrev Sent := List (Message × Answer)

def Sent.over (connection : Nat) (sent : Sent) : List Exchange :=
  sent.map fun (message, answer) => ⟨connection, message, answer⟩

theorem overAppend (connection : Nat) (sent more : Sent) :
    (sent ++ more).over connection = sent.over connection ++ more.over connection := List.map_append

def Sent.lost (sent : Sent) : Bool := sent.any fun x => x.2 = .dropped

namespace Transcript

def Passes {α β ε : Type} (f : α → Except ε β) (xs : List α) (ys : List β) : Prop :=
  List.Forall₂ (fun x y => f x = .ok y) xs ys

inductive Stops {α β ε : Type} (f : α → Except ε β) : List α → Nat → ε → Prop
  | here {x : α} {rest : List α} {fault : ε} (failed : f x = .error fault) : Stops f (x :: rest) 0 fault
  | later {x : α} {y : β} {rest : List α} {i : Nat} {fault : ε} (passed : f x = .ok y)
      (stops : Stops f rest i fault) : Stops f (x :: rest) (i + 1) fault

inductive Collected (reply : Reply) : Except Fault Output → Prop
  | undecodable {i : Nat} {fault : Fault} (stops : Stops (Row.decode reply.columns) reply.rows i fault) :
      Collected reply (.error fault)
  | refused {records : List Record} {stage : Stage} {code : Text}
      (decoded : Passes (Row.decode reply.columns) reply.rows records)
      (error : reply.error = some (stage, code)) : Collected reply (.error (.query (.server code)))
  | completed {records : List Record} (decoded : Passes (Row.decode reply.columns) reply.rows records)
      (error : reply.error = none) : Collected reply (.ok ⟨records, reply.affected⟩)

inductive Verdict (reply : Reply) : Answer → Prop
  | refused {stage : Stage} {code : Text} (error : reply.error = some (stage, code)) :
      Verdict reply (.refused code)
  | completed (error : reply.error = none) : Verdict reply .completed

def bound (pair : Value × DataType) : Binding.Result := Binding.bind pair.1 pair.2

inductive Execution (params : List Value) (reply : Reply) : Sent → Except Fault Output → Prop
  | miscounted (uneven : reply.params.length ≠ params.length) :
      Execution params reply [] (.error (.query (.parameterCount reply.params.length params.length)))
  | unfit {i : Nat} {cause : BindFault} (even : reply.params.length = params.length)
      (stops : Stops bound (params.zip reply.params) i cause) :
      Execution params reply [] (.error (.query (.parameter i)))
  | lost {bytes : List (Option Bytes)} (even : reply.params.length = params.length)
      (fits : Passes bound (params.zip reply.params) bytes)
      (drop : reply.drop = some .execute) :
      Execution params reply [(.bind bytes, .dropped)] (.error (.query .closed))
  | answered {bytes : List (Option Bytes)} {answer : Answer} {result : Except Fault Output}
      (even : reply.params.length = params.length)
      (fits : Passes bound (params.zip reply.params) bytes)
      (kept : reply.drop ≠ some .execute) (verdict : Verdict reply answer)
      (collected : Collected reply result) : Execution params reply [(.bind bytes, answer)] result

inductive Attempt (s : Statement) (reply : Reply) : Sent → Except Fault Output → Prop
  | lost (drop : reply.drop = some .prepare) :
      Attempt s reply [(.prepare s.sql, .dropped)] (.error (.query .closed))
  | refused {code : Text} (kept : reply.drop ≠ some .prepare) (error : reply.error = some (.prepare, code)) :
      Attempt s reply [(.prepare s.sql, .refused code)] (.error (.query (.server code)))
  | prepared {sent : Sent} {result : Except Fault Output} (kept : reply.drop ≠ some .prepare)
      (accepted : ∀ code, reply.error ≠ some (.prepare, code))
      (executed : Execution s.params reply sent result) :
      Attempt s reply ((.prepare s.sql, .acknowledged) :: sent) result

/-- What is sent behind the statements that gave the first output, and what comes of all. A text that holds a zero
character is not sent, and takes no reply. Replies that run out are blank. -/
inductive Statements : Output → List Statement → List Reply → Sent → Except Halt Output → Prop
  | done (output : Output) (replies : List Reply) : Statements output [] replies [] (.ok output)
  | unsendable {output : Output} {s : Statement} {rest : List Statement} {replies : List Reply}
      (zero : '\x00' ∈ s.sql) : Statements output (s :: rest) replies [] (.error (.fault (.query .encoding)))
  | failed {output : Output} {s : Statement} {rest : List Statement} {replies : List Reply} {sent : Sent}
      {fault : Fault} (clean : '\x00' ∉ s.sql) (attempt : Attempt s (replies.headD {}) sent (.error fault)) :
      Statements output (s :: rest) replies sent (.error (.fault fault))
  | overflow {output part : Output} {s : Statement} {rest : List Statement} {replies : List Reply} {sent : Sent}
      (clean : '\x00' ∉ s.sql) (attempt : Attempt s (replies.headD {}) sent (.ok part))
      (excess : output.append part = none) : Statements output (s :: rest) replies sent (.error .overflow)
  | next {output part total : Output} {s : Statement} {rest : List Statement} {replies : List Reply}
      {sent more : Sent} {result : Except Halt Output} (clean : '\x00' ∉ s.sql)
      (attempt : Attempt s (replies.headD {}) sent (.ok part)) (joined : output.append part = some total)
      (others : Statements total rest replies.tail more result) :
      Statements output (s :: rest) replies (sent ++ more) result

variable {α β ε : Type} {f : α → Except ε β}

theorem passesOrStops (f : α → Except ε β) (xs : List α) :
    (∃ ys, Passes f xs ys) ∨ ∃ i fault, Stops f xs i fault := by
  induction xs with
  | nil => exact .inl ⟨[], .nil⟩
  | cons x rest ih =>
    cases tried : f x with
    | error fault => exact .inr ⟨0, fault, .here tried⟩
    | ok y =>
      rcases ih with ⟨ys, passes⟩ | ⟨i, fault, stops⟩
      · exact .inl ⟨y :: ys, .cons tried passes⟩
      · exact .inr ⟨i + 1, fault, .later tried stops⟩

theorem parametersCons (index : Nat) (pair : Value × DataType) (rest : List (Value × DataType)) :
    Channel.parameters index (pair :: rest) = match bound pair with
      | .error _ => .error (.parameter index)
      | .ok bytes => (Channel.parameters (index + 1) rest).map (bytes :: ·) := rfl

theorem parametersPass {pairs : List (Value × DataType)} {bytes : List (Option Bytes)}
    (passes : Passes bound pairs bytes) (index : Nat) : Channel.parameters index pairs = .ok bytes := by
  induction passes generalizing index with
  | nil => rfl
  | cons passed _ ih =>
    rw [parametersCons, passed, ih]
    rfl

theorem parametersStop {pairs : List (Value × DataType)} {i : Nat} {cause : BindFault}
    (stops : Stops bound pairs i cause) (index : Nat) :
    Channel.parameters index pairs = .error (.parameter (index + i)) := by
  induction stops generalizing index with
  | here failed =>
    rw [parametersCons, failed]
    rfl
  | later passed _ ih =>
    rw [parametersCons, passed, ih, Nat.add_assoc, Nat.add_comm 1]
    rfl

theorem rowsPass {columns : List Column} {rows : List (List (Option Bytes))} {records : List Record}
    (passes : Passes (Row.decode columns) rows records) : Channel.decodeRows columns rows = .ok records := by
  induction passes with
  | nil => rfl
  | cons passed _ ih =>
    unfold Channel.decodeRows
    rw [passed, ih]
    rfl

theorem rowsStop {columns : List Column} {rows : List (List (Option Bytes))} {i : Nat} {fault : Fault}
    (stops : Stops (Row.decode columns) rows i fault) : Channel.decodeRows columns rows = .error fault := by
  induction stops with
  | here failed =>
    unfold Channel.decodeRows
    rw [failed]
    rfl
  | later passed _ ih =>
    unfold Channel.decodeRows
    rw [passed, ih]
    rfl

theorem collectedResult {reply : Reply} {result : Except Fault Output} (collected : Collected reply result) :
    Channel.collect reply = result := by
  unfold Channel.collect
  cases collected with
  | undecodable stops =>
    rw [rowsStop stops]
    rfl
  | refused decoded error =>
    rw [rowsPass decoded, error]
    rfl
  | completed decoded error =>
    rw [rowsPass decoded, error]
    rfl

theorem collectedExists (reply : Reply) : ∃ result, Collected reply result := by
  rcases passesOrStops (Row.decode reply.columns) reply.rows with ⟨records, passes⟩ | ⟨i, fault, stops⟩
  · cases error : reply.error with
    | none => exact ⟨_, .completed passes error⟩
    | some refusal => exact ⟨_, .refused passes error⟩
  · exact ⟨_, .undecodable stops⟩

theorem executionExists (params : List Value) (reply : Reply) :
    ∃ sent result, Execution params reply sent result := by
  by_cases even : reply.params.length = params.length
  · rcases passesOrStops bound (params.zip reply.params) with ⟨bytes, passes⟩ | ⟨i, cause, stops⟩
    · by_cases drop : reply.drop = some .execute
      · exact ⟨_, _, .lost even passes drop⟩
      · obtain ⟨result, collected⟩ := collectedExists reply
        cases error : reply.error with
        | none => exact ⟨_, _, .answered even passes drop (.completed error) collected⟩
        | some refusal => exact ⟨_, _, .answered even passes drop (.refused error) collected⟩
    · exact ⟨_, _, .unfit even stops⟩
  · exact ⟨_, _, .miscounted even⟩

theorem attemptExists (s : Statement) (reply : Reply) : ∃ sent result, Attempt s reply sent result := by
  by_cases drop : reply.drop = some .prepare
  · exact ⟨_, _, .lost drop⟩
  · by_cases error : ∃ code, reply.error = some (.prepare, code)
    · obtain ⟨code, error⟩ := error
      exact ⟨_, _, .refused drop error⟩
    · obtain ⟨sent, result, executed⟩ := executionExists s.params reply
      exact ⟨_, _, .prepared drop (fun code refused => error ⟨code, refused⟩) executed⟩

end Transcript

namespace Channel

open Transcript

def sending (c : Channel) (sent : Sent) : Channel := sent.foldl (fun c x => c.send x.1 x.2) c

structure Sends (c : Channel) (sent : Sent) (d : Channel) : Prop where
  exchanges : d.exchanges = c.exchanges ++ sent.over c.connection.id
  id : d.connection.id = c.connection.id
  alive : d.connection.alive = (c.connection.alive && !sent.lost)
  begin : d.script.begin = c.script.begin
  commit : d.script.commit = c.script.commit
  rollback : d.script.rollback = c.script.rollback

theorem sendsNothing (c : Channel) : c.Sends [] c :=
  ⟨(List.append_nil _).symm, rfl, (Bool.and_true _).symm, rfl, rfl, rfl⟩

theorem sendsOne (c : Channel) (message : Message) (answer : Answer) :
    c.Sends [(message, answer)] (c.send message answer) where
  exchanges := rfl
  id := rfl
  alive := by simp only [send, Sent.lost, List.any_cons, List.any_nil, Bool.or_false, decide_not]
  begin := rfl
  commit := rfl
  rollback := rfl

theorem Sends.trans {c d e : Channel} {sent more : Sent} (first : c.Sends sent d) (second : d.Sends more e) :
    c.Sends (sent ++ more) e where
  exchanges := by
    rw [second.exchanges, first.exchanges, first.id, overAppend, List.append_assoc]
  id := second.id.trans first.id
  alive := by
    rw [second.alive, first.alive, Sent.lost, Sent.lost, Sent.lost, List.any_append, Bool.not_or,
      Bool.and_assoc]
  begin := second.begin.trans first.begin
  commit := second.commit.trans first.commit
  rollback := second.rollback.trans first.rollback

theorem sendsAll (c : Channel) (sent : Sent) : c.Sends sent (c.sending sent) := by
  induction sent generalizing c with
  | nil => exact sendsNothing c
  | cons x rest ih => exact (sendsOne c x.1 x.2).trans (ih (c.send x.1 x.2))

theorem sendingScript (c : Channel) (sent : Sent) : (c.sending sent).script = c.script := by
  induction sent generalizing c with
  | nil => rfl
  | cons x rest ih => exact ih (c.send x.1 x.2)

theorem sendingUnique {c : Channel} {sent more : Sent} (same : c.sending sent = c.sending more) :
    sent = more := by
  have exchanges := congrArg Channel.exchanges same
  rw [(sendsAll c sent).exchanges, (sendsAll c more).exchanges] at exchanges
  refine List.map_injective_iff.mpr ?_ (List.append_cancel_left exchanges)
  rintro ⟨message, answer⟩ ⟨message', answer'⟩ equal
  cases equal
  rfl

theorem executeSends (c : Channel) {reply : Reply} {params : List Value} {sent : Sent}
    {result : Except Fault Output} (executed : Execution params reply sent result) :
    c.execute reply params = (result, c.sending sent) := by
  unfold execute
  cases executed with
  | miscounted uneven =>
    rw [if_pos uneven]
    rfl
  | unfit even stops =>
    rw [if_neg (not_not_intro even), parametersStop stops, Nat.zero_add]
    rfl
  | lost even fits drop =>
    rw [if_neg (not_not_intro even), parametersPass fits]
    dsimp only
    rw [if_pos drop]
    rfl
  | answered even fits kept verdict collected =>
    rw [if_neg (not_not_intro even), parametersPass fits, collectedResult collected]
    dsimp only
    rw [if_neg kept]
    cases verdict with
    | refused error =>
      rw [error]
      rfl
    | completed error =>
      rw [error]
      rfl

theorem unsendableZero (t : Text) : unsendable t = true ↔ '\x00' ∈ t := List.contains_iff_mem

theorem queryUnsendable (c : Channel) {s : Statement} (zero : '\x00' ∈ s.sql) :
    c.query s = (.error (.query .encoding), c) := by
  unfold query
  rw [if_pos ((unsendableZero _).mpr zero)]

theorem querySends {c : Channel} {s : Statement} (clean : '\x00' ∉ s.sql) {sent : Sent}
    {result : Except Fault Output} (attempt : Attempt s (c.script.replies.headD {}) sent result) :
    c.query s = (result, c.nextReply.2.sending sent) := by
  have head : c.nextReply.1 = c.script.replies.headD {} := List.headD_eq_head?_getD.symm
  unfold query
  rw [if_neg (fun zero => clean ((unsendableZero _).mp zero))]
  rw [← head] at attempt
  generalize c.nextReply = next at *
  obtain ⟨reply, d⟩ := next
  dsimp only at attempt ⊢
  cases attempt with
  | lost drop =>
    rw [drop]
    rfl
  | refused kept error =>
    split
    · rename_i drop
      exact absurd drop kept
    · rename_i found _
      cases found.symm.trans error
      rfl
    · rename_i accepted
      exact absurd error (accepted _)
  | prepared kept accepted executed =>
    split
    · rename_i drop
      exact absurd drop kept
    · rename_i found _
      exact absurd found (accepted _)
    · exact executeSends _ executed

theorem queryTranscript (c : Channel) {s : Statement} (clean : '\x00' ∉ s.sql) :
    ∃ sent, Attempt s (c.script.replies.headD {}) sent (c.query s).1 ∧ c.Sends sent (c.query s).2 ∧
      (c.query s).2.script.replies = c.script.replies.tail := by
  have taken : c.Sends [] c.nextReply.2 := ⟨(List.append_nil _).symm, rfl, (Bool.and_true _).symm, rfl, rfl, rfl⟩
  obtain ⟨sent, result, attempt⟩ := attemptExists s (c.script.replies.headD {})
  rw [querySends clean attempt]
  refine ⟨sent, attempt, taken.trans (sendsAll _ sent), ?_⟩
  rw [sendingScript]
  exact List.drop_one

end Channel

namespace Transcript

theorem attemptUnique {s : Statement} (clean : '\x00' ∉ s.sql) {reply : Reply} {sent more : Sent}
    {x y : Except Fault Output} (first : Attempt s reply sent x) (second : Attempt s reply more y) :
    sent = more ∧ x = y := by
  have same := (Channel.querySends (c := ⟨⟨0, true, 0⟩, { replies := [reply] }, []⟩) clean first).symm.trans
    (Channel.querySends clean second)
  exact ⟨Channel.sendingUnique (Prod.mk.inj same).2, (Prod.mk.inj same).1⟩

theorem statementsUnique {output : Output} {statements : List Statement} {replies : List Reply} {sent more : Sent}
    {x y : Except Halt Output} (first : Statements output statements replies sent x)
    (second : Statements output statements replies more y) : sent = more ∧ x = y := by
  induction first generalizing more y with
  | done =>
    cases second
    exact ⟨rfl, rfl⟩
  | unsendable zero =>
    cases second with
    | unsendable => exact ⟨rfl, rfl⟩
    | failed clean => exact absurd zero clean
    | overflow clean => exact absurd zero clean
    | next clean => exact absurd zero clean
  | failed clean attempt =>
    cases second with
    | unsendable zero => exact absurd zero clean
    | failed _ other =>
      obtain ⟨rfl, same⟩ := attemptUnique clean attempt other
      cases same
      exact ⟨rfl, rfl⟩
    | overflow _ other => cases (attemptUnique clean attempt other).2
    | next _ other => cases (attemptUnique clean attempt other).2
  | overflow clean attempt excess =>
    cases second with
    | unsendable zero => exact absurd zero clean
    | failed _ other => cases (attemptUnique clean attempt other).2
    | overflow _ other => exact ⟨(attemptUnique clean attempt other).1, rfl⟩
    | next _ other joined =>
      cases (attemptUnique clean attempt other).2
      cases excess.symm.trans joined
  | next clean attempt joined others ih =>
    cases second with
    | unsendable zero => exact absurd zero clean
    | failed _ other => cases (attemptUnique clean attempt other).2
    | overflow _ other excess =>
      cases (attemptUnique clean attempt other).2
      cases excess.symm.trans joined
    | next _ other given run =>
      obtain ⟨rfl, part⟩ := attemptUnique clean attempt other
      cases part
      cases joined.symm.trans given
      obtain ⟨rfl, rfl⟩ := ih run
      exact ⟨rfl, rfl⟩

end Transcript
end TableGateway
