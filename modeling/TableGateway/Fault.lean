import TableGateway.Json.Fault

/-! What can go wrong, by cause. The wording of every cause is in its `message`. -/
namespace TableGateway

inductive BackendFault
  | server (code : Text)
  | unreachable
  | closed
  | parameterCount (expected given : Nat)
  | parameter (index : Nat)
  | encoding
  deriving DecidableEq, Repr

def BackendFault.message : BackendFault → Text
  | .server _ => "db error"
  | .unreachable => "error connecting to server"
  | .closed => "connection closed"
  | .parameterCount expected given =>
    "expected " ++ Text.ofNat expected ++ " parameters but got " ++ Text.ofNat given
  | .parameter index => "error serializing parameter " ++ Text.ofNat index
  | .encoding => "error encoding message to server"

def BackendFault.code? : BackendFault → Option Text
  | .server code => some code
  | _ => none

inductive AcquireCause
  | closed
  | timeout
  | connect (fault : BackendFault)
  | other (message : Text)
  deriving DecidableEq, Repr

def AcquireCause.message : AcquireCause → Text
  | .closed => "Pool has been closed"
  | .timeout => "Timeout occurred while waiting for a slot to become available"
  | .connect fault => "Error occurred while creating a new object: " ++ fault.message
  | .other message => message

inductive DecodeCause
  | unsupported (type : Text)
  | unreadable (index : Nat)
  | other (message : Text)
  deriving DecidableEq, Repr

def DecodeCause.message : DecodeCause → Text
  | .unsupported type => "unsupported column type '" ++ type ++ "'"
  | .unreadable index => "error deserializing column " ++ Text.ofNat index
  | .other message => message

inductive ValidationCause
  | unknownOperator (name : Text)
  | unknownNegated (name : Text)
  | recordsExpected (table : Text)
  | elementNotRecord (table : Text) (index : Nat)
  | fieldsExpected (table : Text)
  | nothingToSet (table : Text)
  | unevenRow (table : Text) (index : Nat) (names expected : List Text)
  | other (message : Text)
  deriving DecidableEq, Repr

def ValidationCause.message : ValidationCause → Text
  | .unknownOperator name => "unknown filter operator '" ++ name ++ "'"
  | .unknownNegated name => "not(): unknown filter operator '" ++ name ++ "'"
  | .recordsExpected table =>
    "insert() into '" ++ table ++ "': payload must be an object or an array of objects"
  | .elementNotRecord table index =>
    "insert() into '" ++ table ++ "': element " ++ Text.ofNat index ++ " is not an object"
  | .fieldsExpected table => "update() on '" ++ table ++ "': payload must be an object"
  | .nothingToSet table => "UPDATE on '" ++ table ++ "' needs at least one column to set"
  | .unevenRow table index names expected =>
    "INSERT into '" ++ table ++ "': row " ++ Text.ofNat index ++ " has columns [" ++
      Text.listed names ++ "], expected [" ++ Text.listed expected ++ "]"
  | .other message => message

inductive SerializationCause
  | json (source : Text) (fault : Json.Fault)
  | payload (message : Text)
  | contained (column message : Text)
  | other (message : Text)
  deriving DecidableEq, Repr

def SerializationCause.message : SerializationCause → Text
  | .json source fault => fault.message source
  | .payload message => Json.Fault.restated message
  | .contained column message => "contains() on '" ++ column ++ "': " ++ Json.Fault.restated message
  | .other message => message

inductive ConfigCause
  | notNumber (key raw : Text)
  | noConnections
  | noHost
  | alreadyInitialized
  | notInitialized
  | other (message : Text)
  deriving DecidableEq, Repr

def ConfigCause.message : ConfigCause → Text
  | .notNumber key raw => key ++ " must be a number, got '" ++ raw ++ "'"
  | .noConnections => "max pool size must be at least 1"
  | .noHost => "host must not be empty"
  | .alreadyInitialized => "database already initialized"
  | .notInitialized => "database not initialized"
  | .other message => message

inductive Fault
  | acquire (cause : AcquireCause)
  | query (fault : BackendFault)
  | decode (column : Text) (cause : DecodeCause)
  | validation (cause : ValidationCause)
  | serialization (cause : SerializationCause)
  | config (cause : ConfigCause)
  deriving DecidableEq, Repr

namespace Fault

def message : Fault → Text
  | .acquire cause => "Connection error: " ++ cause.message
  | .query fault => "Query error: " ++ fault.message
  | .decode column cause => "Decode error on column '" ++ column ++ "': " ++ cause.message
  | .validation cause => "Validation error: " ++ cause.message
  | .serialization cause => "Serialization error: " ++ cause.message
  | .config cause => "Configuration error: " ++ cause.message

def code? : Fault → Option Text
  | .query fault => fault.code?
  | _ => none

def isAcquire : Fault → Bool
  | .acquire _ => true
  | _ => false

def isValidation : Fault → Bool
  | .validation _ => true
  | _ => false

def asMisuse : Fault → Fault
  | .validation cause => .validation cause
  | .serialization cause => .serialization cause
  | fault => .validation (.other fault.message)

end Fault

/-- What ends a computation early: a fault that it reports, or a sum of more than 64 bits, which nothing
reports and which stops the program. -/
inductive Halt
  | fault (fault : Fault)
  | overflow
  deriving DecidableEq, Repr

namespace Halt

def checked {α : Type} (result : Option α) : Except Halt α := result.elim (.error .overflow) .ok

theorem mapOk {ε α β : Type} {f : α → β} {result : Except ε α} {y : β} :
    result.map f = .ok y ↔ ∃ x, result = .ok x ∧ f x = y := by
  cases result with
  | error e => exact ⟨nofun, nofun⟩
  | ok x => exact ⟨fun same => ⟨x, rfl, Except.ok.inj same⟩, fun ⟨_, found, same⟩ => Except.ok.inj found ▸ same ▸ rfl⟩

theorem faultOk {α : Type} {result : Except Fault α} {x : α} :
    result.mapError fault = .ok x ↔ result = .ok x := by
  cases result with
  | error f => exact ⟨nofun, nofun⟩
  | ok y => exact ⟨fun same => congrArg Except.ok (Except.ok.inj same), fun same => same ▸ rfl⟩

theorem checkedMap {α β : Type} (f : α → β) (result : Option α) :
    (checked result).map f = checked (result.map f) := by
  cases result with
  | none => rfl
  | some x => rfl

theorem checkedOk {α : Type} {result : Option α} {x : α} : checked result = .ok x ↔ result = some x := by
  cases result with
  | none => exact ⟨nofun, nofun⟩
  | some y => exact ⟨fun same => congrArg some (Except.ok.inj same), fun same => same ▸ rfl⟩

end Halt
end TableGateway
