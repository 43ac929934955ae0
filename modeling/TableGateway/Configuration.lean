import TableGateway.Fault
import TableGateway.Number.Integral
import TableGateway.Text.Blank

/-! Where the database is and how many connections to keep. Times are in milliseconds. Settings are made one
by one or come from variables, and are checked at the end. -/
namespace TableGateway

structure Configuration where
  host : Text := "localhost"
  port : Nat := 5432
  database : Text := "postgres"
  user : Text := "postgres"
  password : Text := "postgres"
  maxSize : Nat := 20
  idleTimeout : Nat := 30000
  connectTimeout : Nat := 2000
  deriving DecidableEq, Repr

inductive Setting
  | host (t : Text)
  | port (n : Nat)
  | database (t : Text)
  | user (t : Text)
  | password (t : Text)
  | maxSize (n : Nat)
  | idleTimeout (n : Nat)
  | connectTimeout (n : Nat)
  deriving DecidableEq, Repr

namespace Configuration

def set (c : Configuration) : Setting → Configuration
  | .host t => { c with host := t }
  | .port n => { c with port := n }
  | .database t => { c with database := t }
  | .user t => { c with user := t }
  | .password t => { c with password := t }
  | .maxSize n => { c with maxSize := n }
  | .idleTimeout n => { c with idleTimeout := n }
  | .connectTimeout n => { c with connectTimeout := n }

def validate (c : Configuration) : Except Fault Configuration :=
  if c.maxSize = 0 then .error (.config .noConnections)
  else if c.host.isEmpty then .error (.config .noHost)
  else .ok c

def ofSettings (settings : List Setting) : Except Fault Configuration :=
  (settings.foldl set {}).validate

inductive Variable
  | host
  | port
  | database
  | user
  | password
  | maxSize
  | idleTimeout
  | connectTimeout
  deriving DecidableEq, Repr

namespace Variable

def all : List Variable :=
  [.host, .port, .database, .user, .password, .maxSize, .idleTimeout, .connectTimeout]

def key : Variable → Text
  | .host => "DB_HOST"
  | .port => "DB_PORT"
  | .database => "DB_NAME"
  | .user => "DB_USER"
  | .password => "DB_PASSWORD"
  | .maxSize => "DB_POOL_MAX"
  | .idleTimeout => "DB_IDLE_TIMEOUT_MS"
  | .connectTimeout => "DB_CONNECT_TIMEOUT_MS"

def number (v : Variable) (width : Nat) (raw : Text) : Except Fault Nat :=
  match Integral.read (.unsigned width) (Text.trim raw) with
  | .ok n => .ok n.toNat
  | .error _ => .error (.config (.notNumber v.key raw))

def setting (v : Variable) (raw : Text) : Except Fault Setting :=
  match v with
  | .host => .ok (.host raw)
  | .port => (number v 16 raw).map .port
  | .database => .ok (.database raw)
  | .user => .ok (.user raw)
  | .password => .ok (.password raw)
  | .maxSize => (number v 64 raw).map .maxSize
  | .idleTimeout => (number v 64 raw).map .idleTimeout
  | .connectTimeout => (number v 64 raw).map .connectTimeout

end Variable

def readSettings (lookup : Text → Option Text) : List Variable → Except Fault (List Setting)
  | [] => .ok []
  | v :: rest =>
    match lookup v.key with
    | none => readSettings lookup rest
    | some raw => do
      let setting ← v.setting raw
      let others ← readSettings lookup rest
      .ok (setting :: others)

def ofLookup (lookup : Text → Option Text) : Except Fault Configuration := do
  let settings ← readSettings lookup Variable.all
  ofSettings settings

end Configuration
end TableGateway
