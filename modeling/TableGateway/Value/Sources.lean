import TableGateway.Calendar
import TableGateway.Decimal
import TableGateway.Uuid
import TableGateway.Value

/-! Values for things that have no kind of their own; they are carried as the text that stands for them. -/
namespace TableGateway
namespace Value

def ofSingle (x : Binary32) : Value := .float (x.convert .double)

def ofUuid (u : Uuid) : Value := .text u.print

def ofStamp (s : Stamp) : Value := .text s.printUniversal

def ofDate (d : Date) : Value := .text d.print

def ofDecimal (d : Decimal) : Value := .text d.print

end Value

def Date.unixDays : Int := 10957

def Stamp.ofUnix (seconds : Int) (nano : Nat) : Stamp :=
  ⟨seconds / 86400 - Date.unixDays, ⟨(seconds % 86400).toNat, nano⟩⟩

end TableGateway
