import TableGateway.DataType.Catalogue
import TableGateway.Shared
import TableGateway.Value.Sources
import TableGateway.Proofs.Condition
import TableGateway.Proofs.Characters
import TableGateway.Proofs.Calls
import TableGateway.Proofs.Parameters
import TableGateway.Proofs.Secrecy
import TableGateway.Proofs.Transaction
import TableGateway.Proofs.Misuse
import TableGateway.Proofs.ConditionReader
import TableGateway.Proofs.Lexeme
import TableGateway.Proofs.Fragments
import TableGateway.Proofs.Closing
import TableGateway.Proofs.Reuse
import TableGateway.Proofs.Undecodable
import TableGateway.Proofs.Crowd
import TableGateway.Proofs.Sharing
import TableGateway.Proofs.Reaping
import TableGateway.Proofs.DocumentColumns
import TableGateway.Proofs.DayNumbers
import TableGateway.Proofs.WrittenDates
import TableGateway.Proofs.DateColumns
import TableGateway.Proofs.Pieces
import TableGateway.Proofs.Rescan
import TableGateway.Proofs.Segments
import TableGateway.Proofs.Encoding
import TableGateway.Proofs.Cursor
import TableGateway.Proofs.Chaining
import TableGateway.Proofs.InsertedRows
import TableGateway.Proofs.ColumnNames
import TableGateway.Proofs.IntegerParameters
import TableGateway.Proofs.ArrayColumns
import TableGateway.Proofs.CarriedText
import TableGateway.Proofs.DateItems
import TableGateway.Proofs.WrittenOffsets
import TableGateway.Proofs.ArrayParameters
import TableGateway.Proofs.NumericColumns
import TableGateway.Proofs.IntervalColumns
import TableGateway.Proofs.Records
import TableGateway.Proofs.Envelopes
import TableGateway.Proofs.TimeColumns
import TableGateway.Proofs.AddressColumns
import TableGateway.Proofs.Variables
import TableGateway.Proofs.Shortening
