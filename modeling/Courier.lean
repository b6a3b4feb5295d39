import Courier.Main
import Courier.Schedule
import Courier.Traffic.Script
import Courier.Proofs.CallSteps
import Courier.Proofs.ChannelAccounts
import Courier.Proofs.CallProtocol
import Courier.Proofs.ReferenceMessages
import Courier.Proofs.HandleOutcomes
import Courier.Proofs.ReserveOwnership
import Courier.Proofs.ChannelLife
import Courier.Proofs.ReserveLedger
import Courier.Proofs.IdleStack
import Courier.Proofs.ReserveRoom
import Courier.Proofs.TrafficSteps
import Courier.Proofs.TrafficCustody
import Courier.Proofs.WireOrder
import Courier.Proofs.OpenedChannels
import Courier.Proofs.LinkPages
import Courier.Proofs.BrokerBook
import Courier.Proofs.CallDeliveries
import Courier.Proofs.VerdictIndifference
import Courier.Proofs.BrokerVerdicts
import Courier.Proofs.UriReading
import Courier.Proofs.JsonReading
import Courier.Proofs.UuidSpelling
import Courier.Proofs.EndpointReading
import Courier.Proofs.EventWire
import Courier.Proofs.Acknowledgements
import Courier.Proofs.CallRuns
import Courier.Proofs.OrderMessages
import Courier.Proofs.OrderRuns
import Courier.Proofs.NameOrder
import Courier.Proofs.Positions
import Courier.Proofs.FieldWrites
import Courier.Proofs.AssemblyOrder
import Courier.Proofs.EnvelopeContents
import Courier.Proofs.EnvelopeFailures
import Courier.Proofs.EmptyHalves
import Courier.Proofs.BoundArguments
import Courier.Proofs.NumericFields
import Courier.Proofs.FieldValueReading
import Courier.Proofs.BodyReading
import Courier.Proofs.SchemaAgreement
