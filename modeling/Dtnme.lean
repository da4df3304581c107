import Dtnme.Library.OrdMap
import Dtnme.Library.Runs
import Dtnme.Library.Crc
import Dtnme.Library.Word
import Dtnme.Library.Transition
import Dtnme.Library.Logged
import Dtnme.Library.Parser
import Dtnme.Library.Cbor
import Dtnme.Library.Slice
import Dtnme.Library.Decoder
import Dtnme.Library.Decimal
import Dtnme.Library.StringTable
import Dtnme.Naming.EndpointId
import Dtnme.Bundling.TinyCbor
import Dtnme.Bundling.Crc32c
import Dtnme.Bundling.GbofId
import Dtnme.Bundling.ImcState
import Dtnme.Bundling.HopCount
import Dtnme.Bundling.BundleList
import Dtnme.Bundling.Custody
import Dtnme.Bundling.CustodyIds
import Dtnme.Bundling.CustodySignal
import Dtnme.Bundling.PayloadQuota
import Dtnme.Bundling.PayloadSpace
import Dtnme.Library.Tally
import Dtnme.Bundling.Bard
import Dtnme.Bundling.BardCounters
import Dtnme.Bundling.BardQuota
import Dtnme.Bundling.BardKeys
import Dtnme.Bundling.BibeSpace
import Dtnme.Bundling.BlockInfo
import Dtnme.Bundling.Produce
import Dtnme.Library.Intervals
import Dtnme.Bundling.Bundle
import Dtnme.Bundling.Reassembly
import Dtnme.Bundling.FragmentSafety
import Dtnme.Bundling.Fragmentation
import Dtnme.Bundling.ReactiveFragment
import Dtnme.Bundling.Dictionary
import Dtnme.Bundling.Bp6Block
import Dtnme.Bundling.Bp6Primary
import Dtnme.Bundling.Bp6Consume
import Dtnme.Bundling.Bp6Reception
import Dtnme.Bundling.CborUtil
import Dtnme.Bundling.Sdnv
import Dtnme.Bundling.Acs
import Dtnme.Bundling.AcsEntries
import Dtnme.Bundling.AcsSignal
import Dtnme.Bundling.AcsRecord
import Dtnme.Bundling.AcsParse
import Dtnme.Bundling.AcsRuns
import Dtnme.Bundling.AcsDelivery
import Dtnme.Bundling.AcsDuplicate
import Dtnme.Ltp.Segment
import Dtnme.Ltp.Session
import Dtnme.Ltp.ContigBlocks
import Dtnme.Ltp.Overlap
import Dtnme.Ltp.Completion
import Dtnme.Ltp.Delivery
import Dtnme.Ltp.Wire
import Dtnme.Ltp.RoundTrip
import Dtnme.Ltp.Bounds
import Dtnme.Bundling.Bp6Chunks
import Dtnme.Bundling.Bp6Safety
import Dtnme.Dtpc.DataPduCollector
import Dtnme.Dtpc.CollectorReload
import Dtnme.Dtpc.PayloadAggregator
import Dtnme.Dtpc.Receiver
import Dtnme.Dtpc.UnackedPdu
import Dtnme.Ltp.Reception
import Dtnme.Ltp.ReportReceipt
import Dtnme.Ltp.Reports
import Dtnme.Ltp.TrimExact
import Dtnme.Ltp.ReportGroup
import Dtnme.Library.SparseFile
import Dtnme.Ltp.SessionFile
import Dtnme.Ltp.DiskFailure
import Dtnme.Library.Cuts
import Dtnme.Ltp.Segmentation
import Dtnme.Ltp.Extraction
import Dtnme.Ltp.Outbound
import Dtnme.Ltp.ReportSafety
import Dtnme.Imc.Bundle
import Dtnme.Imc.Records
import Dtnme.Library.LastWrite
import Dtnme.Imc.Config
import Dtnme.Imc.Control
import Dtnme.Imc.Membership
import Dtnme.Imc.Proxies
import Dtnme.Bundling.SdnvExact
import Dtnme.Bundling.ProduceRestart
import Dtnme.Library.CborItems
import Dtnme.Bundling.CborCursor
import Dtnme.Bundling.EidDecode
import Dtnme.Bundling.CborSpans
import Dtnme.Bundling.CborFields
import Dtnme.Bundling.CrcField
import Dtnme.Bundling.CanonicalBlock
import Dtnme.Bundling.Bp7Primary
import Dtnme.Bundling.CrcPatch
import Dtnme.Bundling.Bp7Prepare
import Dtnme.Bundling.Bp7Numbers
import Dtnme.Bundling.Bp7Flags
import Dtnme.Bundling.CborEncoder
import Dtnme.Bundling.CborArrays
import Dtnme.Bundling.ImcStateBlock
import Dtnme.Bundling.Expiration
import Dtnme.Bundling.ImcServed
import Dtnme.Library.Interner
import Dtnme.Naming.IpnText
import Dtnme.Bundling.FragmentKeys
import Dtnme.Bundling.Bp6Produce
import Dtnme.Bundling.SdnvRecord
import Dtnme.Bundling.Bp6Admin
import Dtnme.Bundling.ReassemblyBlocks
import Dtnme.Bundling.FragmentWire
import Dtnme.Bundling.Bp6Refs
import Dtnme.Bundling.Bp6Unknown
import Dtnme.Bundling.Bp7Payload
import Dtnme.Bundling.Bp7Dispatch
import Dtnme.Library.Chain
import Dtnme.Routing.Link
import Dtnme.Routing.ForwardingLog
import Dtnme.Routing.Reroute
import Dtnme.Routing.Redirect
import Dtnme.ConvLayers.TransferExtension
import Dtnme.ConvLayers.CloseContact
import Dtnme.Routing.RouteTable
import Dtnme.Imc.Destinations
import Dtnme.Imc.ManualJoins
import Dtnme.Routing.AlternateLink
import Dtnme.Bundling.FragmentPrimary
import Dtnme.Routing.ImcRouter
import Dtnme.Bundling.StatusReportRoundTrip
import Dtnme.Ltp.Agreement
