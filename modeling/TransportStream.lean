import TransportStream.Demuxer.Basic
import TransportStream.Proofs.RoundTrip
import TransportStream.Proofs.PacketFraming
import TransportStream.Proofs.NonInterference
import TransportStream.Proofs.Checked.Demuxer
import TransportStream.Text.Align
import TransportStream.Proofs.Delimiters
import TransportStream.Proofs.IntactPackets
import TransportStream.Proofs.TableReception
import TransportStream.Proofs.ForeignSections
import TransportStream.Proofs.RejectedSections
import TransportStream.Proofs.PesReception
import TransportStream.Proofs.PacketLoss
import TransportStream.Proofs.PacketLocations
import TransportStream.Proofs.PacketByPacket
import TransportStream.Proofs.EndOfStream
import TransportStream.Proofs.FailedPackets
import TransportStream.Proofs.SectionHistory
import TransportStream.Proofs.TableLedger
import TransportStream.Proofs.FailingSource
import TransportStream.Proofs.DuplicatePackets
import TransportStream.Proofs.Checked.SectionStore
import TransportStream.Proofs.SectionsInProgress
import TransportStream.Proofs.SectionRecovery
import TransportStream.Proofs.AudioGrouping
import TransportStream.Proofs.PesHistory
import TransportStream.Proofs.PesHeaderFormat
import TransportStream.Proofs.SectionVisits
import TransportStream.Proofs.BurstErrors
import TransportStream.Proofs.MapFormat
import TransportStream.Proofs.PacketFormat
import TransportStream.Proofs.DescriptorFormat
