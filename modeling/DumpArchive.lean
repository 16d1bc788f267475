import DumpArchive.Demultiplexer.Session
import DumpArchive.Main
import DumpArchive.Multiplexer.Session
import DumpArchive.Proofs.Capacity
import DumpArchive.Proofs.Requests
import DumpArchive.Proofs.Reruns
import DumpArchive.Proofs.Selection
import DumpArchive.Proofs.EngineReadings
import DumpArchive.Proofs.DepartingReceivers
import DumpArchive.Proofs.ConsumerGone
import DumpArchive.Proofs.ReceiverRuns
import DumpArchive.Proofs.Conclusions
import DumpArchive.Proofs.LateOpenings
import DumpArchive.Proofs.Paths
import DumpArchive.Proofs.Trees
import DumpArchive.Proofs.Collecting
import DumpArchive.Proofs.Packing
import DumpArchive.Proofs.Groups
import DumpArchive.Proofs.Operations
import DumpArchive.Proofs.Openings
import DumpArchive.Proofs.Confinement
import DumpArchive.Proofs.FileWrites
import DumpArchive.Proofs.PackUnpack
import DumpArchive.Proofs.BlocksByNamespace
import DumpArchive.Proofs.SingleWorkerDump
import DumpArchive.Proofs.Refusals
import DumpArchive.Proofs.Agreement
import DumpArchive.Proofs.Isolation
import DumpArchive.Proofs.Spelling
import DumpArchive.Proofs.SinkFaults
import DumpArchive.Proofs.Retries
import DumpArchive.Proofs.Writing
import DumpArchive.Proofs.OutletReads
import DumpArchive.Proofs.Offsets
import DumpArchive.Proofs.Canonical
import DumpArchive.Proofs.Headings
import DumpArchive.Proofs.Indexing
import DumpArchive.Proofs.Remainders
import DumpArchive.Proofs.Naming
