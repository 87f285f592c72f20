import NameServer.CommandLine.Machine
import NameServer.Main
import NameServer.Message.Dump
import NameServer.Proofs.Compression.Draft
import NameServer.Proofs.Console.Grammar
import NameServer.Proofs.Message.Dumping
import NameServer.Proofs.Message.Recompression
import NameServer.Proofs.Message.SizeGuard
import NameServer.Proofs.Message.StrictDump
import NameServer.Proofs.Message.StrictReading
import NameServer.Proofs.Name.Codecs
import NameServer.Proofs.Resolver.Answers
import NameServer.Proofs.Resolver.Denial
import NameServer.Proofs.Resolver.Mentions
import NameServer.Proofs.Resolver.Repetitions
import NameServer.Proofs.Responder.Recency
import NameServer.Proofs.Responder.Service
import NameServer.Proofs.Tree.Additions
import NameServer.Proofs.Tree.Deletions
import NameServer.Proofs.Tree.Generations
import NameServer.Proofs.Zone.BackEnds
import NameServer.Proofs.Zone.References
import NameServer.Proofs.ZoneFile.Lifetimes
import NameServer.Settings.Validation
