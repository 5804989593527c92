import PageFuzz.Main
import PageFuzz.Proofs.Corpus.Agreement
import PageFuzz.Proofs.Coverage.Reports
import PageFuzz.Proofs.Delivery.Histories
import PageFuzz.Proofs.Derivation.Bounds
import PageFuzz.Proofs.Derivation.Language
import PageFuzz.Proofs.Derivation.Safety
import PageFuzz.Proofs.Derivation.Thresholds
import PageFuzz.Proofs.Page.Depth
import PageFuzz.Proofs.Page.Payload
import PageFuzz.Proofs.Replay.OwnLog
import PageFuzz.Proofs.Session.Calls
import PageFuzz.Proofs.Session.Neighbours
import PageFuzz.Proofs.Session.Starting
import PageFuzz.Proofs.Grammar.History
import PageFuzz.Proofs.Grammar.Layout
import PageFuzz.Proofs.Grammar.Order
import PageFuzz.Proofs.Derivation.Marks
import PageFuzz.Proofs.Page.Root
import PageFuzz.Proofs.Page.Envelope
import PageFuzz.Proofs.Page.Filling
import PageFuzz.Proofs.Replay.Acceptance
import PageFuzz.Proofs.Files.Enumeration
import PageFuzz.Proofs.Corpus.Effect
import PageFuzz.Proofs.Derivation.Uniform
import PageFuzz.Proofs.Session.Seeds
import PageFuzz.Proofs.Coverage.Names
import PageFuzz.Proofs.CommandLine.Settings
