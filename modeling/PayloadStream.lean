import PayloadStream.JsonForm
import PayloadStream.MaskerRun
import PayloadStream.Reception
import PayloadStream.ScalarEncoding
import PayloadStream.SequentialDecoder
import PayloadStream.ValidatorRun
import PayloadStream.Proofs.AutomatonRuns
import PayloadStream.Proofs.TierAgreement
import PayloadStream.Proofs.ScalarSequences
import PayloadStream.Proofs.TextGrammar
import PayloadStream.Proofs.MessageStreams
import PayloadStream.Proofs.StateFutures
import PayloadStream.Proofs.CheckpointSimulation
import PayloadStream.Proofs.KeyStreams
import PayloadStream.Proofs.TierIndependence
import PayloadStream.Proofs.MaskerHistories
import PayloadStream.Proofs.ReceivedMessages
import PayloadStream.Proofs.FreshStarts
import PayloadStream.Proofs.CounterHistories
import PayloadStream.Proofs.Unmasking
import PayloadStream.Proofs.ReceptionPace
import PayloadStream.Proofs.CanonicalForms
import PayloadStream.Proofs.DecodeReports
import PayloadStream.Proofs.TextCuts
import PayloadStream.Proofs.AsciiRuns
import PayloadStream.Proofs.AcceptedForms
import PayloadStream.Proofs.TierRequests
import PayloadStream.Proofs.RowRuns
