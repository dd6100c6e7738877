import FileCensus.Compare
import FileCensus.Document.Reader
import FileCensus.Document.Writer
import FileCensus.Main
import FileCensus.Proofs.ElementReading
import FileCensus.Proofs.MirroredReports
import FileCensus.Proofs.PolicyAtCapture
import FileCensus.Proofs.TakeThenCompare
import FileCensus.Proofs.Truncation
import FileCensus.Report.Json
import FileCensus.Report.Table
import FileCensus.Scan
import FileCensus.Session
import FileCensus.Proofs.PrintedJson
import FileCensus.Proofs.ReportJson
import FileCensus.Proofs.ChosenFiles
import FileCensus.Proofs.ScanAccounts
import FileCensus.Proofs.FileComparison
import FileCensus.Proofs.DeliveredDigests
import FileCensus.Proofs.ByteOrder
import FileCensus.Proofs.SnapshotOperations
import FileCensus.Proofs.FilesKept
import FileCensus.Proofs.CaptureReads
import FileCensus.Proofs.FilteredTraces
import FileCensus.Proofs.RemovedFiles
import FileCensus.Proofs.FailurePolicies
import FileCensus.Proofs.OutputExclusion
import FileCensus.Proofs.NormalForms
import FileCensus.Proofs.RuleTexts
import FileCensus.Proofs.RulePrecedence
import FileCensus.Proofs.DifferenceTexts
import FileCensus.Proofs.ReusedScanners
