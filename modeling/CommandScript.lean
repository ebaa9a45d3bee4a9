import CommandScript.Main
import CommandScript.Proofs.Capacity
import CommandScript.Proofs.DemoLoops
import CommandScript.Proofs.BareWords
import CommandScript.Proofs.FormatRun
import CommandScript.Proofs.Lifecycle
import CommandScript.Proofs.Lossless
import CommandScript.Proofs.ParseAppend
import CommandScript.Proofs.PartsLimit
import CommandScript.Proofs.Representable
import CommandScript.Proofs.SourceLines
import CommandScript.Proofs.CharBoundary
import CommandScript.Proofs.FormatFile
import CommandScript.Proofs.ForwardOnly
import CommandScript.Proofs.RecordHistory
import CommandScript.Proofs.RisingLines
import CommandScript.Proofs.LineEndings
import CommandScript.Proofs.Overwriting
import CommandScript.Proofs.StringLines
import CommandScript.Proofs.Relay
import CommandScript.Proofs.LineLookup
import CommandScript.Proofs.LineRanges
import CommandScript.Proofs.ProgramLinks
import CommandScript.Proofs.ProgramDump
import CommandScript.Proofs.DiagnosticJson
import CommandScript.Proofs.SettingsText
import CommandScript.Proofs.KeptFiles
import CommandScript.Proofs.TaskAgreement
