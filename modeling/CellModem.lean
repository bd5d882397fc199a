import CellModem.Bench.Preset
import CellModem.Bench.Session
import CellModem.Code.Hex
import CellModem.Buffer
import CellModem.Log
import CellModem.System
import CellModem.Proofs.Course
import CellModem.Proofs.Reception
import CellModem.Proofs.Journal
import CellModem.Proofs.Exchange
import CellModem.Proofs.Frame
import CellModem.Proofs.Recovery
import CellModem.Proofs.Response
import CellModem.Proofs.Delivery
import CellModem.Proofs.Isolation
import CellModem.Proofs.Operations
import CellModem.Proofs.Log
import CellModem.Proofs.Lock
import CellModem.Proofs.Actor
import CellModem.Proofs.Serial
import CellModem.Proofs.Boundary
import CellModem.Proofs.Interleaving
import CellModem.Proofs.Cutting
import CellModem.Proofs.Publication
import CellModem.Proofs.Alignment
import CellModem.Proofs.Spelling
import CellModem.Proofs.Answer
import CellModem.Proofs.Client
import CellModem.Proofs.Survey
import CellModem.Proofs.LineEnd
import CellModem.Proofs.Operator
import CellModem.Proofs.Deeds
import CellModem.Proofs.Lifecycle
import CellModem.Proofs.Recital
import CellModem.Proofs.Interruption
import CellModem.Proofs.Typed
import CellModem.Proofs.Pass
import CellModem.Proofs.Room
import CellModem.Proofs.Report
import CellModem.Proofs.Outcome
import CellModem.Proofs.Reuse
import CellModem.Proofs.Walk
import CellModem.Proofs.Bounds
import CellModem.Proofs.Signal
import CellModem.Proofs.Ledger
import CellModem.Proofs.Dispatch
import CellModem.Proofs.SemiOctets
import CellModem.Proofs.HexWord
import CellModem.Proofs.Pieces
import CellModem.Proofs.Document
