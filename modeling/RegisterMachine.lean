import RegisterMachine.Command.Arguments
import RegisterMachine.Command.Report
import RegisterMachine.Descriptor
import RegisterMachine.Fault
import RegisterMachine.Files
import RegisterMachine.Json.Reader
import RegisterMachine.Json.Value
import RegisterMachine.Json.Writer
import RegisterMachine.Machine
import RegisterMachine.Main
import RegisterMachine.Memory.Basic
import RegisterMachine.Memory.Named
import RegisterMachine.OpcodeTable
import RegisterMachine.Operation
import RegisterMachine.Problem
import RegisterMachine.Program
import RegisterMachine.Proofs.Agreement
import RegisterMachine.Proofs.Arguments
import RegisterMachine.Proofs.CanonicalText
import RegisterMachine.Proofs.CommentMarkers
import RegisterMachine.Proofs.ControlFlow
import RegisterMachine.Proofs.Declarations
import RegisterMachine.Proofs.Decorations
import RegisterMachine.Proofs.Dispatching
import RegisterMachine.Proofs.Endings
import RegisterMachine.Proofs.FailingSteps
import RegisterMachine.Proofs.Grammar
import RegisterMachine.Proofs.Histories
import RegisterMachine.Proofs.IntegerText
import RegisterMachine.Proofs.Interruption
import RegisterMachine.Proofs.JsonText
import RegisterMachine.Proofs.Labels
import RegisterMachine.Proofs.LateStops
import RegisterMachine.Proofs.Layout
import RegisterMachine.Proofs.Lifecycle
import RegisterMachine.Proofs.LineByLine
import RegisterMachine.Proofs.LoadedFaults
import RegisterMachine.Proofs.LoadedPrograms
import RegisterMachine.Proofs.Numerals
import RegisterMachine.Proofs.PendingStops
import RegisterMachine.Proofs.PrintedTraces
import RegisterMachine.Proofs.ProgramMeaning
import RegisterMachine.Proofs.RamCommands
import RegisterMachine.Proofs.ReachedTokens
import RegisterMachine.Proofs.Refinement
import RegisterMachine.Proofs.Requests
import RegisterMachine.Proofs.Reset
import RegisterMachine.Proofs.Respelling
import RegisterMachine.Proofs.Resumption
import RegisterMachine.Proofs.Runs
import RegisterMachine.Proofs.SettingsText
import RegisterMachine.Proofs.SparseStore
import RegisterMachine.Proofs.StepLimit
import RegisterMachine.Proofs.Steps
import RegisterMachine.Proofs.TableChecks
import RegisterMachine.Proofs.Tables
import RegisterMachine.Proofs.Textbook
import RegisterMachine.Proofs.Traces
import RegisterMachine.Proofs.Words
import RegisterMachine.Ram.Effects
import RegisterMachine.Ram.Handlers
import RegisterMachine.Ram.Operand
import RegisterMachine.Ram.Table
import RegisterMachine.Session.Basic
import RegisterMachine.Session.Run
import RegisterMachine.Session.Step
import RegisterMachine.Session.Stopping
import RegisterMachine.Session.Trace
import RegisterMachine.Settings.Basic
import RegisterMachine.Settings.Reader
import RegisterMachine.Source
import RegisterMachine.Tape
import RegisterMachine.Text.Basic
import RegisterMachine.Text.Integer
import RegisterMachine.Workspace
