import RegisterTransfer.CommandLine.Arguments
import RegisterTransfer.CommandLine.Command
import RegisterTransfer.CommandLine.Duration
import RegisterTransfer.CommandLine.Execution
import RegisterTransfer.CommandLine.Files
import RegisterTransfer.CommandLine.Log
import RegisterTransfer.CommandLine.Options
import RegisterTransfer.Decimal.Layout
import RegisterTransfer.Decimal.Nearest
import RegisterTransfer.Decimal.Shortest
import RegisterTransfer.FinMap
import RegisterTransfer.Grammar
import RegisterTransfer.Instr
import RegisterTransfer.Machine.Evaluation
import RegisterTransfer.Machine.Extension
import RegisterTransfer.Machine.External
import RegisterTransfer.Machine.Memory
import RegisterTransfer.Machine.Registers
import RegisterTransfer.Machine.Run
import RegisterTransfer.Machine.Session
import RegisterTransfer.Machine.State
import RegisterTransfer.Machine.Step
import RegisterTransfer.Machine.Value
import RegisterTransfer.Main
import RegisterTransfer.Parser.Basic
import RegisterTransfer.Parser.Failure
import RegisterTransfer.Program
import RegisterTransfer.Proofs.AccessBounds
import RegisterTransfer.Proofs.Assembly
import RegisterTransfer.Proofs.Confinement
import RegisterTransfer.Proofs.Conversion
import RegisterTransfer.Proofs.ConversionBounds
import RegisterTransfer.Proofs.ConvertedCalls
import RegisterTransfer.Proofs.Correspondence
import RegisterTransfer.Proofs.Definedness
import RegisterTransfer.Proofs.DefinednessOrder
import RegisterTransfer.Proofs.EndOfText
import RegisterTransfer.Proofs.EpiloguePaths
import RegisterTransfer.Proofs.EpilogueRuns
import RegisterTransfer.Proofs.Epilogues
import RegisterTransfer.Proofs.Execution
import RegisterTransfer.Proofs.ExtensionSimulation
import RegisterTransfer.Proofs.Faults
import RegisterTransfer.Proofs.FrameChecks
import RegisterTransfer.Proofs.InstructionText
import RegisterTransfer.Proofs.JobSchedules
import RegisterTransfer.Proofs.LoadAfterStore
import RegisterTransfer.Proofs.LockstepAcceptance
import RegisterTransfer.Proofs.LockstepConsistency
import RegisterTransfer.Proofs.LockstepSoundness
import RegisterTransfer.Proofs.MeasureOrder
import RegisterTransfer.Proofs.MemoryExtension
import RegisterTransfer.Proofs.MemoryRequests
import RegisterTransfer.Proofs.Ownership
import RegisterTransfer.Proofs.PointerFree
import RegisterTransfer.Proofs.PoolLaws
import RegisterTransfer.Proofs.Preservation
import RegisterTransfer.Proofs.ProgramText
import RegisterTransfer.Proofs.Progress
import RegisterTransfer.Proofs.Reachability
import RegisterTransfer.Proofs.Reading
import RegisterTransfer.Proofs.SelfComparison
import RegisterTransfer.Proofs.StepMonotonicity
import RegisterTransfer.Proofs.StepSimulation
import RegisterTransfer.Proofs.TextOrder
import RegisterTransfer.Proofs.Tokens
import RegisterTransfer.Proofs.Utf8Decoding
import RegisterTransfer.Reader
import RegisterTransfer.Signature
import RegisterTransfer.Simulation.Frame
import RegisterTransfer.Simulation.Lockstep
import RegisterTransfer.Simulation.Match
import RegisterTransfer.Simulation.Measure
import RegisterTransfer.TailCall.Config
import RegisterTransfer.TailCall.Converted
import RegisterTransfer.TailCall.Epilogue
import RegisterTransfer.TailCall.Jobs
import RegisterTransfer.TailCall.Pool
import RegisterTransfer.TailCall.Settings
import RegisterTransfer.TailCall.Transform
import RegisterTransfer.Text.Numeral
import RegisterTransfer.Text.Printable
import RegisterTransfer.Text.Quoted
import RegisterTransfer.Text.Utf8
import RegisterTransfer.Wellformed
import RegisterTransfer.Yaml.Node
import RegisterTransfer.Yaml.Place
import RegisterTransfer.Yaml.Reader
import RegisterTransfer.Yaml.Scalar
import RegisterTransfer.Yaml.Timestamp
import RegisterTransfer.Yaml.Written
