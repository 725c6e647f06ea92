import RiscvV2.Clocked
import RiscvV2.Pkg
import RiscvV2.Decode
import RiscvV2.Csr
import RiscvV2.Datapath
import RiscvV2.Pipeline
import RiscvV2.Core
import RiscvV2.Stages
import RiscvV2.FetchUnit
import RiscvV2.LongDivision
import RiscvV2.MulDiv
import RiscvV2.Interrupt
import RiscvV2.DataPort
import RiscvV2.FetchProtocol
import RiscvV2.Sequential
import RiscvV2.Refinement
import RiscvV2.AxiControl
import RiscvV2.AxiMaster
import RiscvV2.Wrapper
import RiscvV2.BitFields
import RiscvV2.Bram
import RiscvV2.SoftwareReset
import RiscvV2.Isa
import RiscvV2.Execute
import RiscvV2.Assembler
import RiscvV2.StraightLine
import RiscvV2.ByteMemory
import RiscvV2.Multiplier
import RiscvV2.CsrInvariant
import RiscvV2.IssueSpacing
import RiscvV2.TrapReturn
import RiscvV2.CpuTop
import RiscvV2.FlowCheck
import RiscvV2.CommitCheck
import RiscvV2.ControlRegister
import RiscvV2.ConstantLoad
import RiscvV2.LeadsTo
import RiscvV2.Progress
import RiscvV2.Completeness
import RiscvV2.BoardRun
import RiscvV2.BoardTiming
import RiscvV2.BoardLive
import RiscvV2.Hart
import RiscvV2.HartRefinement
import RiscvV2.InterruptMachine
import RiscvV2.InterruptRefinement
import RiscvV2.InterruptRuns
import RiscvV2.CodeLogic
import RiscvV2.SelfTest
import RiscvV2.SelfTestRun
import RiscvV2.BoardSnapshot
import RiscvV2.SelfTestBoard
import RiscvV2.Stuttering
import RiscvV2.TraceCsv
import RiscvV2.TraceCompare
import RiscvV2.RegisterTrace
import RiscvV2.UvmChecks
