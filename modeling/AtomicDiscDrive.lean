import AtomicDiscDrive.Utils.Program
import AtomicDiscDrive.Utils.Contract
import AtomicDiscDrive.Utils.Runs
import AtomicDiscDrive.Utils.Majority
import AtomicDiscDrive.Utils.Linearizable
import AtomicDiscDrive.Utils.BigEndian
import AtomicDiscDrive.Utils.FixedWidth
import AtomicDiscDrive.Utils.Ring
import AtomicDiscDrive.Utils.FileSystem
import AtomicDiscDrive.Domain
import AtomicDiscDrive.SectorsManager
import AtomicDiscDrive.AtomicRegister
import AtomicDiscDrive.AtomicRegisterTheorems
import AtomicDiscDrive.Protocol.System
import AtomicDiscDrive.Protocol.Invariant
import AtomicDiscDrive.Protocol.Monotone
import AtomicDiscDrive.Protocol.Local
import AtomicDiscDrive.Protocol.Atomicity
import AtomicDiscDrive.Protocol.Outcomes
import AtomicDiscDrive.Protocol.Live
import AtomicDiscDrive.Protocol.Progress
import AtomicDiscDrive.Handlers.Updates
import AtomicDiscDrive.Handlers.Replies
import AtomicDiscDrive.Executor.Reuse
import AtomicDiscDrive.Executor.Startup
import AtomicDiscDrive.Executor.Cluster
import AtomicDiscDrive.Executor.Rejection
import AtomicDiscDrive.Executor.Wakeups
import AtomicDiscDrive.Executor.Release
import AtomicDiscDrive.Executor.Integrity
import AtomicDiscDrive.Executor.Atomicity
import AtomicDiscDrive.Storage.Refinement
import AtomicDiscDrive.Storage.Crash
import AtomicDiscDrive.Storage.Errors
import AtomicDiscDrive.Storage.Acks
import AtomicDiscDrive.Storage.Frame
import AtomicDiscDrive.Storage.Stable
import AtomicDiscDrive.Storage.Durable
import AtomicDiscDrive.Network.Stubborn
import AtomicDiscDrive.Wire.Streams
import AtomicDiscDrive.Wire.Grammar
import AtomicDiscDrive.Driver.Codec
import AtomicDiscDrive.Driver.Relay
import AtomicDiscDrive.Driver.Ring
import AtomicDiscDrive.Driver.Steps
import AtomicDiscDrive.Driver.Idents
import AtomicDiscDrive.Driver.ParseArgs
import AtomicDiscDrive.Driver.Tcp
import AtomicDiscDrive.Driver.Connect
import AtomicDiscDrive.Register.Machine
import AtomicDiscDrive.Register.Phases
import AtomicDiscDrive.Register.Callbacks
