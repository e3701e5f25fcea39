import KernelExam.Main
import KernelExam.Rehearsal
import KernelExam.Script.Meaning
import KernelExam.WaitingRoom
import KernelExam.Proofs.Path.Canonical
import KernelExam.Proofs.FileSystem.PathMap
import KernelExam.Proofs.FileSystem.Refinement
import KernelExam.Proofs.FileSystem.Transcript
import KernelExam.Proofs.FileSystem.Refusal
import KernelExam.Proofs.Machine.Served
import KernelExam.Proofs.Machine.Runs
import KernelExam.Proofs.Machine.Frame
import KernelExam.Proofs.Registration.Conduct
import KernelExam.Proofs.Registration.FirstProcess
import KernelExam.Proofs.Machine.WorkingDirectory
import KernelExam.Proofs.Descriptor
import KernelExam.Proofs.DescriptorMap
import KernelExam.Proofs.Machine.Refusal
import KernelExam.Proofs.Suite.Reporting
import KernelExam.Proofs.Machine.Joining
import KernelExam.Proofs.Machine.Examination
import KernelExam.Proofs.Suite.Catalogue
import KernelExam.Proofs.History
import KernelExam.Proofs.WaitingRoom
import KernelExam.Proofs.Machine.Permits
import KernelExam.Proofs.Machine.Isolation
import KernelExam.Proofs.Machine.Numbers
import KernelExam.Proofs.Machine.Freeze
import KernelExam.Proofs.FileSystem.Replay
import KernelExam.Proofs.Machine.Contents
import KernelExam.Proofs.FileSystem.Handles
import KernelExam.Proofs.Slots.Carriage
import KernelExam.Proofs.Machine.Restart
import KernelExam.Proofs.Machine.Deadlock
import KernelExam.Proofs.Machine.Console
import KernelExam.Proofs.Machine.Lifecycle
import KernelExam.Proofs.Machine.Solo
import KernelExam.Proofs.FileSystem.Topmost
import KernelExam.Proofs.Suite.Walk
import KernelExam.Proofs.Suite.FileTests
import KernelExam.Proofs.FileSystem.Atomicity
import KernelExam.Proofs.Path.Grammar
import KernelExam.Proofs.Path.Hops
import KernelExam.Proofs.Machine.Hops
import KernelExam.Proofs.Slots.Decoding
import KernelExam.Proofs.Slots.Codec
import KernelExam.Proofs.Machine.Starting
import KernelExam.Proofs.Machine.Existence
import KernelExam.Proofs.Machine.Transfers
import KernelExam.Proofs.Machine.Chunks
import KernelExam.Proofs.FileSystem.Sights
import KernelExam.Proofs.Machine.Seeding
