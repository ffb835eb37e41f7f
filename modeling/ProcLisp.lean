import ProcLisp.Journal.StoreLog
import ProcLisp.Machine.Eval
import ProcLisp.Machine.Scripted
import ProcLisp.Main
import ProcLisp.Proofs.Machine.Dispatches
import ProcLisp.Proofs.Machine.Recursive
import ProcLisp.Proofs.Machine.Bounded
import ProcLisp.Proofs.Machine.Following
import ProcLisp.Proofs.Machine.Correspondence
import ProcLisp.Proofs.Machine.Effects
import ProcLisp.Proofs.Machine.Slices
import ProcLisp.Proofs.Machine.Solitary
import ProcLisp.Proofs.Machine.Timing
import ProcLisp.Proofs.Queue
import ProcLisp.Proofs.Journal.Codec
import ProcLisp.Proofs.Scheduler.Changes
import ProcLisp.Proofs.Scheduler.Runs
import ProcLisp.Proofs.Scheduler.Sound
import ProcLisp.Proofs.Scheduler.Mail
import ProcLisp.Proofs.Scheduler.Scenes
import ProcLisp.Proofs.Scheduler.Delivery
import ProcLisp.Proofs.Journal.Lossless
import ProcLisp.Proofs.Scheduler.Notices
import ProcLisp.Proofs.Scheduler.Endings
import ProcLisp.Proofs.Scheduler.Monitoring
import ProcLisp.Proofs.Scheduler.Refinement
import ProcLisp.Proofs.Scheduler.Watching
import ProcLisp.Proofs.Reader.Tokens
import ProcLisp.Proofs.Reader.Grammar
import ProcLisp.Proofs.Reader.Completion
import ProcLisp.Proofs.Reader.Breaks
import ProcLisp.Proofs.Shell.Lines
import ProcLisp.Proofs.Text.Digits
import ProcLisp.Proofs.Text.Utf8
import ProcLisp.Proofs.Machine.Elision
import ProcLisp.Proofs.Machine.Sessions
import ProcLisp.Proofs.Scheduler.Elision
import ProcLisp.Proofs.Dict
import ProcLisp.Proofs.Machine.Spending
import ProcLisp.Proofs.Scheduler.Turns
import ProcLisp.Proofs.Journal.Archive
import ProcLisp.Proofs.Value.Likeness
import ProcLisp.Proofs.Syscall.Likeness
import ProcLisp.Proofs.Machine.Likeness
import ProcLisp.Proofs.Machine.Weakening
import ProcLisp.Proofs.Value.Built
import ProcLisp.Proofs.Indexed.Reads
import ProcLisp.Proofs.Indexed.Syscalls
import ProcLisp.Proofs.Machine.Built
import ProcLisp.Proofs.Indexed.Agreement
import ProcLisp.Proofs.Indexed.Safety
import ProcLisp.Proofs.Machine.Exact
import ProcLisp.Proofs.Machine.Answers
import ProcLisp.Proofs.Machine.Scopes
import ProcLisp.Proofs.Machine.Sequencing
import ProcLisp.Proofs.Machine.Discipline
import ProcLisp.Proofs.Machine.Reachable
import ProcLisp.Proofs.Machine.TailCalls
import ProcLisp.Proofs.Reader.Concatenation
import ProcLisp.Proofs.Journal.Iteration
import ProcLisp.Proofs.Machine.Accounts
import ProcLisp.Proofs.Syscall.Failures
import ProcLisp.Proofs.Machine.Reserved
import ProcLisp.Proofs.Env
import ProcLisp.Proofs.Value.Equality
import ProcLisp.Proofs.Syscall.Arithmetic
import ProcLisp.Proofs.Shell.Threading
import ProcLisp.Proofs.Reader.Places
import ProcLisp.Proofs.Syscall.Maps
