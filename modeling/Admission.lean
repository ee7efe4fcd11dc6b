import Admission.Main
import Admission.Http.Message
import Admission.Config.Decode
import Admission.Session
import Admission.Store.Scripted
import Admission.Redis.Table
import Admission.Proofs.Decision.FirstBreach
import Admission.Proofs.Store.FixedWindow
import Admission.Proofs.Store.Interleaving
import Admission.Proofs.Decision.Concurrent
import Admission.Proofs.Decision.FailedExpiry
import Admission.Proofs.Decision.Traffic
import Admission.Proofs.Store.IntervalBound
import Admission.Proofs.Decision.AllowedRate
import Admission.Proofs.Decision.Justified
import Admission.Proofs.Decision.DisjointKeys
import Admission.Proofs.Decision.PendingExpiry
import Admission.Proofs.Decision.Turns
import Admission.Proofs.Decision.Persistence
import Admission.Proofs.Access.History
import Admission.Proofs.Address.Roundtrip
import Admission.Proofs.Access.MappedEntries
import Admission.Proofs.Client.ForwardedFor
import Admission.Proofs.Config.Changes
import Admission.Proofs.Decision.UnreadableClients
import Admission.Proofs.Session.ListedClients
import Admission.Proofs.Config.Loaders
import Admission.Proofs.Path.Detours
import Admission.Proofs.Path.Wildcards
import Admission.Proofs.Path.Printing
import Admission.Proofs.KeyTemplate.Substitution
import Admission.Proofs.KeyTemplate.Separation
import Admission.Proofs.Client.HostGrammar
import Admission.Proofs.Client.TrustedEntries
import Admission.Proofs.Decision.Deadlines
import Admission.Proofs.Config.Building
import Admission.Proofs.Config.Spelling
import Admission.Proofs.Config.Overrides
import Admission.Proofs.CommandLine.Repetition
import Admission.Proofs.Store.Commands
import Admission.Proofs.Store.Purging
import Admission.Proofs.Store.Occupancy
import Admission.Proofs.Store.TimeToReset
import Admission.Proofs.Redis.ExpiryWords
