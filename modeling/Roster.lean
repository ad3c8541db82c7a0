import Roster.Config.Document
import Roster.Provision.Create
import Roster.Provision.Values
import Roster.Proofs.Reading
import Roster.Proofs.Operations
import Roster.Proofs.Refusals
import Roster.Proofs.LateRefusals
import Roster.Proofs.Memberships
import Roster.Proofs.Lookups
import Roster.Proofs.Removals
import Roster.Proofs.Moves
import Roster.Proofs.Retention
import Roster.Proofs.Planning
import Roster.Proofs.Stranding
import Roster.Proofs.Spelling
import Roster.Proofs.Regrouping
import Roster.Proofs.Reconciliation
import Roster.Proofs.SuppliedValues
import Roster.Proofs.Maintenance
import Roster.Proofs.DiffRuns
import Roster.Proofs.Following
import Roster.Proofs.Histories
import Roster.Proofs.OwnReferences
import Roster.Proofs.Spreading
import Roster.Proofs.RequestOrder
import Roster.Proofs.Survivals
import Roster.Proofs.MissingEntries
import Roster.Proofs.CanonicalReferences
import Roster.Proofs.MembershipSearch
import Roster.Proofs.Identifiers
import Roster.Proofs.Creation
import Roster.Proofs.Secrecy
import Roster.Proofs.Restoring
import Roster.Proofs.Repetition
import Roster.Proofs.DiffHistories
import Roster.Proofs.FilterTexts
import Roster.Proofs.ChildNames
import Roster.Proofs.LowerCase
import Roster.Proofs.NameKeys
import Roster.Proofs.ValueSets
import Roster.Proofs.DiffOutcomes
import Roster.Proofs.Relocations
import Roster.Proofs.TrailingSpaces
import Roster.Proofs.StoredPasswords
import Roster.Proofs.InputOrder
import Roster.Proofs.MemberSeeds
import Roster.Proofs.CacheSessions
import Roster.Proofs.AttributeMaps
import Roster.Proofs.Rebasing
import Roster.Proofs.Denials
import Roster.Proofs.GroupSets
