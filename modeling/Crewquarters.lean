import Crewquarters.Proofs.Stranded
import Crewquarters.Proofs.Tokens
import Crewquarters.Proofs.Stopped
import Crewquarters.Proofs.Pending
import Crewquarters.Proofs.Claims
import Crewquarters.Proofs.Telephony
import Crewquarters.Proofs.Views
import Crewquarters.Proofs.Streams
import Crewquarters.Proofs.Reservations
import Crewquarters.Proofs.Budgets
import Crewquarters.Proofs.Scheduler
import Crewquarters.Proofs.Stale
import Crewquarters.Proofs.Ends
import Crewquarters.Proofs.Deadlines
import Crewquarters.Proofs.Answers
import Crewquarters.Proofs.Batches
import Crewquarters.Proofs.Delivery
import Crewquarters.Proofs.EventStream
import Crewquarters.Proofs.Reaper
import Crewquarters.Proofs.SecretStore
import Crewquarters.Proofs.Approvals
import Crewquarters.Proofs.Uninstall
import Crewquarters.Proofs.OwnerCalls
import Crewquarters.Proofs.Bootstrap
import Crewquarters.Proofs.Untrusted
import Crewquarters.Proofs.Redacted
import Crewquarters.Proofs.Chunking
import Crewquarters.Proofs.Passages
import Crewquarters.Proofs.Script
import Crewquarters.Proofs.Ranges
import Crewquarters.Proofs.VoiceAudio
import Crewquarters.Proofs.RateLimiter
import Crewquarters.Proofs.VoiceOutcome
import Crewquarters.Proofs.Contacts
import Crewquarters.Proofs.TestCalls
import Crewquarters.Proofs.ChatStream
import Crewquarters.Proofs.PrReviews
import Crewquarters.Proofs.DockerLogs
import Crewquarters.Proofs.Pagination
