import BankingControlPlane.Data.Keyed
import BankingControlPlane.Data.Past
import BankingControlPlane.Effects.Pool
import BankingControlPlane.Effects.Run
import BankingControlPlane.Evals.Runner
import BankingControlPlane.Plane.Sample
import BankingControlPlane.Safety.Accounts
import BankingControlPlane.Safety.Amounts
import BankingControlPlane.Safety.Assurance
import BankingControlPlane.Safety.Attribution
import BankingControlPlane.Safety.Checks
import BankingControlPlane.Safety.Consent
import BankingControlPlane.Safety.Console
import BankingControlPlane.Safety.Screening
import BankingControlPlane.Safety.Conversation
import BankingControlPlane.Safety.Answering
import BankingControlPlane.Safety.Golden
import BankingControlPlane.Safety.Conservation
import BankingControlPlane.Safety.CrashSafety
import BankingControlPlane.Safety.Danger
import BankingControlPlane.Safety.Drift
import BankingControlPlane.Safety.Endpoints
import BankingControlPlane.Safety.Gates
import BankingControlPlane.Safety.Grammar
import BankingControlPlane.Safety.History
import BankingControlPlane.Safety.Honesty
import BankingControlPlane.Safety.Identities
import BankingControlPlane.Safety.Isolation
import BankingControlPlane.Safety.Lineage
import BankingControlPlane.Safety.LiveWorker
import BankingControlPlane.Safety.NightCap
import BankingControlPlane.Safety.OnePayment
import BankingControlPlane.Safety.Pages
import BankingControlPlane.Safety.Percentiles
import BankingControlPlane.Safety.Prices
import BankingControlPlane.Safety.Races
import BankingControlPlane.Safety.Rail
import BankingControlPlane.Safety.Readers
import BankingControlPlane.Safety.Recording
import BankingControlPlane.Safety.Regressions
import BankingControlPlane.Safety.Scheduled
import BankingControlPlane.Safety.Sealing
import BankingControlPlane.Safety.Splicing
import BankingControlPlane.Safety.Stored
import BankingControlPlane.Safety.Stores
import BankingControlPlane.Safety.Stranded
import BankingControlPlane.Safety.Table
import BankingControlPlane.Safety.Transcripts
import BankingControlPlane.Safety.Verdicts
import BankingControlPlane.Safety.Wire
import BankingControlPlane.Safety.ZeroTolerance
import BankingControlPlane.Safety.Chunks
import BankingControlPlane.Safety.CallOff
import BankingControlPlane.Plane.Waiting
