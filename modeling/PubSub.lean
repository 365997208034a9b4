import PubSub.Broker.Lifecycle
import PubSub.Config.Load
import PubSub.Json.Value
import PubSub.Proofs.Binary
import PubSub.Proofs.Maps
import PubSub.Proofs.Bucket
import PubSub.Proofs.DurableQueue
import PubSub.Proofs.Utf8
import PubSub.Proofs.Frame
import PubSub.Proofs.Runs
import PubSub.Proofs.Requests
import PubSub.Proofs.Json
import PubSub.Proofs.Records
import PubSub.Proofs.Lifecycle
import PubSub.Proofs.Sound
import PubSub.Proofs.Jobs
import PubSub.Proofs.Clients
import PubSub.Proofs.Ledger
import PubSub.Proofs.Numbers
import PubSub.Proofs.Interests
import PubSub.Proofs.Lasting
import PubSub.Proofs.Keeping
import PubSub.Proofs.Durability
import PubSub.Proofs.Matching
import PubSub.Proofs.FilterMap
import PubSub.Proofs.Synced
import PubSub.Proofs.InSync
import PubSub.Proofs.Replacement
import PubSub.Proofs.Bindings
import PubSub.Proofs.ExchangeTable
import PubSub.Proofs.BoundAsHeld
import PubSub.Proofs.CleanStart
import PubSub.Proofs.Recording
import PubSub.Proofs.LateRegistrations
import PubSub.Proofs.Restart
import PubSub.Proofs.Offering
import PubSub.Proofs.NextNumber
import PubSub.Proofs.FanOut
import PubSub.Proofs.Stored
import PubSub.Proofs.Leaving
import PubSub.Proofs.SameView
import PubSub.Proofs.OwnCalls
import PubSub.Proofs.OwnSession
import PubSub.Proofs.Renewal
import PubSub.Proofs.Undisturbed
import PubSub.Proofs.RecordForm
import PubSub.Proofs.BucketCalls
import PubSub.Proofs.SavedSessions
import PubSub.Proofs.Opening
import PubSub.Proofs.Completion
import PubSub.Proofs.QueueOrder
import PubSub.Proofs.Outstanding
import PubSub.Proofs.Working
import PubSub.Proofs.TamperedRecords
import PubSub.Proofs.Recovery
import PubSub.Proofs.Acknowledging
import PubSub.Proofs.Redelivery
import PubSub.Proofs.Coverage
import PubSub.Proofs.BestEffortQueue
import PubSub.Proofs.OnePlace
import PubSub.Proofs.TrieForm
import PubSub.Proofs.Subscribing
import PubSub.Proofs.FilterForm
import PubSub.Proofs.SplitTrees
import PubSub.Proofs.OpenedTwice
import PubSub.Proofs.RestoreOrder
import PubSub.Proofs.LoadedOnce
import PubSub.Proofs.FailedOpening
import PubSub.Proofs.Precedence
import PubSub.Proofs.TwoReadings
import PubSub.Proofs.Templates
import PubSub.Proofs.Pruning
