import ReticulumLite.Tables.Incarnations
import ReticulumLite.Tables.Queue
import ReticulumLite.Tables.SeenMessages
import ReticulumLite.Node.LifetimeToken
import ReticulumLite.Proof.Lifecycle
import ReticulumLite.Proof.LeastRecent
import ReticulumLite.Proof.Refusals
import ReticulumLite.Proof.Completion
import ReticulumLite.Proof.Rebroadcasts
import ReticulumLite.Proof.Emissions
import ReticulumLite.Proof.Agreement
import ReticulumLite.Proof.Sessions
import ReticulumLite.Proof.RatchetKeys
import ReticulumLite.Proof.Rounds
import ReticulumLite.Proof.Delivery
import ReticulumLite.Proof.Admission
import ReticulumLite.Proof.Airtime
import ReticulumLite.Proof.Limiter
import ReticulumLite.Proof.Restarts
import ReticulumLite.Proof.Retained
import ReticulumLite.Proof.Blame
import ReticulumLite.Proof.Quotas
import ReticulumLite.Proof.Discoveries
import ReticulumLite.Proof.PathRequests
import ReticulumLite.Proof.Hops
