import Ddup.Table.RhtableTheorems
import Ddup.Acl.AuthorizeTheorems
import Ddup.Server.WatchTheorems
import Ddup.Server.AccountingTheorems
import Ddup.Snapshot.UnionTheorems
import Ddup.Tier.ColdTheorems
import Ddup.Resp.StreamTheorems
import Ddup.Server.CentralStreamTheorems
import Ddup.Server.SortReplyTheorems
import Ddup.Resp.FastPathTheorems
import Ddup.Resp.RoundTripTheorems
import Ddup.Server.StreamCounterTheorems
import Ddup.Ds.QuicklistTheorems
import Ddup.Ds.SkiplistRunTheorems
import Ddup.Cluster.ConvergenceTheorems
import Ddup.Cluster.OwnEntryTheorems
import Ddup.Acl.UsersTheorems
import Ddup.Acl.PatternTheorems
import Ddup.Server.ExactTheorems
import Ddup.Server.TrimTheorems
import Ddup.Server.AofTheorems
import Ddup.Command.HashSlotTheorems
import Ddup.Cluster.VoteTheorems
import Ddup.Lib.Ring
import Ddup.Server.BacklogTheorems
import Ddup.Server.WorkerQueueTheorems
import Ddup.Tier.CutTheorems
