import GwBot.Bot.Entries
import GwBot.Bot.Pong
import GwBot.Bot.Progress
import GwBot.Curl.PerThread
import GwBot.Modules.Lifecycle
import GwBot.Ring.Backpressure
import GwBot.Ring.Release
import GwBot.Ring.Sizes
import GwBot.Ring.WaitCqe
import GwBot.TgApi.Grammar
import GwBot.TgApi.Prior
import GwBot.TgApi.Repeat
import GwBot.TgApi.Roundtrip
import GwBot.TgApi.Transfer
import GwBot.TgApi.Url
import GwBot.Thread.Lifetime
import GwBot.Thread.Refine
import GwBot.Workqueue.Accounting
import GwBot.Workqueue.Alloc
import GwBot.Workqueue.Capacity
import GwBot.Workqueue.Closed
import GwBot.Workqueue.OwnWorker
import GwBot.Workqueue.Shutdown
import GwBot.Workqueue.WaitAll
