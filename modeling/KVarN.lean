import KVarN.Tile.SinkLabels
import KVarN.Tile.Sharing
import KVarN.Tile.Flush
import KVarN.Attn.Attended
import KVarN.Mla.Committed
import KVarN.Mla.FastSkip
import KVarN.Core.WindowCap
import KVarN.Sched.EncoderAccounts
import KVarN.Sched.Separation
import KVarN.Sched.MambaResidency
import KVarN.Sched.MambaSplit
import KVarN.Sched.Batch
import KVarN.SpecDecode.NgramProposer
import KVarN.Offload.CPUResidency
import KVarN.Offload.Eviction
import KVarN.Worker.ContextParallel
import KVarN.Worker.ThinkingBudget
import KVarN.Frontend.EventOrder
import KVarN.Eplb.Delivery
