import KVarN.Core.BlockPool
import KVarN.Lib.IndexArrays

/-!
# The exchange of expert weights

After the experts were placed anew, every rank moves the weights of its local experts: some rows
stay, some come from another local row, the others are received from a rank that had the expert.
Each rank plans its sends and receives on its own, from the old and the new map.

A map of `ranks * n` entries is a function on its positions; entry `-1` is an empty slot. A row
stands for the rows of all weight tensors of an expert. Streams and events are left out: a transfer
carries the row as it was when the send was posted.

## Main definitions

* `getEpRanksWithExpertsBatch` — who sends an expert and who receives it.
* `moveToBuffer` — one rank's local moves, sends and receives.
* `moveFromBuffer` — one rank's copies back, with the duplicates of received rows.
* `exchange` — all ranks.
-/

namespace KVarN.Eplb

open KVarN.Core (Fault orRaise)
open KVarN.Lib

/-! ## Who sends and who receives -/

section Ranks

variable (total n : ℕ)

/-- The ranks at which each queried expert is, in the order of their first position: one half of
`get_ep_ranks_with_experts_batch`. -/
def ranksByExpert (indices : ℕ → ℤ) (experts : List ℤ) : List (ℤ × List ℕ) :=
  let positions := (List.range total).filter (indices · ∈ experts)
  let sorted := positions.insertionSort fun p q =>
    indices p < indices q ∨ indices p = indices q ∧ p ≤ q
  (runs indices sorted).map fun run => (run.1, (run.2.map (· / n)).eraseDups)

/-- Experts without an entry get an empty one. -/
def withEmpty (experts : List ℤ) (ranks : List (ℤ × List ℕ)) : List (ℤ × List ℕ) :=
  ranks ++ (experts.filter fun e => (ranks.lookup e).isNone).map fun e => (e, [])

/-- `get_ep_ranks_with_experts_batch`: `ranks_to_send_map` and `ranks_to_recv_map`. Ranks that have
the expert do not receive it. -/
def getEpRanksWithExpertsBatch (old new : ℕ → ℤ) (experts : List ℤ) :
    List (ℤ × List ℕ) × List (ℤ × List ℕ) :=
  let uniq := experts.dedup.insertionSort (· ≤ ·)
  let send := ranksByExpert total n old uniq
  let recv := (ranksByExpert total n new uniq).map fun run =>
    (run.1, run.2.filter (· ∉ (send.lookup run.1).getD []))
  (withEmpty uniq send, withEmpty uniq recv)

end Ranks

/-! ## One rank -/

variable {W : Type}

structure Send (W : Type) where
  src : ℕ
  dst : ℕ
  expert : ℤ
  tensor : W

/-- A receive that was posted, into a row of the buffer. -/
structure Recv where
  src : ℕ
  dst : ℕ
  expert : ℤ
  row : ℕ
  deriving DecidableEq, Repr

/-- Source, destination and expert. -/
def Send.route (s : Send W) : ℕ × ℕ × ℤ := (s.src, s.dst, s.expert)

@[inherit_doc Send.route]
def Recv.route (r : Recv) : ℕ × ℕ × ℤ := (r.src, r.dst, r.expert)

/-- `TransferMetadata`. -/
structure TransferMetadata where
  isUnchanged : ℕ → Bool
  isReceivedLocally : ℕ → Bool
  recvPrimaryMask : ℕ → Bool
  /-- The first `recv_count` entries of `recv_expert_ids` and `recv_dst_rows`. -/
  recv : List (ℤ × ℕ)

/-- What a rank has posted, with its buffer. -/
structure Posted (W : Type) where
  sends : List (Send W)
  recvs : List Recv
  buffer : ℕ → W
  transferMetadata : TransferMetadata

section Rank

variable (ranks n : ℕ) (old new : ℕ → ℤ) (epRank : ℕ)

/-- The entries of a map that are this rank's. -/
def localExperts (indices : ℕ → ℤ) (row : ℕ) : ℤ := indices (epRank * n + row)

/-- The masks of `move_to_buffer`. -/
def transferMetadata : TransferMetadata :=
  let oldLocal := localExperts n epRank old
  let newLocal := localExperts n epRank new
  let isUnchanged row := decide (oldLocal row = newLocal row)
  let canRecvLocal row := decide (newLocal row ∈ (List.range n).map oldLocal)
  let isReceivedLocally row := isUnchanged row || (newLocal row ≠ -1 && canRecvLocal row)
  let needRecv := (List.range n).filter fun row => !isReceivedLocally row && newLocal row ≠ -1
  let recv := unique needRecv newLocal
  ⟨isUnchanged, isReceivedLocally, fun row => row ∈ recv.map (·.2), recv⟩

/-- `send_expert_ids` and `send_src_rows`: the first row of every local expert. -/
def sendMap : List (ℤ × ℕ) :=
  let oldLocal := localExperts n epRank old
  unique ((List.range n).filter (oldLocal · ≠ -1)) oldLocal

variable (w b : ℕ → W) (maps : List (ℤ × List ℕ) × List (ℤ × List ℕ)) (expert : ℤ)

def localMoves : ℕ → W :=
  let newLocal := localExperts n epRank new
  let md := transferMetadata n old new epRank
  let dests := (List.range n).filter fun row => !md.isUnchanged row && md.isReceivedLocally row
  dests.foldl (fun b dst =>
    match (sendMap n old epRank).lookup (newLocal dst) with
    | none => b
    | some src => Function.update b dst (w src)) b

/-- `np.argsort(experts, kind="stable")`. -/
def byExpert (l : List (ℤ × ℕ)) : List (ℤ × ℕ) := l.insertionSort fun a b => a.1 ≤ b.1

def postSend (src : ℕ) : Except Fault (List (Send W)) := do
  let ranksToSend ← orRaise .keyError (maps.1.lookup expert)
  let ranksToRecv ← orRaise .keyError (maps.2.lookup expert)
  if ranksToSend = [] ∨ ranksToRecv = [] then
    return []
  let senderPos ← orRaise .valueError (ranksToSend.idxOf? epRank)
  let recvRanks := share ranksToSend.length ranksToRecv senderPos
  return recvRanks.map fun dst => ⟨epRank, dst, expert, w src⟩

def postRecv (dst : ℕ) : Except Fault (List Recv) := do
  let ranksToSend ← orRaise .keyError (maps.1.lookup expert)
  let ranksToRecv ← orRaise .keyError (maps.2.lookup expert)
  if ranksToSend = [] ∨ ranksToRecv = [] then
    return []
  let recverPos ← orRaise .valueError (ranksToRecv.idxOf? epRank)
  let src ← orRaise .indexError
    (ranksToSend[owner ranksToSend.length ranksToRecv.length recverPos]?)
  return [⟨src, epRank, expert, dst⟩]

/-- `move_to_buffer` up to `communicator.execute()`. -/
def moveToBuffer : Except Fault (Posted W) := do
  let md := transferMetadata n old new epRank
  let buffer := localMoves n old new epRank w b
  let sendExperts := byExpert (sendMap n old epRank)
  let sendMaps := getEpRanksWithExpertsBatch (ranks * n) n old new (sendExperts.map (·.1))
  let sends ← sendExperts.mapM fun e => postSend epRank w sendMaps e.1 e.2
  let recvExperts := byExpert md.recv
  let recvMaps := getEpRanksWithExpertsBatch (ranks * n) n old new (recvExperts.map (·.1))
  let recvs ← recvExperts.mapM fun e => postRecv epRank recvMaps e.1 e.2
  return ⟨sends.flatten, recvs.flatten, buffer, md⟩

/-- `move_from_buffer`. -/
def moveFromBuffer (md : TransferMetadata) : ℕ → W :=
  let newLocal := localExperts n epRank new
  let dests := (List.range n).filter fun row =>
    !md.isUnchanged row && (md.isReceivedLocally row || md.recvPrimaryMask row)
  let w := writeRows b w dests
  if md.recv = [] then w
  else
    let dups := (List.range n).filter fun row => !md.isUnchanged row && !md.isReceivedLocally row
      && (!md.recvPrimaryMask row && newLocal row ≠ -1)
    let prim := byExpert md.recv
    let pos row := searchsorted (prim.map (·.1)) (newLocal row)
    let matched := dups.filter fun row => (prim[pos row]?).any (·.1 = newLocal row)
    copyRows (fun row => (prim[pos row]?).elim 0 (·.2)) w matched

end Rank

/-! ## All ranks -/

/-- `communicator.execute()` at one rank: every receive gets the row of the send with its route. A
receive without a send does not come back. -/
def execute (sends : List (Send W)) (recvs : List Recv) (buffer : ℕ → W) : Except Fault (ℕ → W) :=
  recvs.foldlM (fun buffer r => do
    let send ← orRaise .runtimeError (sends.find? (·.route = r.route))
    return Function.update buffer r.row send.tensor) buffer

/-- All ranks run `move_to_buffer` and then `move_from_buffer`. -/
def exchange (ranks n : ℕ) (old new : ℕ → ℤ) (w b : ℕ → ℕ → W) : Except Fault (List (ℕ → W)) := do
  let posted ← (List.range ranks).mapM fun r => moveToBuffer ranks n old new r (w r) (b r)
  let sends := posted.flatMap (·.sends)
  posted.zipIdx.mapM fun p => do
    let buffer ← execute sends p.1.recvs p.1.buffer
    return moveFromBuffer n new p.2 (w p.2) buffer p.1.transferMetadata

end KVarN.Eplb
