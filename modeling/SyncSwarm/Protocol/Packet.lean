import SyncSwarm.Lib.Bytes

/-! The packet: the fields that the receiving side of a transfer reads. -/

namespace SyncSwarm.Protocol
open Lib

abbrev TransferID := FixedBytes 32

structure Packet where
  id : TransferID
  sourceNode : String := ""
  totalChunks : UInt32 := 0
  chunkNumber : UInt32 := 0
  subIndex : UInt32 := 0
  subTotal : UInt32 := 0
  streaming : Bool := false
  blockIndex : UInt32 := 0
  blockLen : UInt32 := 0
  final : Bool := false
  hybridSealed : Bool := false
  pq : Bool := false
  resumable : Bool := false
  dataShards : UInt32 := 0
  parityShards : UInt32 := 0
  originalLen : UInt64 := 0
  isVariable : Bool := false
  replyBlock : Bytes := []
  payload : Bytes := []
  deriving DecidableEq

end SyncSwarm.Protocol
