import SyncSwarm.Protocol.Signed

/-! The payloads of the packets with which nodes find one another. They travel as JSON. -/

namespace SyncSwarm.Protocol
open Lib

structure AnnouncePayload where
  destHash : String
  signKey : Bytes := []
  pubKey : Bytes := []
  mlkemPub : Bytes := []
  port : UInt16 := 0
  capabilities : List String := []
  relayIDs : List String := []
  appData : Bytes := []
  timestamp : Int
  nonce : UInt64
  hopCount : UInt8 := 0
  signature : Bytes := []
  deriving DecidableEq

namespace AnnouncePayload

def putLen (n : Nat) : Bytes := be32 (UInt32.ofNat n)

def putStrs (l : List String) : Bytes := putLen l.length ++ l.flatMap fun s => lenBytes (strBytes s)

def signedBytes (a : AnnouncePayload) : Bytes :=
  lenBytes (strBytes a.destHash) ++ lenBytes a.signKey ++ lenBytes a.pubKey ++ lenBytes a.mlkemPub
    ++ beBytes 2 a.port.toNat ++ putStrs a.capabilities ++ lenBytes a.appData
    ++ (if 0 < a.relayIDs.length then putStrs a.relayIDs else [])
    ++ be64 (UInt64.ofInt a.timestamp) ++ be64 a.nonce

def sign (S : Signatures) (priv : Bytes) (a : AnnouncePayload) : AnnouncePayload :=
  if priv.length = 64 then
    let b := { a with signKey := S.publicKey priv }
    { b with signature := S.sign priv b.signedBytes }
  else a

def verifySig (S : Signatures) (a : AnnouncePayload) : Bool := S.verifies a.signKey a.signedBytes a.signature

def verifyBound (S : Signatures) (a : AnnouncePayload) : Bool :=
  a.destHash ≠ "" && deriveNodeID S a.signKey = a.destHash && a.verifySig S

end AnnouncePayload

structure PathRequestPayload where
  destHash : String
  nonce : UInt64
  hopCount : UInt8
  deriving DecidableEq

structure DiscoveryPayload where
  nodeID : String
  version : String := ""
  capabilities : List String := []
  port : UInt16 := 0
  nonce : UInt64 := 0
  pubKey : Bytes := []
  signKey : Bytes := []
  observedAddr : String := ""
  relayIDs : List String := []
  mlkemPub : Bytes := []
  deriving DecidableEq

structure PeerInfo where
  nodeID : String
  address : String := ""
  pubKey : Bytes := []
  signKey : Bytes := []
  port : UInt16 := 0
  capabilities : List String := []
  relayIDs : List String := []
  mlkemPub : Bytes := []
  lastSeen : Int
  deriving DecidableEq

structure PeerExchangePayload where
  peers : List PeerInfo
  deriving DecidableEq

structure DHTContact where
  nodeID : String
  address : String := ""
  pubKey : Bytes := []
  signKey : Bytes := []
  port : UInt16 := 0
  mlkemPub : Bytes := []
  deriving DecidableEq

structure FindNodePayload where
  nodeID : String
  pubKey : Bytes := []
  port : UInt16 := 0
  target : String := ""
  nonce : UInt64 := 0
  deriving DecidableEq

structure FindNodeReplyPayload where
  nonce : UInt64
  target : String
  contacts : List DHTContact
  deriving DecidableEq

/-- `json.Marshal` and `json.Unmarshal` for one type. --/
structure Codec (α : Type) where
  marshal : α → Bytes
  unmarshal : Bytes → Option α

structure Json where
  announce : Codec AnnouncePayload
  pathRequest : Codec PathRequestPayload
  discovery : Codec DiscoveryPayload
  peerExchange : Codec PeerExchangePayload
  findNode : Codec FindNodePayload
  findNodeReply : Codec FindNodeReplyPayload

end SyncSwarm.Protocol
