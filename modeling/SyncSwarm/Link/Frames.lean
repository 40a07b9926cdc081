import SyncSwarm.Lib.Json
import SyncSwarm.Link.Message
import SyncSwarm.Link.Session
import SyncSwarm.Protocol.Signed

/-! The frames of a link: a payload in JSON, in a packet to anyone. -/

namespace SyncSwarm.Link
open Lib Protocol

def subResource : UInt8 := 0x02

namespace LinkPacket

def type : LinkPacket → PacketType
  | request _ => .linkRequest
  | proof _ => .linkProof
  | data _ => .linkData

def json : LinkPacket → Bytes
  | request req => Json.object [("LinkID", Json.array req.linkID.val), ("EphPub", Json.slice req.ephPub)]
  | proof pr =>
    Json.object [("LinkID", Json.array pr.linkID.val), ("EphPub", Json.slice pr.ephPub),
      ("Signature", Json.slice pr.signature)]
  | data d => Json.object [("LinkID", Json.array d.linkID.val), ("Nonce", Json.slice d.nonce),
    ("Cipher", Json.slice d.cipher)]

def frame (S : Signatures) (text : Int → Bytes) (now : Int) (p : LinkPacket) : Bytes :=
  marshalBinary (SignedPacket.new S text p.type p.json "ANY" "" now)

end LinkPacket

/-- `Router.SendMessage` and `Router.SendRelay` over the chunk size of the link; `sub` is the
    byte before each frame. --/
def routerSend (send : Bytes → Option String) (drawn : Except String MsgID) (sub : UInt8) (chunk : Int) (data : Bytes) :
    List Bytes × Option String :=
  sendMessageChunks (fun f => send (sub :: f)) drawn (Int64.ofInt (chunk - 1)) data

end SyncSwarm.Link
