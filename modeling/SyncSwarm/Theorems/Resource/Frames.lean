import SyncSwarm.Link.Resource

/-! What the handlers of the resource layer do with the frames that the encoders build: the parsers give
    back what was encoded. -/

namespace SyncSwarm.Link
open Lib List

/-! ### Parsing -/

section
variable (tag : UInt8) (id : ResID) (rest : Bytes)

@[simp] theorem frameID_cons : frameID (tag :: (id.val ++ rest)) = id := FixedBytes.copy_append id rest

theorem drop_frame (k : Nat) : (tag :: (id.val ++ rest)).drop (1 + resIDLen + k) = rest.drop k := by
  have hlen : id.val.length = resIDLen := id.length_val
  rw [Nat.add_comm 1 resIDLen, Nat.succ_add, drop_succ_cons, ← hlen, drop_length_add_append]

theorem frameU32_cons (v : UInt32) : frameU32 (tag :: (id.val ++ (be32 v ++ rest))) 0 = v.toNat := by
  rw [frameU32, drop_frame, drop_zero, u32_be32]

theorem length_frame : (tag :: (id.val ++ rest)).length = 1 + resIDLen + rest.length := by
  rw [length_cons, length_append, FixedBytes.length_val]
  simp only [resIDLen]
  omega

theorem drop_u32 (v : UInt32) (k : Nat) : (be32 v ++ rest).drop (4 + k) = rest.drop k := by
  rw [← length_be32 v, drop_length_add_append]

end

/-! ### Receiver -/

namespace ResourceReceiver
variable {sha256 : Bytes → Hash} (r : ResourceReceiver) (id : ResID) (now : Int) (order : List ResID)

theorem feed_adv (total partSize : UInt32) (whole : Hash) :
    r.feed sha256 (encodeAdv id total partSize whole) now order =
      ⟨r.advertise id total.toNat partSize.toNat whole, [], []⟩ := by
  have hsize : frameU32 (encodeAdv id total partSize whole) 4 = partSize.toNat := by
    rw [frameU32, encodeAdv, drop_frame, drop_u32 _ _ 0, drop_zero, u32_be32]
  have hwhole : FixedBytes.copy 32 ((encodeAdv id total partSize whole).drop (1 + resIDLen + 8)) = whole := by
    rw [encodeAdv, drop_frame, drop_u32 _ _ 4, drop_u32 _ _ 0, drop_zero]
    simpa using FixedBytes.copy_append whole []
  have hlen : (encodeAdv id total partSize whole).length = resHdrAdv := by
    rw [encodeAdv, length_frame]
    simp [resHdrAdv, resIDLen]
  have hid : frameID (encodeAdv id total partSize whole) = id := frameID_cons _ _ _
  have htotal : frameU32 (encodeAdv id total partSize whole) 0 = total.toNat := frameU32_cons _ _ _ _
  have htag : (encodeAdv id total partSize whole).head? = some resTagAdv := rfl
  rw [feed, if_neg (by rw [hlen]; decide), if_pos htag]
  rw [onAdv, if_neg (by rw [hlen]; exact Nat.lt_irrefl _), hid, htotal, hsize, hwhole]

theorem feed_part (index : UInt32) (data : Bytes) :
    r.feed sha256 (encodePart id index data) now order =
      r.receivePart sha256 id index.toNat data now order := by
  have hlen : (encodePart id index data).length = 1 + resIDLen + 4 + data.length := by
    rw [encodePart, length_frame, length_append, length_be32]
    omega
  have hid : frameID (encodePart id index data) = id := frameID_cons _ _ _
  have hindex : frameU32 (encodePart id index data) 0 = index.toNat := frameU32_cons _ _ _ _
  have hdata : (encodePart id index data).drop (1 + resIDLen + 4) = data := by
    rw [encodePart, drop_frame, drop_u32 _ _ 0, drop_zero]
  have htag : (encodePart id index data).head? = some resTagPart := rfl
  rw [feed, if_neg (by rw [hlen]; omega), if_neg (by rw [htag]; decide), if_pos htag, onPart,
    if_neg (by rw [hlen]; omega), hid, hindex, hdata]

end ResourceReceiver

/-! ### Sender -/

namespace ResourceSender
variable (s : ResourceSender) (now : Int)

theorem feed_done : s.feed (encodeDone s.id) now = (s.finish (.ok ()), []) := by
  have hid : frameID (encodeDone s.id) = s.id := by simpa [encodeDone] using frameID_cons resTagDone s.id []
  have htag : (encodeDone s.id).head? = some resTagDone := rfl
  rw [feed, if_neg, if_neg (by rw [htag]; decide), if_pos htag]
  rw [hid]
  simp [encodeDone, resIDLen]

theorem feed_ack (base : UInt32) {bitmap : Bytes} (hb : bitmap.length < 256) :
    s.feed (encodeAck s.id base bitmap) now =
      if s.parts.length ≤ (s.mark base.toNat bitmap).base then ((s.mark base.toNat bitmap).finish (.ok ()), [])
      else (s.mark base.toNat bitmap).fillWindowLocked now := by
  have hcount : (UInt8.ofNat bitmap.length).toNat = bitmap.length := by
    rw [UInt8.toNat_ofNat']
    exact Nat.mod_eq_of_lt hb
  have hlen : (encodeAck s.id base bitmap).length = 1 + resIDLen + 5 + bitmap.length := by
    rw [encodeAck, length_frame, length_append, length_be32, length_cons]
    omega
  have hid : frameID (encodeAck s.id base bitmap) = s.id := frameID_cons _ _ _
  have hbase : frameU32 (encodeAck s.id base bitmap) 0 = base.toNat := frameU32_cons _ _ _ _
  have hbm : (encodeAck s.id base bitmap).drop (1 + resIDLen + 4) = UInt8.ofNat bitmap.length :: bitmap := by
    rw [encodeAck, drop_frame, drop_u32 _ _ 0, drop_zero]
  have hn : ((encodeAck s.id base bitmap).getD (1 + resIDLen + 4) 0).toNat = bitmap.length := by
    have := congrArg (fun l => l[0]?) hbm
    rw [getElem?_drop] at this
    simp [getD_eq_getElem?_getD, this, hcount]
  have hbits : ((encodeAck s.id base bitmap).drop (1 + resIDLen + 5)).take bitmap.length = bitmap := by
    rw [show 1 + resIDLen + 5 = 1 + resIDLen + 4 + 1 from rfl, ← drop_drop, hbm]
    simp
  have htag : (encodeAck s.id base bitmap).head? = some resTagAck := rfl
  rw [feed, if_neg (by rw [hlen, hid]; simp; omega), if_pos htag, onAck, if_neg (by rw [hlen]; omega)]
  simp only [hn, hlen, hbase, hbits, Nat.lt_irrefl, if_false]
  rfl

end ResourceSender
end SyncSwarm.Link
