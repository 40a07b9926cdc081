import SyncSwarm.Protocol.Signed
import SyncSwarm.Lib.Except

/-! The form of packets on the wire. Packets are read back, and no part of one is a packet. -/

namespace SyncSwarm.Protocol
open Lib List

/-! ### Values -/

def IsGoString (s : String) : Prop := ∀ c ∈ s.toList, c.toNat < 256

instance (s : String) : Decidable (IsGoString s) :=
  decidable_of_iff (s.toList.all fun c => c.toNat < 256) (by simp [IsGoString])

theorem goString_strBytes {s : String} (h : IsGoString s) : goString (strBytes s) = s := by
  have hid : (s.toList.map fun c => UInt8.ofNat c.toNat).map (fun x : UInt8 => Char.ofNat x.toNat) = s.toList := by
    rw [map_map]
    conv_rhs => rw [← map_id s.toList]
    refine map_congr_left fun c hc => ?_
    show Char.ofNat (UInt8.ofNat c.toNat).toNat = c
    rw [UInt8.toNat_ofNat', Nat.mod_eq_of_lt (h c hc), Char.ofNat_toNat]
  rw [goString, strBytes, hid, String.ofList_toList]

theorem toInt_ofInt {n : Int} (hlow : -9223372036854775808 ≤ n) (hhigh : n < 9223372036854775808) :
    (UInt64.ofInt n).toInt64.toInt = n := by
  have hmod : 0 ≤ n % 18446744073709551616 := Int.emod_nonneg n (by decide)
  rw [show UInt64.ofInt n = UInt64.ofNat (n % 18446744073709551616).toNat from rfl, UInt64.toInt64_ofNat',
    Int64.toInt_ofNat',
    Int.toNat_of_nonneg hmod]
  have hbmod : (n % 18446744073709551616).bmod 18446744073709551616 = n.bmod 18446744073709551616 := Int.emod_bmod n _
  exact hbmod.trans (Int.bmod_eq_of_le hlow hhigh)

/-- What a packet of the source is here: its strings are strings of bytes, and its type is known under its name. --/
structure SignedPacket.Proper (p : SignedPacket) : Prop where
  type : PacketType.ofCode p.type.code = p.type
  sourceNode : IsGoString p.sourceNode
  destGroup : IsGoString p.destGroup
  destNode : IsGoString p.destNode

/-- The timestamp is one that `int64` holds. --/
structure SignedPacket.Timed (p : SignedPacket) : Prop where
  low : -9223372036854775808 ≤ p.timestamp
  high : p.timestamp < 9223372036854775808

/-- The variable fields have lengths that their prefixes can say. --/
structure SignedPacket.Short (p : SignedPacket) : Prop where
  sourceNode : (strBytes p.sourceNode).length < 4294967296
  destGroup : (strBytes p.destGroup).length < 4294967296
  destNode : (strBytes p.destNode).length < 4294967296
  payload : p.payload.length < 4294967296
  signerKey : p.signerKey.length < 4294967296
  signature : p.signature.length < 4294967296
  replyBlock : p.replyBlock.length < 4294967296
  pad : p.pad.length < 4294967296

namespace Reader
variable {α β : Type}

/-! ### Reading back -/

/-- The reader finds the value written as `enc`, and leaves what comes behind. --/
def Reads (m : StateM Reader α) (enc : Bytes) (v : α) : Prop := ∀ rest, m.run ⟨enc ++ rest, false⟩ = (v, ⟨rest, false⟩)

theorem reads_pure (v : α) : Reads (pure v) [] v := fun _ => rfl

theorem Reads.bind {m : StateM Reader α} {f : α → StateM Reader β} {e e' : Bytes} {v : α} {x : β} (h : Reads m e v)
    (h' : Reads (f v) e' x) : Reads (m >>= f) (e ++ e') x := by
  intro rest
  rw [append_assoc, StateT.run_bind, h]
  exact h' rest

theorem Reads.map {m : StateM Reader α} {f : α → β} {e : Bytes} {v : α} (h : Reads m e v) :
    Reads (do return f (← m)) e (f v) := by
  intro rest
  rw [StateT.run_bind, h]
  rfl

theorem reads_take {n : Nat} {b : Bytes} (h : b.length = n) : Reads (take n) b b := by
  intro rest
  subst h
  have hle : ¬b.length + rest.length < b.length := Nat.not_lt.mpr (Nat.le_add_right _ _)
  simp [take, StateT.run, hle]

theorem reads_u8 (x : UInt8) : Reads u8 [x] x := (reads_take (b := [x]) rfl).map

theorem reads_bool (v : Bool) : Reads bool [boolByte v] v := by
  have h := (reads_u8 (boolByte v)).map (f := fun x => decide (x = 1))
  cases v <;> exact h

theorem reads_u32 (v : UInt32) : Reads u32 (be32 v) v := by
  have h := (reads_take (length_be32 v)).map (f := fun d => if d.length = 4 then Lib.u32 d else 0)
  have hv : (if (be32 v).length = 4 then Lib.u32 (be32 v) else 0) = v := by
    rw [if_pos (length_be32 v)]
    conv_lhs => rw [← append_nil (be32 v)]
    exact u32_be32 v []
  rwa [hv] at h

theorem reads_u64 (v : UInt64) : Reads u64 (be64 v) v := by
  have h := (reads_take (length_be64 v)).map (f := fun d => if d.length = 8 then UInt64.ofNat (beNat d) else 0)
  rwa [if_pos (length_be64 v), beNat_be64] at h

theorem reads_bytes {b : Bytes} (h : b.length < 4294967296) : Reads bytes (lenBytes b) b := by
  refine (reads_u32 _).bind (reads_take ?_)
  rw [UInt32.toNat_ofNat_of_lt' h]

theorem reads_string {s : String} (h : (strBytes s).length < 4294967296) (hs : IsGoString s) :
    Reads string (lenBytes (strBytes s)) s := by
  have h := (reads_bytes h).map (f := goString)
  rwa [goString_strBytes hs] at h

end Reader

theorem marshalBinary_eq (p : SignedPacket) : marshalBinary p =
    p.id.val ++ ([p.type.code] ++ (be64 (UInt64.ofInt p.timestamp) ++ (lenBytes (strBytes p.sourceNode) ++
      (lenBytes (strBytes p.destGroup) ++
        (lenBytes (strBytes p.destNode) ++ (be32 p.totalChunks ++ (be32 p.chunkNumber ++
      (be32 p.subIndex ++ (be32 p.subTotal ++ ([boolByte p.streaming] ++ (be32 p.blockIndex ++ (be32 p.blockLen ++
      ([boolByte p.final] ++
        ([boolByte p.hybridSealed] ++ ([boolByte p.pq] ++ ([boolByte p.resumable] ++ (be32 p.dataShards ++
      (be32 p.parityShards ++
        (be64 p.originalLen ++ ([boolByte p.isVariable] ++ ([boolByte p.decoy] ++ (be32 p.payloadSize ++
      (lenBytes p.payload ++ (lenBytes p.signerKey ++ (lenBytes p.signature ++ (lenBytes p.replyBlock ++
      (lenBytes p.pad ++ []))))))))))))))))))))))))))) := by
  unfold marshalBinary
  simp only [append_assoc, cons_append, nil_append, append_nil]

open Reader in
theorem reads_packet {p : SignedPacket} (hp : p.Proper) (ht : p.Timed) (hs : p.Short) :
    Reads packet (marshalBinary p) p := by
  rw [marshalBinary_eq]
  unfold packet
  refine (reads_take (FixedBytes.length_val p.id)).bind <| (reads_u8 _).bind <| (reads_u64 _).bind <|
    (reads_string hs.sourceNode hp.sourceNode).bind <| (reads_string hs.destGroup hp.destGroup).bind <|
    (reads_string hs.destNode hp.destNode).bind <| (reads_u32 _).bind <| (reads_u32 _).bind <| (reads_u32 _).bind <|
    (reads_u32 _).bind <| (reads_bool _).bind <| (reads_u32 _).bind <| (reads_u32 _).bind <| (reads_bool _).bind <|
    (reads_bool _).bind <| (reads_bool _).bind <| (reads_bool _).bind <| (reads_u32 _).bind <| (reads_u32 _).bind <|
    (reads_u64 _).bind <| (reads_bool _).bind <| (reads_bool _).bind <| (reads_u32 _).bind <|
    (reads_bytes hs.payload).bind <| (reads_bytes hs.signerKey).bind <| (reads_bytes hs.signature).bind <|
    (reads_bytes hs.replyBlock).bind <| (reads_bytes hs.pad).bind ?_
  have hid : FixedBytes.copy 32 p.id.val = p.id := by
    conv_lhs => rw [← append_nil p.id.val]
    exact FixedBytes.copy_append p.id []
  rw [hid, hp.type, toInt_ofInt ht.low ht.high]
  exact reads_pure p

theorem Reader.Reads.inj {α : Type} {m : StateM Reader α} {e e' r s : Bytes} {v v' : α} (h : Reads m e v)
    (h' : Reads m e' v') (heq : e ++ r = e' ++ s) : v = v' ∧ r = s := by
  have hread := h r
  rw [heq, h' s] at hread
  obtain ⟨hv, hr⟩ := Prod.mk.inj hread
  exact ⟨hv.symm, (congrArg Reader.b hr).symm⟩

/-! ### More and less to read -/

namespace Reader
variable {α β : Type}

/-- An error stays, and what is behind that which is read does not matter. --/
structure Cursor (m : StateM Reader α) : Prop where
  sticky : ∀ r : Reader, r.err = true → (m.run r).2.err = true
  onward : ∀ (b rest : Bytes) (v : α) (b' : Bytes), m.run ⟨b, false⟩ = (v, ⟨b', false⟩) →
    m.run ⟨b ++ rest, false⟩ = (v, ⟨b' ++ rest, false⟩)

theorem cursor_pure (v : α) : Cursor (pure v : StateM Reader α) where
  sticky _ h := h
  onward b rest x b' h := by
    obtain ⟨rfl, hr⟩ := Prod.mk.inj h
    obtain rfl : b = b' := congrArg Reader.b hr
    rfl

theorem Cursor.bind {m : StateM Reader α} {f : α → StateM Reader β} (h : Cursor m) (hf : ∀ v, Cursor (f v)) :
    Cursor (m >>= f) where
  sticky r hr := (hf _).sticky _ (h.sticky r hr)
  onward b rest x b' hx := by
    rw [StateT.run_bind] at hx ⊢
    obtain ⟨v, ⟨c, err⟩, hv⟩ : ∃ v r, m.run ⟨b, false⟩ = (v, r) := ⟨_, _, rfl⟩
    rw [hv] at hx
    cases err with
    | true =>
      -- The second reader would have kept the error.
      have herr := (hf v).sticky ⟨c, true⟩ rfl
      have hx : (f v).run ⟨c, true⟩ = (x, ⟨b', false⟩) := hx
      rw [hx] at herr
      cases herr
    | false =>
      rw [h.onward b rest v c hv]
      exact (hf v).onward c rest x b' hx

theorem cursor_take (n : Nat) : Cursor (take n) where
  sticky r hr := by simp [take, StateT.run, hr]
  onward b rest v b' h := by
    by_cases hn : b.length < n
    · simp only [take, StateT.run, Bool.false_eq_true, if_false, hn, if_true] at h
      cases congrArg (fun x : Bytes × Reader => x.2.err) h
    · simp only [take, StateT.run, Bool.false_eq_true, if_false, hn] at h
      obtain ⟨rfl, hr⟩ := Prod.mk.inj h
      obtain rfl : b.drop n = b' := congrArg Reader.b hr
      have hle : n ≤ b.length := Nat.not_lt.mp hn
      have hn' : ¬b.length + rest.length < n := by omega
      simp [take, StateT.run, hn', take_append_of_le_length hle, drop_append_of_le_length hle]

theorem cursor_u8 : Cursor u8 := (cursor_take 1).bind fun _ => cursor_pure _

theorem cursor_bool : Cursor bool := cursor_u8.bind fun _ => cursor_pure _

theorem cursor_u32 : Cursor u32 := (cursor_take 4).bind fun _ => cursor_pure _

theorem cursor_u64 : Cursor u64 := (cursor_take 8).bind fun _ => cursor_pure _

theorem cursor_bytes : Cursor bytes := cursor_u32.bind fun n => cursor_take n.toNat

theorem cursor_string : Cursor string := cursor_bytes.bind fun _ => cursor_pure _

theorem cursor_packet : Cursor packet := by
  unfold packet
  exact (cursor_take 32).bind fun _ => cursor_u8.bind fun _ => cursor_u64.bind fun _ => cursor_string.bind fun _ =>
    cursor_string.bind fun _ => cursor_string.bind fun _ => cursor_u32.bind fun _ => cursor_u32.bind fun _ =>
    cursor_u32.bind fun _ => cursor_u32.bind fun _ => cursor_bool.bind fun _ => cursor_u32.bind fun _ =>
    cursor_u32.bind fun _ => cursor_bool.bind fun _ => cursor_bool.bind fun _ => cursor_bool.bind fun _ =>
    cursor_bool.bind fun _ => cursor_u32.bind fun _ => cursor_u32.bind fun _ => cursor_u64.bind fun _ =>
    cursor_bool.bind fun _ => cursor_bool.bind fun _ => cursor_u32.bind fun _ => cursor_bytes.bind fun _ =>
    cursor_bytes.bind fun _ => cursor_bytes.bind fun _ => cursor_bytes.bind fun _ =>
      cursor_bytes.bind fun _ => cursor_pure _

end Reader

variable {p : SignedPacket} {n : Nat}

theorem unmarshalBinary_eq_some {data : Bytes} :
    unmarshalBinary data = some p ↔ ∃ b, Reader.packet.run ⟨data, false⟩ = (p, ⟨b, false⟩) := by
  rw [unmarshalBinary]
  obtain ⟨q, ⟨b, err⟩, hq⟩ : ∃ q r, Reader.packet.run ⟨data, false⟩ = (q, r) := ⟨_, _, rfl⟩
  rw [hq]
  cases err with
  | true =>
    refine ⟨nofun, ?_⟩
    rintro ⟨c, hc⟩
    cases congrArg (fun x : SignedPacket × Reader => x.2.err) hc
  | false =>
    refine ⟨fun h => ⟨b, by rw [Option.some.inj h]⟩, ?_⟩
    rintro ⟨c, hc⟩
    exact congrArg some (Prod.mk.inj hc).1

theorem unmarshal_marshal (hp : p.Proper) (ht : p.Timed) (hs : p.Short) :
    unmarshalBinary (marshalBinary p) = some p := by
  refine unmarshalBinary_eq_some.mpr ⟨[], ?_⟩
  have h := reads_packet hp ht hs []
  rwa [append_nil] at h

theorem unmarshal_cut (hp : p.Proper) (ht : p.Timed) (hs : p.Short) {data rest : Bytes}
    (h : marshalBinary p = data ++ rest) (hrest : rest ≠ []) : unmarshalBinary data = none := by
  by_contra hne
  obtain ⟨q, hq⟩ := Option.ne_none_iff_exists'.mp hne
  obtain ⟨b, hb⟩ := unmarshalBinary_eq_some.mp hq
  have honward := Reader.cursor_packet.onward data rest q b hb
  have hall := reads_packet hp ht hs []
  rw [append_nil, h] at hall
  have hr := congrArg (fun x : SignedPacket × Reader => x.2.b) (honward.symm.trans hall)
  exact hrest (append_eq_nil_iff.mp hr).2

/-! ### Frames -/

theorem readFull_append {b : Bytes} (h : b.length = n) (rest : Bytes) : readFull n (b ++ rest) = .ok (b, rest) := by
  subst h
  rw [readFull]
  split
  next hzero =>
    rw [length_eq_zero_iff.mp hzero]
    rfl
  next hpos =>
    have hne : b ++ rest ≠ [] := fun hnil => hpos (by rw [(append_eq_nil_iff.mp hnil).1, length_nil])
    have hle : ¬(b ++ rest).length < b.length := by rw [length_append]; omega
    rw [if_neg hne, if_neg hle, take_left', drop_left']
    · rfl
    · rfl

theorem readFull_short {stream : Bytes} (h : stream.length < n) : ∃ e, readFull n stream = .error e := by
  rw [readFull, if_neg (by omega)]
  split <;> exact ⟨_, rfl⟩

theorem readFull_length {stream b rest : Bytes} (h : readFull n stream = .ok (b, rest)) :
    n + rest.length = stream.length := by
  rw [readFull] at h
  split at h
  next hzero =>
    obtain ⟨-, rfl⟩ := Prod.mk.inj (Except.ok.inj h)
    omega
  · split at h
    · cases h
    · split at h
      · cases h
      · obtain ⟨-, rfl⟩ := Prod.mk.inj (Except.ok.inj h)
        rw [length_drop]
        omega

theorem readPacket_length {stream rest : Bytes} (h : readPacket stream = .ok (p, rest)) :
    rest.length < stream.length := by
  rw [readPacket] at h
  obtain ⟨⟨hdr, s⟩, hhdr, h⟩ := bind_eq_ok.mp h
  have hlen := readFull_length hhdr
  dsimp only at h
  split at h
  · cases h
  · obtain ⟨⟨body, s'⟩, hbody, h⟩ := bind_eq_ok.mp h
    have hlen' := readFull_length hbody
    dsimp only at h
    split at h
    · obtain ⟨-, rfl⟩ := Prod.mk.inj (Except.ok.inj h)
      omega
    · cases h

/-- Packets are read until one cannot be. --/
def readPackets (stream : Bytes) : List SignedPacket × ReadError :=
  match _h : readPacket stream with
  | .error e => ([], e)
  | .ok (p, rest) =>
    let (ps, e) := readPackets rest
    (p :: ps, e)
termination_by stream.length
decreasing_by exact readPacket_length _h

theorem readPackets_error {stream : Bytes} {e : ReadError} (h : readPacket stream = .error e) :
    readPackets stream = ([], e) := by
  rw [readPackets]
  split
  · next e' he => rw [Except.error.inj (he.symm.trans h)]
  · next he => cases he.symm.trans h

theorem readPackets_ok {stream rest : Bytes} (h : readPacket stream = .ok (p, rest)) :
    readPackets stream = (p :: (readPackets rest).1, (readPackets rest).2) := by
  rw [readPackets]
  split
  · next he => cases he.symm.trans h
  next q s he =>
    obtain ⟨rfl, rfl⟩ := Prod.mk.inj (Except.ok.inj (he.symm.trans h))
    rfl

theorem length_lenBytes (b : Bytes) : (lenBytes b).length = 4 + b.length := by
  rw [lenBytes, length_append, length_be32]

theorem length_marshalBinary (p : SignedPacket) : (marshalBinary p).length = 124 + (strBytes p.sourceNode).length +
    (strBytes p.destGroup).length + (strBytes p.destNode).length + p.payload.length + p.signerKey.length +
      p.signature.length +
    p.replyBlock.length + p.pad.length := by
  have hid : p.id.val.length = 32 := p.id.property
  unfold marshalBinary
  simp only [length_append, length_lenBytes, length_be32, length_be64, hid, length_cons, length_nil]
  omega

structure Framed (p : SignedPacket) : Prop where
  proper : p.Proper
  timed : p.Timed
  length : (marshalBinary p).length ≤ maxFrameSize.toNat

namespace Framed
variable {p : SignedPacket}

theorem length_le (h : Framed p) : (marshalBinary p).length ≤ 8388608 := h.length

theorem short (h : Framed p) : p.Short := by
  have hlen := h.length_le
  rw [length_marshalBinary] at hlen
  constructor
  all_goals omega

theorem toNat_length (h : Framed p) : (UInt32.ofNat (marshalBinary p).length).toNat = (marshalBinary p).length :=
  UInt32.toNat_ofNat_of_lt' (Nat.lt_of_le_of_lt h.length_le (by decide))

theorem not_long (h : Framed p) : ¬maxFrameSize < UInt32.ofNat (marshalBinary p).length := by
  rw [UInt32.lt_iff_toNat_lt, h.toNat_length]
  exact Nat.not_lt.mpr h.length

theorem readHeader (h : Framed p) (rest : Bytes) :
    Protocol.readPacket (be32 (UInt32.ofNat (marshalBinary p).length) ++ rest) =
    (readFull (marshalBinary p).length rest).bind fun r =>
      (unmarshalBinary r.1).elim (.error .malformedPacket) fun q => .ok (q, r.2) := by
  have hhdr : u32 (be32 (UInt32.ofNat (marshalBinary p).length)) = UInt32.ofNat (marshalBinary p).length := by
    conv_lhs => rw [← append_nil (be32 _)]
    exact u32_be32 _ []
  rw [Protocol.readPacket, readFull_append (length_be32 _)]
  simp only [hhdr, bind, Except.bind, h.not_long, if_false, h.toNat_length]
  cases readFull (marshalBinary p).length rest with
  | error e => rfl
  | ok r =>
    cases hr : unmarshalBinary r.1 with
    | none => simp [hr]; rfl
    | some q => simp [hr]

theorem readPacket (h : Framed p) (rest : Bytes) : Protocol.readPacket (writePacket p ++ rest) = .ok (p, rest) := by
  rw [writePacket, append_assoc, h.readHeader, readFull_append rfl]
  simp [Except.bind, unmarshal_marshal h.proper h.timed h.short]

theorem readPacket_cut (h : Framed p) {data more : Bytes} (heq : writePacket p = data ++ more) (hmore : more ≠ []) :
    ∃ e, Protocol.readPacket data = .error e := by
  have hpos := length_pos_iff.mpr hmore
  have hbody : ∀ {b : Bytes}, marshalBinary p = b ++ more → ∃ e, readFull (marshalBinary p).length b = .error e := by
    intro b hb
    refine readFull_short ?_
    rw [hb, length_append]
    omega
  rcases append_eq_append_iff.mp heq with ⟨b, rfl, hb⟩ | ⟨c, hc, rfl⟩
  · obtain ⟨e, he⟩ := hbody hb
    exact ⟨e, by rw [h.readHeader, he]; rfl⟩
  · rcases eq_nil_or_concat c with rfl | ⟨c', x, rfl⟩
    · obtain ⟨e, he⟩ := hbody (b := []) (by rw [nil_append, nil_append])
      rw [append_nil] at hc
      rw [← hc, ← append_nil (be32 _), h.readHeader, he]
      exact ⟨e, rfl⟩
    · have hshort : data.length < 4 := by
        have := congrArg List.length hc
        rw [length_be32] at this
        simp at this
        omega
      obtain ⟨e, he⟩ := readFull_short hshort
      exact ⟨e, by rw [Protocol.readPacket, he]; rfl⟩

end Framed

/-- The packets, written one after the other. --/
def frames (ps : List SignedPacket) : Bytes := ps.flatMap writePacket

@[simp] theorem frames_nil : frames [] = [] := rfl

@[simp] theorem frames_cons (p : SignedPacket) (ps : List SignedPacket) :
    frames (p :: ps) = writePacket p ++ frames ps := rfl

theorem readPackets_frames {ps : List SignedPacket} (hps : ∀ p ∈ ps, Framed p) {rest : Bytes} {e : ReadError}
    (h : readPacket rest = .error e) : readPackets (frames ps ++ rest) = (ps, e) := by
  induction ps with
  | nil => exact readPackets_error h
  | cons p ps ih =>
    rw [frames_cons, append_assoc, readPackets_ok ((hps p mem_cons_self).readPacket _),
      ih fun q hq => hps q (mem_cons_of_mem p hq)]

theorem take_frames {ps : List SignedPacket} (hps : ∀ p ∈ ps, Framed p) (n : Nat) :
    ∃ k rest e, (frames ps).take n = frames (ps.take k) ++ rest ∧ readPacket rest = .error e ∧
      (frames (ps.take k)).length ≤ n ∧
      (k < ps.length → n < (frames (ps.take (k + 1))).length) := by
  induction ps generalizing n with
  | nil => exact ⟨0, [], .eof, by simp, rfl, Nat.zero_le n, fun h => absurd h (Nat.lt_irrefl 0)⟩
  | cons p ps ih =>
    by_cases hn : (writePacket p).length ≤ n
    · obtain ⟨k, rest, e, heq, herr, hle, hlt⟩ :=
        ih (fun q hq => hps q (mem_cons_of_mem p hq)) (n - (writePacket p).length)
      refine ⟨k + 1, rest, e, ?_, herr, ?_, fun hk => ?_⟩
      · rw [frames_cons, take_append, take_of_length_le hn, heq, take_succ_cons, frames_cons, append_assoc]
      · rw [take_succ_cons, frames_cons, length_append]
        omega
      · have hlt := hlt (Nat.lt_of_succ_lt_succ hk)
        rw [take_succ_cons, frames_cons, length_append]
        omega
    · have hcut : writePacket p = (writePacket p).take n ++ (writePacket p).drop n := (take_append_drop n _).symm
      have hmore : (writePacket p).drop n ≠ [] := by
        rw [Ne, drop_eq_nil_iff]
        exact hn
      obtain ⟨e, he⟩ := (hps p mem_cons_self).readPacket_cut hcut hmore
      refine ⟨0, (writePacket p).take n, e, ?_, he, Nat.zero_le n, fun _ => ?_⟩
      · rw [frames_cons, take_append_of_le_length (by omega), take_zero]
        rfl
      · rw [take_succ_cons, frames_cons, length_append]
        omega

/-- Packets are read back, no proper part of the beginning of one is a packet, and from a stream of frames, cut off
    anywhere, the packets whose frames are whole are read, and then an error. --/
theorem packet_codec :
    (∀ p : SignedPacket, p.Proper → p.Timed → p.Short → unmarshalBinary (marshalBinary p) = some p ∧
      ∀ data rest, marshalBinary p = data ++ rest → rest ≠ [] → unmarshalBinary data = none) ∧
    ∀ ps : List SignedPacket, (∀ p ∈ ps, p.Proper ∧ p.Timed ∧ (marshalBinary p).length ≤ maxFrameSize.toNat) →
      readPackets (frames ps) = (ps, .eof) ∧
        ∀ n, ∃ k e, readPackets ((frames ps).take n) = (ps.take k, e) ∧ (frames (ps.take k)).length ≤ n ∧
          (k < ps.length → n < (frames (ps.take (k + 1))).length) := by
  refine ⟨fun p hp ht hs => ⟨unmarshal_marshal hp ht hs, fun data rest => unmarshal_cut hp ht hs⟩, fun ps hps => ?_⟩
  have hframed : ∀ p ∈ ps, Framed p := fun p hp => ⟨(hps p hp).1, (hps p hp).2.1, (hps p hp).2.2⟩
  constructor
  · have h := readPackets_frames hframed (show readPacket [] = .error .eof from rfl)
    rwa [append_nil] at h
  · intro n
    obtain ⟨k, rest, e, heq, herr, hle, hlt⟩ := take_frames hframed n
    refine ⟨k, e, ?_, hle, hlt⟩
    rw [heq]
    exact readPackets_frames (fun p hp => hframed p (mem_of_mem_take hp)) herr

def oldPacket : SignedPacket :=
  { id := .copy 32 [1], type := .unknown 200, timestamp := -1, sourceNode := "node", destGroup := "ANY", subTotal := 1,
    payloadSize := 3, payload := [1, 2, 3], streaming := true, pad := [0] }

theorem oldPacket_proper : oldPacket.Proper := by
  constructor
  all_goals decide

theorem packet_codec_old : unmarshalBinary (marshalBinary oldPacket) = some oldPacket ∧
    readPackets (frames [oldPacket, oldPacket]) = ([oldPacket, oldPacket], .eof) := by
  have htimed : oldPacket.Timed := ⟨by decide, by decide⟩
  have hshort : oldPacket.Short := by
    constructor
    all_goals decide
  refine ⟨(packet_codec.1 oldPacket oldPacket_proper htimed hshort).1, (packet_codec.2 [oldPacket, oldPacket] ?_).1⟩
  intro p hp
  obtain rfl : p = oldPacket := by simpa using hp
  exact ⟨oldPacket_proper, htimed, by decide +kernel⟩

end SyncSwarm.Protocol
