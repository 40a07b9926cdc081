import SyncSwarm.Theorems.Direct.Lockstep
import SyncSwarm.Theorems.Ingest.Outgoing
import SyncSwarm.Theorems.Transfer.Stream

/-! A payload or a stream over a direct connection that holds: the two ends never wait for each other, and what
    was sent is given out. -/

namespace SyncSwarm.Transfer
open Lib Protocol Fragment List Option GoMap

/-! ### The packets in their order -/

section Order
variable {id : TransferID} {sc : Scheme} {sourceNode : String} {replyBlock : Bytes} {sub : Int} {frags : List Fragment}
  {frag : Fragment}

theorem nodup_places (hpieces : (fragmentPieces frag sub).length < 4294967296) :
    ((fragmentPieces frag sub).map fun piece => (piece.index, piece.subIndex)).Nodup := by
  rw [fragmentPieces_eq, length_mapIdx] at hpieces
  rw [fragmentPieces_eq]
  refine pairwise_iff_getElem.mpr fun i j hi hj hij heq => ?_
  rw [getElem_map, getElem_map, getElem_mapIdx, getElem_mapIdx] at heq
  rw [length_map, length_mapIdx] at hi hj
  exact Nat.ne_of_lt hij (ofNat_inj (Nat.lt_trans hi hpieces) (Nat.lt_trans hj hpieces) (Prod.mk.inj heq).2)

theorem nodup_packetsOf (hindex : ∀ i frag, frags[i]? = some frag → frag.index = UInt32.ofNat i)
    (hfew : frags.length < 4294967296) (hpieces : ∀ frag ∈ frags, (fragmentPieces frag sub).length < 4294967296) :
    (packetsOf id sc sourceNode replyBlock sub frags).Nodup := by
  refine List.Nodup.of_map (fun pkt : Packet => (pkt.chunkNumber, pkt.subIndex)) ?_
  rw [packetsOf, List.map_map]
  show (List.map (fun piece : Fragment => (piece.index, piece.subIndex)) (frags.flatMap (fragmentPieces · sub))).Nodup
  rw [map_flatMap, nodup_flatMap]
  refine ⟨fun frag hfrag => nodup_places (hpieces frag hfrag), pairwise_iff_getElem.mpr fun i j hi hj hij => ?_⟩
  intro place hplace hplace'
  obtain ⟨piece, hpiece, rfl⟩ := mem_map.mp hplace
  obtain ⟨piece', hpiece', heq⟩ := mem_map.mp hplace'
  obtain ⟨k, part, -, rfl⟩ := mem_fragmentPieces.mp hpiece
  obtain ⟨k', part', -, rfl⟩ := mem_fragmentPieces.mp hpiece'
  have hsame : frags[j].index = frags[i].index := (Prod.mk.inj heq).1
  rw [hindex i _ (getElem?_eq_getElem hi), hindex j _ (getElem?_eq_getElem hj)] at hsame
  exact Nat.ne_of_lt hij (ofNat_inj (Nat.lt_trans hi hfew) (Nat.lt_trans hj hfew) hsame.symm)

theorem missing_of_take {pkts : List Packet} (hpkts : pkts = packetsOf id sc sourceNode replyBlock sub frags)
    (hindex : ∀ i frag, frags[i]? = some frag → frag.index = UInt32.ofNat i) (hfew : frags.length < 4294967296)
    (hpieces : ∀ frag ∈ frags, (fragmentPieces frag sub).length < 4294967296) {k : Nat} (hk : k < pkts.length) :
    ∃ i < frags.length, i ∉ (planOf frags sub hfew hpieces).done (pkts.take k).reverse := by
  have hmem : pkts[k] ∈ packetsOf id sc sourceNode replyBlock sub frags := hpkts ▸ getElem_mem hk
  obtain ⟨i, frag, j, part, hfrag, hpart, heq⟩ := mem_packetsOf.mp hmem
  refine ⟨i, (lt_of_getElem? hfrag), fun hdone => ?_⟩
  rw [mem_done_iff_arrived hindex (fun p hp => hpkts ▸ mem_of_mem_take (mem_reverse.mp hp)) hfrag] at hdone
  have harrived := mem_reverse.mp (hdone _ (mem_fragmentPieces.mpr ⟨j, part, hpart, rfl⟩))
  rw [← heq] at harrived
  have hnodup := hpkts ▸ nodup_packetsOf hindex hfew hpieces
  obtain ⟨l, hl, hlk⟩ := mem_take_iff_getElem.mp harrived
  have := (List.Nodup.getElem_inj_iff hnodup).mp hlk
  omega

theorem done_of_all (hindex : ∀ i frag, frags[i]? = some frag → frag.index = UInt32.ofNat i)
    (hfew : frags.length < 4294967296) (hpieces : ∀ frag ∈ frags, (fragmentPieces frag sub).length < 4294967296)
    {i : Nat} (hi : i < frags.length) :
    i ∈ (planOf frags sub hfew hpieces).done (packetsOf id sc sourceNode replyBlock sub frags).reverse := by
  rw [mem_done_iff_arrived hindex (fun p hp => mem_reverse.mp hp) (getElem?_eq_getElem hi)]
  intro piece hpiece
  exact mem_reverse.mpr (mem_map_of_mem (mem_flatMap.mpr ⟨_, getElem_mem hi, hpiece⟩))

end Order

/-! ### A new state -/

section Fresh
variable {prog : Program} {t : Config} {rs : ReedSolomon} {before : Receiver}

def Receiver.Unknown (w : Receiver) (pkt : Packet) : Prop :=
  (if pkt.resumable && pkt.streaming then w.table.get? pkt.id else none) = none

theorem connect_unknown {pkt : Packet} (h : before.Unknown pkt) : before.connect pkt =
    { before with
      objects := before.objects ++ [newDirectState pkt]
      table := before.table.set pkt.id before.objects.length
      conns := before.conns ++ [⟨before.objects.length, pkt.id, pkt.resumable && pkt.streaming, .reading⟩] } := by
  rw [Receiver.connect]
  rw [h]

def Course.fresh (up : before.down = false) (hnew : before.Unknown prog.init) (st : Nat → State)
    (hst : st 0 = newDirectState prog.init)
    (fits : ∀ p ∈ (prog.body 0).1, prog.fits p)
    (absorbs : ∀ k p, (prog.body 0).1[k]? = some p → (st k).processChunk t rs p = .ok (st (k + 1)))
    (stays : ∀ k < (prog.body 0).1.length, (st k).leaves = false)
    (sound : (st (prog.body 0).1.length).leaves → ∀ text, t.reassemble rs (st (prog.body 0).1.length).toTransferState ≠
      .error (.panic text)) :
    Course prog t rs before where
  up
  ref := before.objects.length
  point := 0
  st
  entry := by
    rw [connect_unknown hnew]
    exact get?_set_self _ _ _
  conn := by
    rw [connect_unknown hnew]
    exact getElem?_concat_length
  opened := by
    rw [connect_unknown hnew, hst]
    exact getElem?_concat_length
  told := by
    rw [connect_unknown hnew, Receiver.resumePoint, getElem?_concat_length, bind_some, getElem?_concat_length,
      bind_some, newDirectState]
    split
    · split <;> rfl
    · rfl
  fits
  absorbs
  stays
  sound

end Fresh

theorem take_succ_of_getElem? {α : Type} {l : List α} {k : Nat} {x : α} (h : l[k]? = some x) :
    l.take (k + 1) = l.take k ++ [x] := by
  rw [take_add_one, h]
  rfl

/-! ### A payload -/

section Payload
variable {t : Config} {rs : ReedSolomon} {o : Outgoing t rs} {sub : Int} {sourceNode : String} {fits : Packet → Bool}
  {before : Receiver}
  {k : Nat}

namespace Outgoing

def direct (o : Outgoing t rs) (sub : Int) (sourceNode : String) : List Packet :=
  packetsOf o.id o.scheme sourceNode [] sub o.frags

def directState (o : Outgoing t rs) (sub : Int) (sourceNode : String) (fits : Packet → Bool) (k : Nat) : State :=
  { newDirectState (sendToNode fits o.id o.frags sourceNode o.scheme sub).init with
    toBuffers := (Buffers.empty.recordAll ((o.direct sub sourceNode).take k)).1 }

theorem stream_directState : (o.directState sub sourceNode fits k).stream = none :=
  if_neg (by
    rw [show (sendToNode fits o.id o.frags sourceNode o.scheme sub).init.streaming = false from o.streaming]
    nofun)

theorem processChunk_directState {p : Packet} (hp : (o.direct sub sourceNode)[k]? = some p) :
    (o.directState sub sourceNode fits k).processChunk t rs p = .ok (o.directState sub sourceNode fits (k + 1)) := by
  have hbuf : (Buffers.empty.recordAll ((o.direct sub sourceNode).take (k + 1))).1 =
      (Buffers.empty.recordAll ((o.direct sub sourceNode).take k)).1.record p := by
    rw [take_succ_of_getElem? hp, Buffers.recordAll_append]
    rfl
  have hnext : o.directState sub sourceNode fits (k + 1) = { o.directState sub sourceNode fits k with
      toBuffers := (o.directState sub sourceNode fits k).toBuffers.record p } := by
    rw [directState, hbuf]
    rfl
  rw [State.processChunk]
  split
  · next sa hsa => cases stream_directState.symm.trans hsa
  · rw [hnext]

theorem records_directState :
    o.Records sub ((o.direct sub sourceNode).take k) (o.directState sub sourceNode fits k).toTransferState where
  id := rfl
  total := rfl
  scheme := rfl
  sent pkt hpkt := by
    have hmem : pkt ∈ o.direct sub sourceNode := mem_of_mem_take hpkt
    obtain ⟨i, frag, j, part, hfrag, hpart, rfl⟩ := mem_packetsOf.mp hmem
    exact hmem
  buffers := rfl

theorem leaves_directState (hcut : o.Cut sub) : (o.directState sub sourceNode fits k).leaves ↔
    ∀ i < o.frags.length, i ∈ (o.plan hcut).done ((o.direct sub sourceNode).take k).reverse := by
  rw [State.leaves, State.isTransferComplete, stream_directState, isNone_none, Bool.true_and]
  exact complete_iff (records_directState.held hcut) records_directState.total

def course (o : Outgoing t rs) (hrs : rs.Lawful) (hcut : o.Cut sub) (hup : before.down = false)
    (hfits : ∀ p ∈ o.direct sub sourceNode, fits p) :
      Course (sendToNode fits o.id o.frags sourceNode o.scheme sub) t rs before :=
  .fresh hup (if_neg
    (by rw [show (sendToNode fits o.id o.frags sourceNode o.scheme sub).init.streaming = false from o.streaming]; simp))
    (o.directState sub sourceNode fits) rfl hfits
    (fun _ _ hp => processChunk_directState hp)
    (fun k hk => by
      obtain ⟨i, hi, hmissing⟩ := missing_of_take rfl o.index o.few hcut hk
      exact Bool.eq_false_iff.mpr fun hleaves => hmissing ((leaves_directState hcut).mp hleaves i hi))
    (fun hleaves text htext => by
      rw [State.leaves, State.isTransferComplete, stream_directState, isNone_none, Bool.true_and] at hleaves
      rw [records_directState.reassembles hrs hcut (.inr hleaves)] at htext
      cases htext)

theorem outcome_directState (hrs : rs.Lawful) (hcut : o.Cut sub) (ref : Nat) (fits : Packet → Bool)
    (hk : k = (o.direct sub sourceNode).length) :
    ∃ d, (o.directState sub sourceNode fits k).outcome t rs ref = [d] ∧ d.id = o.id ∧ d.data = o.data ∧
      d.isVariable = o.scheme.isVariable := by
  have hleaves : (o.directState sub sourceNode fits k).leaves := by
    rw [leaves_directState hcut, hk, take_length]
    exact fun i hi => done_of_all o.index o.few hcut hi
  rw [State.leaves, Bool.and_comm] at hleaves
  have hcomplete : (o.directState sub sourceNode fits k).isCompleteLocked := by
    rw [State.isTransferComplete, stream_directState, isNone_none, Bool.and_true] at hleaves
    exact hleaves
  rw [State.outcome, if_pos hleaves, records_directState.reassembles hrs hcut (.inr hcomplete)]
  exact ⟨_, rfl, rfl, rfl, rfl⟩

end Outgoing
end Payload

/-! ### A stream -/

namespace StreamAssembler
variable {t : Config} {rs : ReedSolomon} {sa sa' : StreamAssembler} {pkts more : List Packet} {k : Nat} {p : Packet}

def after (sa : StreamAssembler) (t : Config) (rs : ReedSolomon) (pkts : List Packet) : StreamAssembler :=
  (sa.addAll t rs pkts).toOption.getD sa

theorem addAll_take (h : sa.addAll t rs pkts = .ok sa') (k : Nat) :
    sa.addAll t rs (pkts.take k) = .ok (sa.after t rs (pkts.take k)) := by
  rw [← take_append_drop k pkts, addAll_append] at h
  obtain ⟨sa'', hsa, -⟩ := bind_eq_ok.mp h
  rw [after, hsa]
  rfl

theorem add_after (h : sa.addAll t rs pkts = .ok sa') (hp : pkts[k]? = some p) :
    (sa.after t rs (pkts.take k)).add t rs p = .ok (sa.after t rs (pkts.take (k + 1))) := by
  have hnext := addAll_take h (k + 1)
  rw [take_succ_of_getElem? hp, addAll_append, addAll_take h k] at hnext
  have hone : ((sa.after t rs (pkts.take k)).add t rs p).bind (.ok ·) =
      .ok (sa.after t rs (pkts.take k ++ [p])) := hnext
  obtain ⟨sa'', hadd, heq⟩ := bind_eq_ok.mp hone
  rw [hadd, take_succ_of_getElem? hp]
  exact heq

end StreamAssembler

section Stream
variable {tx t : Config} {rs : ReedSolomon} {s : Sealer} {content : Bytes} {id : TransferID} {sub : Int}
  {frags : List Fragment}
  {sc : Scheme} {sourceNode : String} {init : Packet} {k : Nat} {sealer : Option Sealer} {fits : Packet → Bool}
    {before : Receiver}
  {sa : StreamAssembler}

def streamState (init : Packet) (t : Config) (rs : ReedSolomon) (pkts : List Packet) : State :=
  { newDirectState init with stream := some ((newStreamAssembler init).after t rs pkts) }

theorem processChunk_stream {st : State} {sa sa' : StreamAssembler} {p : Packet} (hst : st.stream = some sa)
    (hadd : sa.add t rs p = .ok sa') : st.processChunk t rs p = .ok { st with stream := some sa' } := by
  rw [State.processChunk]
  split
  next sa'' h =>
    cases hst.symm.trans h
    rw [hadd]
    rfl
  · next h => cases hst.symm.trans h

theorem outcome_stream {st : State} (hst : st.stream = some sa) (ref : Nat) : st.outcome t rs ref = [] := by
  rw [State.outcome, hst, isNone_some, Bool.and_false]
  rfl

def streamCourse {prog : Program} (hup : before.down = false) (hnew : before.Unknown prog.init)
    (hinit : prog.init.streaming = true)
    (hadd : (newStreamAssembler prog.init).addAll t rs (prog.body 0).1 = .ok sa)
      (hfits : ∀ p ∈ (prog.body 0).1, prog.fits p) :
    Course prog t rs before :=
  .fresh hup hnew (fun k => streamState prog.init t rs ((prog.body 0).1.take k))
    (by rw [streamState, newDirectState, hinit]; rfl) hfits
    (fun _ _ hp => processChunk_stream rfl (StreamAssembler.add_after hadd hp)) (fun _ _ => rfl) nofun

theorem stream_written (hrs : rs.Lawful) {hybrid pq resumable : Bool}
    (hsend : tx.streamBlocks rs content id sealer 0 = (frags, none))
    (hopen : Undoes (t.recipientOpener { hybridSealed := hybrid, pq }) sealer)
    (hblocks : (tx.blocksOf content).length < 4294967296)
    (hlen : ∀ block ∈ tx.blocksOf content, block.length < 4294967296)
    (hpieces : ∀ frag ∈ frags, (fragmentPieces frag sub).length < 4294967296)
    (hinit : init.id = id ∧ schemeFromPacket init = tx.streamScheme hybrid pq resumable) (sc : Scheme)
    (sourceNode : String) :
    ∃ sa, (newStreamAssembler init).addAll t rs (packetsOf id sc sourceNode [] sub frags) = .ok sa ∧
      ∃ ack, sa.events = (tx.blocksOf content).map .write ++
        [.finish (if t.hasSink ∨ !t.hasOnData then none else some (tx.blocksOf content).flatten) ack] := by
  obtain ⟨-, herr⟩ | ⟨s, hs, stream, hstream, hne⟩ := silent_or_stream hrs hopen hsend hpieces
  · exact absurd rfl herr
  · obtain ⟨sa, hadd, hfin⟩ :=
      stream_finished hrs hstream (Nat.le_of_lt hblocks) (for_newStreamAssembler hrs hne hs hinit)
    obtain ⟨ack, hevents⟩ := hfin.events
    have hout := map_out hstream hlen hfin.length
    refine ⟨sa, hadd, ack, ?_⟩
    rw [hevents, hout, ← hout, List.map_map]
    rfl

end Stream

/-! ### The exchange -/

/-- Over a connection that holds, every run is finite, and a run that cannot go on is one in which the sender has
    returned nil and the receiver has closed the connection, with `P`. --/
def Completes (prog : Program) (t : Config) (rs : ReedSolomon) (before : Receiver) (P : Receiver → Prop) : Prop :=
  ∃ bound, ∀ mvs s, (∀ mv ∈ mvs, mv.reliable) → exec (Session.step prog t rs) (.new before) mvs = some s →
    mvs.length ≤ bound ∧
      ((∃ mv : Session.Move, mv.reliable ∧ (s.step prog t rs mv).isSome) ∨ s.tx = .returned none ∧ s.rxClosed ∧ P s.rx)

variable {t : Config} {rs : ReedSolomon} {before : Receiver}

theorem Course.completes {prog : Program} {P : Receiver → Prop} (C : Course prog t rs before) (herr : C.err = none)
    (hP : ∀ w, C.Rx C.packets.length .closed ((C.st C.packets.length).outcome t rs C.ref) w → P w) :
    Completes prog t rs before P := by
  refine ⟨4 * C.packets.length + 8, fun mvs s hmvs hrun => ?_⟩
  obtain ⟨m, hm, hlock⟩ := (Lock.fresh (C := C)).run hmvs hrun
  refine ⟨by omega, ?_⟩
  by_cases hmove : ∃ mv : Session.Move, mv.reliable ∧ (s.step prog t rs mv).isSome
  · exact .inl hmove
  · have hstuck : ∀ mv : Session.Move, mv.reliable → s.step prog t rs mv = none := by
      intro mv hmv
      by_contra hsome
      exact hmove ⟨mv, hmv, isSome_iff_ne_none.mpr hsome⟩
    obtain ⟨w, rfl, hw⟩ := hlock.ended hstuck
    refine .inr ⟨congrArg Tx.returned herr, ?_, hP w hw⟩
    rw [Session.rxClosed, hw.conn]
    rfl

theorem Completes.mono {prog : Program} {P Q : Receiver → Prop} (h : Completes prog t rs before P)
    (hPQ : ∀ w, P w → Q w) :
    Completes prog t rs before Q := by
  obtain ⟨bound, hbound⟩ := h
  exact ⟨bound, fun mvs s hmvs hrun => (hbound mvs s hmvs hrun).imp_right
    (Or.imp_right fun hend => ⟨hend.1, hend.2.1, hPQ _ hend.2.2⟩)⟩

/-- The blocks were written in order, and the stream was finished once. --/
def Streamed (t : Config) (blocks : List Bytes) (ref : Nat) (w : Receiver) : Prop :=
  ∃ st sa ack, w.objects[ref]? = some st ∧ st.stream = some sa ∧
    sa.events = blocks.map .write ++ [.finish (if t.hasSink ∨ !t.hasOnData then none else some blocks.flatten) ack]

theorem sendToNode_completes (hrs : rs.Lawful) (hup : before.down = false) {o : Outgoing t rs} {sub : Int}
    (hcut : o.Cut sub) {fits : Packet → Bool} {sourceNode : String}
    (hfits : ∀ p ∈ packetsOf o.id o.scheme sourceNode [] sub o.frags, fits p) :
    Completes (sendToNode fits o.id o.frags sourceNode o.scheme sub) t rs before fun w =>
      ∃ d, w.dispatched = before.dispatched ++ [d] ∧ d.id = o.id ∧ d.data = o.data ∧
        d.isVariable = o.scheme.isVariable := by
  refine (o.course hrs hcut hup hfits).completes rfl fun w hw => ?_
  obtain ⟨d, hd, houtcome⟩ := Outgoing.outcome_directState hrs hcut before.objects.length fits rfl
  exact ⟨d, hw.dispatched.trans (congrArg _ hd), houtcome⟩

theorem stream_completes {prog : Program} {pkts : List Packet} {blocks : List Bytes} {sa : StreamAssembler}
    {ack : Option Ack} (hup : before.down = false) (hnew : before.Unknown prog.init)
    (hinit : prog.init.streaming = true) (hbody : prog.body 0 = (pkts, none))
    (hadd : (newStreamAssembler prog.init).addAll t rs pkts = .ok sa)
    (hevents : sa.events =
      blocks.map .write ++ [.finish (if t.hasSink ∨ !t.hasOnData then none else some blocks.flatten) ack])
    (hfits : ∀ p ∈ pkts, prog.fits p) :
    Completes prog t rs before fun w => w.dispatched = before.dispatched ∧
      Streamed t blocks before.objects.length w := by
  have hall : (prog.body 0).1 = pkts := congrArg Prod.fst hbody
  refine (streamCourse hup hnew hinit (hall ▸ hadd) (hall ▸ hfits)).completes (congrArg Prod.snd hbody) fun w hw => ?_
  refine ⟨?_, _, _, ack, hw.object, rfl, ?_⟩
  · rw [hw.dispatched, outcome_stream rfl, append_nil]
  rw [← hevents]
  show ((newStreamAssembler prog.init).after t rs ((prog.body 0).1.take (prog.body 0).1.length)).events = sa.events
  rw [hall, take_length, StreamAssembler.after, hadd]
  rfl

/-- Over a connection that holds, a payload or a stream is exchanged: no run is without an end, the two ends never
    wait for each other, and in the end the receiver has given out what was sent, once. --/
theorem direct_exchange {t : Config} {rs : ReedSolomon} (hrs : rs.Lawful) {before : Receiver}
    (hup : before.down = false) (sourceNode : String) (sub : Int) (fits : Packet → Bool) :
    (∀ o : Outgoing t rs, o.Cut sub → (∀ p ∈ packetsOf o.id o.scheme sourceNode [] sub o.frags, fits p) →
      Completes (sendToNode fits o.id o.frags sourceNode o.scheme sub) t rs before fun w =>
        ∃ d, w.dispatched = before.dispatched ++ [d] ∧ d.id = o.id ∧ d.data = o.data) ∧
    ∀ (tx : Config) (content : Bytes) (id : TransferID) (sealer : Option Sealer) (hybrid pq : Bool)
      (frags : List Fragment),
      tx.streamBlocks rs content id sealer 0 = (frags, none) →
        Undoes (t.recipientOpener { hybridSealed := hybrid, pq }) sealer →
      (tx.blocksOf content).length < 4294967296 → (∀ block ∈ tx.blocksOf content, block.length < 4294967296) →
      (∀ frag ∈ frags, (fragmentPieces frag sub).length < 4294967296) →
      (∀ p ∈ packetsOf id (tx.streamScheme hybrid pq false) sourceNode [] sub frags, fits p) →
      (tx.blocksOf content).flatten = content ∧
      Completes (tx.streamDirect rs fits id content sourceNode (tx.streamScheme hybrid pq false) sealer sub) t rs before
        fun w => w.dispatched = before.dispatched ∧ Streamed t (tx.blocksOf content) before.objects.length w := by
  refine ⟨fun o hcut hfits => (sendToNode_completes hrs hup hcut hfits).mono fun w hw => ?_, ?_⟩
  · obtain ⟨d, hd, hid, hdata, -⟩ := hw
    exact ⟨d, hd, hid, hdata⟩
  intro tx content id sealer hybrid pq frags hsend hopen hblocks hlen hpieces hfits
  refine ⟨flatten_blocksOf tx content, ?_⟩
  obtain ⟨sa, hadd, ack, hevents⟩ := stream_written hrs hsend hopen hblocks hlen hpieces
    (show (tx.streamDirect rs fits id content sourceNode (tx.streamScheme hybrid pq false) sealer sub).init.id = id ∧
      _ from ⟨rfl, rfl⟩)
    (tx.streamScheme hybrid pq false) sourceNode
  refine stream_completes hup (if_neg nofun) rfl ?_ hadd hevents hfits
  simp only [Config.streamDirect, Config.streamPackets, hsend]

/-! ### A node that sends to itself -/

namespace Sample

def small (p : Packet) : Bool := p.payload.length ≤ 1048576

def codedPayload : Outgoing (streamer 2) copies where
  tx := node 1 1 16 (some labelSealer)
  id := transferID
  data := [1, 2, 3]
  isVariable := false
  hybrid := false
  pq := false
  sealer := some labelSealer
  frags := [shard 0, shard 1]
  sc := scheme
  size := size_coded
  short := short_bytes
  built := rfl
  opens := undoes_labelSealer
  few := few_shards

end Sample

open Sample in
theorem direct_exchange_coded :
    (Completes (sendToNode small transferID [shard 0, shard 1] "sender" scheme 16) (streamer 2) copies .new fun w =>
      ∃ d, w.dispatched = [d] ∧ d.id = transferID ∧ d.data = [1, 2, 3]) ∧
    Completes ((streamer 2).streamDirect copies small transferID [1, 2, 3] "sender" streamScheme (some labelSealer) 16)
      (streamer 2) copies
      .new fun w => w.dispatched = [] ∧ Streamed (streamer 2) [[1, 2], [3]] 0 w := by
  obtain ⟨hpayload, hstream⟩ :=
    direct_exchange copies_lawful (show Receiver.new.down = false from rfl) "sender" 16 small
  have hsend : (streamer 2).streamBlocks copies [1, 2, 3] transferID (some labelSealer) 0 = (streamFrags, none) := rfl
  exact ⟨hpayload codedPayload (by decide) (by decide),
    (hstream (streamer 2) [1, 2, 3] transferID (some labelSealer) false false streamFrags hsend
    (show Undoes ((streamer 2).recipientOpener _) _ from undoes_labelSealer) (by decide) (by decide)
      (by decide) (by decide)).2⟩

namespace Sample

def selfStream (size : Int) (content : Bytes) (sub : Int) : Program :=
  (streamer size).streamDirect copies small transferID content "sender" streamScheme (some labelSealer) sub

theorem selfStream_runs {size sub : Int} {content : Bytes} {frags : List Fragment} {sa : StreamAssembler}
    (hsend : (streamer size).streamBlocks copies content transferID (some labelSealer) 0 = (frags, none))
    (hadd : (newStreamAssembler streamInit).addAll (streamer size) copies
      (packetsOf transferID streamScheme "sender" [] sub frags) = .ok sa)
    (hsmall : ∀ p ∈ packetsOf transferID streamScheme "sender" [] sub frags, small p) :
    ∃ mvs s st, (∀ mv ∈ mvs, mv.reliable) ∧
      exec (Session.step (selfStream size content sub) (streamer size) copies) (.new .new) mvs = some s ∧
      (∀ mv : Session.Move, mv.reliable → s.step (selfStream size content sub) (streamer size) copies mv = none) ∧
        s.tx = .returned none ∧
      s.rx.objects[0]? = some st ∧ st.stream = some sa := by
  have hbody : (selfStream size content sub).body 0 =
      (packetsOf transferID streamScheme "sender" [] sub frags, none) := by
    simp only [selfStream, Config.streamDirect, Config.streamPackets, hsend]
  have hall : ((selfStream size content sub).body 0).1 = packetsOf transferID streamScheme "sender" [] sub frags :=
    congrArg Prod.fst hbody
  let C : Course (selfStream size content sub) (streamer size) copies .new :=
    streamCourse rfl (if_neg nofun) rfl (hall ▸ hadd) (hall ▸ hsmall)
  obtain ⟨mvs, s, hmvs, hrun, hstuck⟩ := (Course.Lock.fresh (C := C)).runs
  obtain ⟨m, -, hlock⟩ := (Course.Lock.fresh (C := C)).run hmvs hrun
  obtain ⟨w, rfl, hw⟩ := hlock.ended hstuck
  refine ⟨mvs, _, _, hmvs, hrun, hstuck, congrArg Tx.returned (congrArg Prod.snd hbody), hw.object, ?_⟩
  show some ((newStreamAssembler streamInit).after (streamer size) copies (((selfStream size content sub).body 0).1.take
    ((selfStream size content sub).body 0).1.length)) = some sa
  rw [hall, take_length, StreamAssembler.after, hadd]
  rfl

theorem pieceParts_mebibyte {frag : Fragment} (hlen : 1048576 < frag.payload.length) :
    pieceParts frag 1048576 = chunks 1048576 frag.payload := by
  rw [pieceParts, if_neg (by omega), split_of_pos (by decide)]
  rfl

theorem small_of_mebibyte {frags : List Fragment} (hlen : ∀ frag ∈ frags, frag.payload.length = 4294967336) :
    (∀ frag ∈ frags, (fragmentPieces frag 1048576).length < 4294967296) ∧
      ∀ p ∈ packetsOf transferID streamScheme "sender" [] 1048576 frags, small p := by
  constructor
  · intro frag hfrag
    have hpayload := hlen frag hfrag
    rw [fragmentPieces_eq, length_mapIdx, pieceParts_mebibyte (by omega), length_chunks, hpayload]
    decide
  · intro p hp
    obtain ⟨i, frag, k, part, hfrag, hpart, rfl⟩ := mem_packetsOf.mp hp
    have hpayload := hlen frag (mem_of_getElem? hfrag)
    rw [pieceParts_mebibyte (by omega)] at hpart
    exact decide_eq_true (length_le_of_mem_chunks (mem_of_getElem? hpart))

theorem length_payload_long {frags : List Fragment}
    (hsend : (streamer 4294967296).streamBlocks copies long transferID (some labelSealer) 0 = (frags, none)) :
    ∀ frag ∈ frags, frag.payload.length = 4294967336 := by
  intro frag hfrag
  rw [length_payload blocksOf_long_self (fun h => absurd (h ▸ length_long) (by decide)) hsend frag hfrag, length_long]

end Sample

open Sample in
/-- One block of 2^32 bytes in pieces of a mebibyte: every packet fits a frame, and the sender returns nil, yet the
    receiver has written nothing and finished its stream. --/
theorem direct_truncates : ∃ frags mvs s st sa,
    (streamer 4294967296).streamBlocks copies long transferID (some labelSealer) 0 = (frags, none) ∧
    (∀ p ∈ packetsOf transferID streamScheme "sender" [] 1048576 frags, small p) ∧ (∀ mv ∈ mvs, mv.reliable) ∧
    exec (Session.step (selfStream 4294967296 long 1048576) (streamer 4294967296) copies) (.new .new) mvs = some s ∧
    (∀ mv : Session.Move, mv.reliable →
      s.step (selfStream 4294967296 long 1048576) (streamer 4294967296) copies mv = none) ∧
    s.tx = .returned none ∧ s.rx.objects[0]? = some st ∧ st.stream = some sa ∧ sa.done = true ∧
      sa.output = [] ∧ long ≠ [] := by
  obtain ⟨frags, -, -, hsend, -⟩ := streamer_finishes 4294967296 long (by rw [blocksOf_long_self]; decide) pieces_zero
  obtain ⟨hpieces, hsmall⟩ := small_of_mebibyte (length_payload_long hsend)
  obtain ⟨frags', sa, stream, hsend', hadd, hstream, hfin⟩ :=
    streamer_finishes 4294967296 long (by rw [blocksOf_long_self]; decide) (by rw [hsend]; exact hpieces)
  obtain rfl := (Prod.mk.inj (hsend.symm.trans hsend')).1
  obtain ⟨mvs, s, st, hmvs, hrun, hstuck, htx, hst, hsa⟩ := selfStream_runs hsend hadd hsmall
  exact ⟨_, mvs, s, st, sa, hsend, hsmall, hmvs, hrun, hstuck, htx, hst, hsa, hfin.done, output_long hstream hfin,
    fun h => absurd (h ▸ length_long) (by decide)⟩

end SyncSwarm.Transfer
