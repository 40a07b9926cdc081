import SyncSwarm.Theorems.Ingest.Outgoing

/-! Routed content and the nodes that carry it. How the fragments are put together is not sealed. -/

namespace SyncSwarm.Fragment
open Lib Protocol List

/-- The opener of an ideal AEAD, under the associated data of a transfer: it opens only what was sealed for the transfer
    with the same associated data. --/
def Sealer.Binds (s : Sealer) (id : TransferID) (frags : List Fragment) : Prop :=
  ∀ sealed i total plain, s.openBytes sealed (aad id i total) = .ok plain →
    ∃ frag ∈ frags, frag.payload = sealed ∧ aad id frag.index frag.total = aad id i total

theorem aad_inj {id id' : TransferID} {i i' total total' : UInt32} (h : aad id i total = aad id' i' total') :
    id = id' ∧ i = i' ∧ total = total' := by
  rw [aad, aad, append_assoc, append_assoc] at h
  obtain ⟨hid, h⟩ := append_inj h (by rw [id.property, id'.property])
  obtain ⟨hindex, htotal⟩ := append_inj h (by rw [length_be32, length_be32])
  refine ⟨Subtype.ext hid, ?_, ?_⟩
  · rw [← u32_be32 i [], hindex, u32_be32]
  · rw [← u32_be32 total [], htotal, u32_be32]

section Binds
variable {s : Sealer} {id : TransferID} {frags : List Fragment} {parts : List Bytes}

theorem Sealer.Binds.part (h : s.Binds id frags) (hf : FragmentsOf (some s) id parts frags)
    (hfew : frags.length < 4294967296) {sealed plain : Bytes} {i total : UInt32}
    (hopen : s.openBytes sealed (aad id i total) = .ok plain) :
    total = UInt32.ofNat parts.length ∧ parts[i.toNat]? = some plain := by
  obtain ⟨frag, hfrag, rfl, haad⟩ := h sealed i total plain hopen
  obtain ⟨-, rfl, rfl⟩ := aad_inj haad
  obtain ⟨j, hj⟩ := mem_iff_getElem?.mp hfrag
  obtain ⟨hindex, htotal, part, hpart, hopens⟩ := hf.place j frag hj
  have hlt : j < 4294967296 := Nat.lt_trans (lt_of_getElem? hj) hfew
  rw [hindex, htotal] at hopen
  obtain rfl : part = plain := Except.ok.inj (hopens.symm.trans hopen)
  rw [hindex, UInt32.toNat_ofNat_of_lt' hlt]
  exact ⟨htotal, hpart⟩

theorem Sealer.Binds.all_parts (h : s.Binds id frags) (hf : FragmentsOf (some s) id parts frags)
    (hfew : frags.length < 4294967296) {total : UInt32} (htotal : total ≠ 0) {held : Nat → Bytes} {ps : List Bytes}
    (hlen : ps.length = total.toNat)
    (hopen : ∀ i p, ps[i]? = some p → s.openBytes (held i) (aad id (UInt32.ofNat i) total) = .ok p) : ps = parts := by
  have hpos : 0 < ps.length := by
    rw [hlen]
    exact Nat.pos_of_ne_zero fun hzero => htotal (UInt32.toNat_inj.mp hzero)
  obtain ⟨rfl, -⟩ := h.part hf hfew (hopen 0 _ (getElem?_eq_getElem hpos))
  have hlength : ps.length = parts.length := hlen.trans (UInt32.toNat_ofNat_of_lt' (hf.length ▸ hfew))
  refine ext_getElem hlength fun i hi _ => ?_
  have hpart := (h.part hf hfew (hopen i _ (getElem?_eq_getElem hi))).2
  rw [UInt32.toNat_ofNat_of_lt' (Nat.lt_trans (hlength ▸ hi) (hf.length ▸ hfew))] at hpart
  exact (List.getElem_of_getElem? hpart).2.symm

theorem Sealer.Binds.plain? (h : s.Binds id frags) (hf : FragmentsOf (some s) id parts frags)
    (hfew : frags.length < 4294967296) (r : RSReassembler) {i : Nat} (hi : i < parts.length) :
    r.plain? s id i = none ∨ r.plain? s id i = parts[i]? := by
  cases hplain : r.plain? s id i with
  | none => exact .inl rfl
  | some plain =>
    obtain ⟨sealed, -, hopen⟩ := RSReassembler.plain?_eq_some.mp hplain
    have hpart := (h.part hf hfew hopen).2
    rw [UInt32.toNat_ofNat_of_lt' (Nat.lt_trans hi (hf.length ▸ hfew))] at hpart
    exact .inr hpart.symm

end Binds
end SyncSwarm.Fragment

namespace SyncSwarm.Transfer
open Lib Protocol Fragment List

section Reassembled
variable {s : Sealer} {id : TransferID} {frags : List Fragment} {parts : List Bytes} {total : UInt32}
  {chunks : GoMap UInt32 Bytes}
  {data : Bytes}

theorem reassembleChunks_binds (hbinds : s.Binds id frags) (hf : FragmentsOf (some s) id parts frags)
    (hfew : frags.length < 4294967296) (htotal : total ≠ 0) (h : reassembleChunks (some s) id total chunks = .ok data) :
    data = join parts := by
  obtain ⟨ps, hlen, rfl, hopen⟩ := reassembleChunks_sealed.mp h
  exact congrArg join (hbinds.all_parts hf hfew htotal hlen hopen)

/-- Shards that open are the shards of the data. One that opens also shows how many parity shards there are. --/
theorem reconstruct_binds {rs : ReedSolomon} (hrs : rs.Lawful) {d p p' : Nat} {sent : Bytes}
    (hbinds : s.Binds id frags) (hshards : rs.shards d p sent = .ok parts) (hf : FragmentsOf (some s) id parts frags)
    (hfew : frags.length < 4294967296) (hpos : 0 < d)
    (h : (addShards (newRSReassembler (some s) d p' sent.length) id total chunks).reconstruct rs id = .ok data) :
    data = sent := by
  obtain ⟨held, hadd, -⟩ := addShards_spec (r := newRSReassembler (some s) d p' sent.length) id total chunks rfl
  rw [hadd] at h
  obtain ⟨hnew, hvalid, -⟩ := (RSReassembler.reconstruct_ok_iff rfl).mp h
  have hnew : rs.new d p' = .ok () := hnew
  -- At least one shard opens, and so the reassembler's total is the number of shards sent.
  obtain ⟨j, plain, hj⟩ := RSReassembler.exists_plain (Nat.lt_of_lt_of_le hpos hvalid)
  obtain ⟨sealed, -, hopen⟩ := RSReassembler.plain?_eq_some.mp hj
  have hlen := hrs.length hshards
  obtain rfl : p' = p := by
    have hcount :=
      GoMap.ofNat_inj (Nat.lt_of_le_of_lt (hrs.few hnew) (by decide)) (hf.length ▸ hfew) (hbinds.part hf hfew hopen).1
    omega
  have htotal : (UInt32.ofNat (d + p')).toNat = parts.length := by
    rw [← hlen, UInt32.toNat_ofNat_of_lt' (hf.length ▸ hfew)]
  have hright :=
    RSReassembler.reconstruct_of_plain hrs (r := { newRSReassembler (some s) d p' sent.length with parts := held }) rfl
    hshards htotal (fun _ => hbinds.plain? hf hfew _) hvalid rfl (Nat.le_refl _)
  rw [take_length] at hright
  exact Except.ok.inj (h.symm.trans hright)

end Reassembled

namespace Outgoing
variable {rx : Config} {rs : ReedSolomon} {o : Outgoing rx rs} {s : Sealer} {total : UInt32} {sc : Scheme}

/-- The transfer is sealed with the secret that both sides share. --/
structure Shared (o : Outgoing rx rs) (s : Sealer) : Prop where
  hybrid : o.hybrid = false
  key : rx.sealer = some s
  binds : s.Binds o.id o.frags

/-- What is claimed of the transfer is right, as far as the seal does not show it: the key, the number of data shards,
    with it the length, and that there is something to open. --/
structure Describes (o : Outgoing rx rs) (total : UInt32) (sc : Scheme) : Prop where
  hybridSealed : sc.hybridSealed = false
  dataShards : sc.dataShards = o.sc.dataShards
  originalLen : 0 < o.sc.dataShards → sc.originalLen = o.sc.originalLen
  total : o.sc.dataShards = 0 → total ≠ 0

instance : Decidable (o.Describes total sc) :=
  decidable_of_iff (sc.hybridSealed = false ∧ sc.dataShards = o.sc.dataShards ∧
      (0 < o.sc.dataShards → sc.originalLen = o.sc.originalLen) ∧ (o.sc.dataShards = 0 → total ≠ 0))
    ⟨fun h => ⟨h.1, h.2.1, h.2.2.1, h.2.2.2⟩, fun h => ⟨h.1, h.2, h.3, h.4⟩⟩

theorem Shared.opener (h : o.Shared s) : rx.recipientOpener o.scheme = some s := by
  rw [Config.recipientOpener, scheme, h.hybrid, if_neg Bool.false_ne_true, h.key]

theorem Shared.reassembled (h : o.Shared s) (hrs : rs.Lawful) {st : TransferState} (hid : st.id = o.id)
    (hst : o.Describes st.total st.scheme) {data : Bytes} (hok : rx.reassemble rs st = .ok data) : data = o.data := by
  have hopener : rx.recipientOpener st.scheme = some s := by
    rw [Config.recipientOpener, hst.hybridSealed, if_neg Bool.false_ne_true, h.key]
  rw [Config.reassemble, hopener, hid, hst.dataShards] at hok
  obtain ⟨hsc, parts, hjoin, hf⟩ | ⟨hpos, -, hsc, shards, hshards, hf⟩ := o.spec
  · have hzero : o.sc.dataShards = 0 := by rw [hsc]
    rw [hzero, if_neg (UInt32.lt_irrefl 0), mapError_eq_ok] at hok
    rw [← hjoin]
    exact reassembleChunks_binds h.binds (h.opener ▸ hf) o.few (hst.total hzero) hok
  · have hle : o.tx.dataShards.toNat < 4294967296 := by
      have hlen := hrs.length hshards
      have := hf.length ▸ o.few
      omega
    have hd : o.sc.dataShards.toNat = o.tx.dataShards.toNat := by
      rw [hsc]
      exact UInt32.toNat_ofNat_of_lt' hle
    have hcoded : 0 < o.sc.dataShards := UInt32.lt_iff_toNat_lt.mpr (by rw [hd]; exact hpos)
    have hlen : st.scheme.originalLen = UInt64.ofNat o.data.length := by rw [hst.originalLen hcoded, hsc]
    rw [if_pos hcoded, hd, hlen, intOfLen_ofNat o.short] at hok
    exact reconstruct_binds hrs h.binds hshards (h.opener ▸ hf) o.few hpos hok

end Outgoing

namespace Receiver
variable {t : Config} {rs : ReedSolomon} {w u : Receiver} {a : Action} {o : Outgoing t rs} {s : Sealer}

/-- A packet that creates a state for the transfer describes it. Nothing is asked of any other packet. --/
def Described (o : Outgoing t rs) (w : Receiver) : Action → Prop
  | .forward pkt _ => pkt.id = o.id → w.table.get? pkt.id = none → o.Describes pkt.totalChunks (schemeFromPacket pkt)
  | .connect pkt => pkt.id = o.id → ((pkt.resumable && pkt.streaming) = true → w.table.get? pkt.id = none) →
      o.Describes pkt.totalChunks (schemeFromPacket pkt)
  | _ => True

instance : ∀ a, Decidable (w.Described o a)
  | .forward _ _ => inferInstanceAs (Decidable (_ → _ = none → _))
  | .connect _ => inferInstanceAs (Decidable (_ → (_ → _ = none) → _))
  | .process _ | .dispatch _ | .delete _ | .chunk _ _ | .ack _ | .eof _ | .fail _ | .finish _ | .close _ =>
    inferInstanceAs (Decidable True)

/-- The invariant: what is handed over is the content. --/
structure Intact (o : Outgoing t rs) (w : Receiver) : Prop where
  state : ∀ st ∈ w.objects, st.id = o.id → o.Describes st.total st.scheme
  call : ∀ x ∈ w.calls, x.pkt.id = o.id → ∀ data, x.phase = .delivering data → data = o.data
  dispatched : ∀ e ∈ w.dispatched, e.id = o.id → e.data = o.data

theorem intact_new : new.Intact o := by
  constructor
  all_goals exact fun x hx => absurd hx not_mem_nil

namespace Intact

theorem setCall {c : Nat} {x : IngestCall} {phase : CallPhase} (h : w.Intact o)
    (hphase : x.pkt.id = o.id → ∀ data, phase = .delivering data → data = o.data) : (w.setCall c x phase).Intact o := by
  refine ⟨h.state, fun y hy hid => ?_, h.dispatched⟩
  rcases mem_or_eq_of_mem_set hy with hy | rfl
  · exact h.call y hy hid
  · exact hphase hid

theorem addCall {pkt : Packet} {ref : Nat} (h : w.Intact o) :
    ({ w with calls := w.calls ++ [⟨pkt, ref, .loaded⟩] } : Receiver).Intact o := by
  refine ⟨h.state, fun y hy hid data hdata => ?_, h.dispatched⟩
  rcases mem_append_single.mp hy with hy | rfl
  · exact h.call y hy hid data hdata
  · cases hdata

theorem setObject {st st' : State} {r : Nat} (h : w.Intact o) (hst : w.objects[r]? = some st)
    (hkind : st'.kind = st.kind) :
    (w.setObject r st').Intact o := by
  refine ⟨fun x hx hid => ?_, h.call, h.dispatched⟩
  rcases mem_or_eq_of_mem_set hx with hx | rfl
  · exact h.state x hx hid
  · obtain ⟨heq, htotal, hscheme, -⟩ := Kind.mk.inj hkind
    exact htotal ▸ hscheme ▸ h.state st (mem_of_getElem? hst) (heq ▸ hid)

theorem addObject {st : State} (h : w.Intact o) (hst : st.id = o.id → o.Describes st.total st.scheme) :
    ({ w with objects := w.objects ++ [st] } : Receiver).Intact o := by
  refine ⟨fun x hx hid => ?_, h.call, h.dispatched⟩
  rcases mem_append_single.mp hx with hx | rfl
  · exact h.state x hx hid
  · exact hst hid

theorem log {st : State} {r : Nat} {data : Bytes} (h : w.Intact o) (hdata : st.id = o.id → data = o.data) :
    (w.log r st data).Intact o := by
  refine ⟨h.state, h.call, fun e he hid => ?_⟩
  rcases mem_append_single.mp he with he | rfl
  · exact h.dispatched e he hid
  · exact hdata hid

end Intact

theorem Steps.intact (hs : Steps t rs w a u) (hrs : rs.Lawful) (hshared : o.Shared s) (hrefs : w.Refs)
    (hdesc : w.Described o a) (h : w.Intact o) : u.Intact o := by
  cases hs with
  | loaded => exact h.addCall
  | @created pkt routed hnone =>
    have hdesc : pkt.id = o.id → w.table.get? pkt.id = none →
        o.Describes pkt.totalChunks (schemeFromPacket pkt) := hdesc
    have hnew : ({ w with objects := w.objects ++ [newForwardedState pkt routed] } : Receiver).Intact o :=
      h.addObject fun hid => hdesc hid hnone
    have hcall : ({ w with
        objects := w.objects ++ [newForwardedState pkt routed]
        calls := w.calls ++ [⟨pkt, w.objects.length, .loaded⟩] } : Receiver).Intact o := hnew.addCall
    exact ⟨hcall.state, hcall.call, hcall.dispatched⟩
  | @processed c x st st' phase hx hp hst hok =>
    have hid : st.id = x.pkt.id := (hrefs.call x (mem_of_getElem? hx)).id_eq hst
    have hingests := State.ingest_cases hok
    have hphase : x.pkt.id = o.id → ∀ data, phase = .delivering data → data = o.data := by
      intro he data hdata
      subst hdata
      cases hingests with
      | streamed _ hne => rcases hne with hne | hne <;> cases hne
      | completed _ _ _ hdata =>
        refine hshared.reassembled hrs ?_ ?_ hdata
        · exact hid.trans he
        · exact h.state st (mem_of_getElem? hst) (hid.trans he)
    have hset := (h.setObject hst (State.Becomes.ingested hingests).kind_eq).setCall (c := c) hphase
    exact ⟨hset.state, hset.call, hset.dispatched⟩
  | @dispatched c x st data hx hp hst =>
    have hid : st.id = x.pkt.id := (hrefs.call x (mem_of_getElem? hx)).id_eq hst
    have hlog : (w.log x.ref st data).Intact o := h.log fun he => h.call x (mem_of_getElem? hx) (hid ▸ he) data hp
    exact hlog.setCall fun _ data hdata => by cases hdata
  | @deleted c x hx hp =>
    have hset : (w.setCall c x .done).Intact o := h.setCall fun _ data hdata => by cases hdata
    exact ⟨hset.state, hset.call, hset.dispatched⟩
  | @connected pkt hnone =>
    have hdesc : pkt.id = o.id → ((pkt.resumable && pkt.streaming) = true → w.table.get? pkt.id = none) →
      o.Describes pkt.totalChunks (schemeFromPacket pkt) := hdesc
    have hnew : ({ w with objects := w.objects ++ [newDirectState pkt] } : Receiver).Intact o :=
      h.addObject fun hid => hdesc hid hnone
    exact ⟨hnew.state, hnew.call, hnew.dispatched⟩
  | @chunked c x st st' pkt hx hp hst hok =>
    have hset := h.setObject hst (State.processChunk_kind hok)
    exact ⟨hset.state, hset.call, hset.dispatched⟩
  | @delivered c x st data hx hp hst hstream hcomplete hdata =>
    have hlog : (w.log x.ref st data).Intact o := h.log fun he =>
      hshared.reassembled hrs he (h.state st (mem_of_getElem? hst) he) hdata
    exact ⟨hlog.state, hlog.call, hlog.dispatched⟩
  | _ => exact ⟨h.state, h.call, h.dispatched⟩

namespace Carried
open Sample (node transferID scheme shard)

/-- The AEAD of two nodes, of which one has sent the other a payload in two shards. --/
def bound : Sealer where
  sealBytes _ plain a :=
    if plain = [1, 2, 3] ∧ (a = aad transferID 0 2 ∨ a = aad transferID 1 2) then .ok (a ++ plain) else
      .error "cipher: no randomness"
  openBytes sealed a :=
    if (a = aad transferID 0 2 ∨ a = aad transferID 1 2) ∧ sealed = a ++ [1, 2, 3] then .ok [1, 2, 3]
    else .error "cipher: message authentication failed"

theorem undoes_bound : Undoes (some bound) (some bound) := by
  intro draw plain a sealed h
  simp only [bound] at h ⊢
  split at h
  next hplain =>
    cases h
    rw [hplain.1, if_pos ⟨hplain.2, rfl⟩]
  · cases h

theorem binds_bound : bound.Binds transferID [shard 0, shard 1] := by
  intro sealed i total plain h
  simp only [bound] at h
  split at h
  next hopen =>
    obtain ⟨haad | haad, rfl⟩ := hopen
    · exact ⟨shard 0, mem_cons_self, by rw [haad]; rfl, haad.symm⟩
    · exact ⟨shard 1, mem_cons_of_mem _ mem_cons_self, by rw [haad]; rfl, haad.symm⟩
  · cases h

def rx : Config := node 1 1 16 (some bound)

def next : Receiver → Action → Option Receiver := step rx copies

def sent : Outgoing rx copies where
  tx := rx
  id := transferID
  data := [1, 2, 3]
  isVariable := false
  hybrid := false
  pq := false
  sealer := some bound
  frags := [shard 0, shard 1]
  sc := scheme
  size := by decide
  short := Sample.short_bytes
  built := by rfl
  opens := undoes_bound
  few := Sample.few_shards

theorem shared_sent : sent.Shared bound := ⟨rfl, rfl, binds_bound⟩

def packet (i : UInt32) (originalLen : UInt64) (parityShards : UInt32) : Packet :=
  { packetOf transferID scheme "sender" [] (shard i) with originalLen, parityShards }

def rewritten : List Action :=
  [.forward (packet 1 3 1) true, .forward (packet 1 1 7) true, .process 1, .dispatch 1, .process 0, .delete 1]

def shortened : List Action := [.forward (packet 0 1 1) true, .process 0, .dispatch 0]

end Carried

end Receiver
end SyncSwarm.Transfer
