import SyncSwarm.Link.ResourceSystem
import SyncSwarm.Theorems.Resource.Moves

/-! Safety of the exchange: what is acknowledged is in the receiver's copy until that is completed. -/

namespace SyncSwarm.Link
open Lib List Option GoMap

namespace Exchange
variable {sha256 : Bytes → Hash} {data : Bytes} {x y : Exchange}

def Received (x : Exchange) (i : Nat) : Prop := ∃ st, x.receiver.byID.get? x.sender.id = some st ∧ st.Got i

/-- The receiver's base, zero for a resource that it does not hold. --/
def recvBase (x : Exchange) : Nat := (x.receiver.byID.get? x.sender.id).elim 0 RecvState.base

theorem recvBase_eq {st : RecvState} (h : x.receiver.byID.get? x.sender.id = some st) : x.recvBase = st.base := by
  rw [recvBase, h]
  rfl

def Reports (x : Exchange) (base : Nat) (bitmap : Bytes) : Prop :=
  base ≤ x.recvBase ∧ ∀ k, ResourceSender.bitSet bitmap k = true → x.Received (base + k)

inductive Reply (x : Exchange) : Bytes → Prop
  | done : x.completed ≠ [] → Reply x (encodeDone x.sender.id)
  | ack (base : Nat) (bitmap : Bytes) : base < 4294967296 → bitmap.length ≤ maxAckBitmapBytes →
      (x.completed = [] → x.Reports base bitmap) → Reply x (encodeAck x.sender.id (UInt32.ofNat base) bitmap)

/-- The invariant that links the two sides and the frames under way. --/
structure Inv (sha256 : Bytes → Hash) (data : Bytes) (x : Exchange) : Prop where
  parts : 0 < x.sender.parts.length
  content : x.sender.parts.flatten = data
  whole : x.sender.whole = sha256 data
  sends : ∀ frame ∈ x.toRecv, x.sender.Sends frame
  copy : ∀ st, x.receiver.byID.get? x.sender.id = some st → Copies x.sender st
  pending : ∀ st, x.receiver.byID.get? x.sender.id = some st → ¬st.Completes sha256
  completed : ∀ c ∈ x.completed, c.1 = x.sender.id ∧ (Identifies sha256 data x.sender → c.2 = data)
  finished : (x.receiver.finished.get? x.sender.id).isSome → x.completed ≠ []
  done : x.sender.done = some (.ok ()) → x.completed ≠ []
  replies : ∀ frame ∈ x.toSend, x.Reply frame
  marks : x.completed = [] → ∀ i, x.sender.acked[i]? = some true → x.Received i
  base : x.completed = [] → x.sender.base ≤ x.recvBase

/-- Nothing that an acknowledgement may have reported is taken back before the completion. --/
structure Advances (x y : Exchange) : Prop where
  id : y.sender.id = x.sender.id
  completed : y.completed = [] → x.completed = []
  base : y.completed = [] → x.recvBase ≤ y.recvBase
  received : y.completed = [] → ∀ i, x.Received i → y.Received i

namespace Advances

theorem of_receiver (hs : y.sender.id = x.sender.id) (hr : y.receiver = x.receiver)
    (hc : y.completed = x.completed) : Advances x y where
  id := hs
  completed h := hc ▸ h
  base _ := by rw [recvBase, recvBase, hr, hs]
  received _ i h := by rw [Received, hr, hs]; exact h

theorem reports (h : Advances x y) (hy : y.completed = []) {base : Nat} {bitmap : Bytes}
    (hr : x.Reports base bitmap) : y.Reports base bitmap :=
  ⟨hr.1.trans (h.base hy), fun k hk => h.received hy _ (hr.2 k hk)⟩

theorem reply (h : Advances x y) {frame : Bytes} (hr : x.Reply frame) : y.Reply frame := by
  cases hr with
  | done hne =>
    rw [← h.id]
    exact .done fun hy => hne (h.completed hy)
  | ack base bitmap hb hlen hrep =>
    rw [← h.id]
    exact .ack base bitmap hb hlen fun hy => h.reports hy (hrep (h.completed hy))

end Advances

theorem base_lt_of_pending {s : ResourceSender} {st : RecvState} (hcopy : Copies s st)
    (hwhole : s.whole = sha256 s.parts.flatten) (hp : ¬st.Completes sha256) : st.base < s.parts.length := by
  by_contra hge
  have htotal : st.total = s.parts.length % 4294967296 := hcopy.total
  have hle := hcopy.base_le
  have hmod := Nat.mod_le s.parts.length (4294967296)
  have hn : s.parts.length < 4294967296 := by
    have : s.parts.length % 4294967296 = s.parts.length := by omega
    rw [← this]
    exact Nat.mod_lt _ (by decide)
  have hcount := hcopy.count_of_base (by omega)
  exact hp ⟨hcount, hcopy.incomplete, by rw [hcopy.assemble hn hcount, hcopy.whole, hwhole]⟩

namespace Inv

theorem recvBase_lt (h : Inv sha256 data x) : x.recvBase < x.sender.parts.length := by
  cases hst : x.receiver.byID.get? x.sender.id with
  | none => rw [recvBase, hst]; exact h.parts
  | some st =>
    rw [recvBase_eq hst]
    exact base_lt_of_pending (h.copy st hst) (by rw [h.whole, h.content]) (h.pending st hst)

theorem of_channels (h : Inv sha256 data x) (hs : y.sender = x.sender) (hr : y.receiver = x.receiver)
    (hc : y.completed = x.completed) (hto : ∀ frame ∈ y.toRecv, x.sender.Sends frame)
    (hfrom : ∀ frame ∈ y.toSend, frame ∈ x.toSend) : Inv sha256 data y := by
  have hadv : Advances x y := .of_receiver (by rw [hs]) hr hc
  refine ⟨?_, ?_, ?_, ?_, ?_, ?_, ?_, ?_, ?_, ?_, ?_, ?_⟩
  · rw [hs]; exact h.parts
  · rw [hs]; exact h.content
  · rw [hs]; exact h.whole
  · rw [hs]; exact hto
  · rw [hs, hr]; exact h.copy
  · rw [hs, hr]; exact h.pending
  · rw [hs, hc]; exact h.completed
  · rw [hs, hr, hc]; exact h.finished
  · rw [hs, hc]; exact h.done
  · exact fun frame hf => hadv.reply (h.replies frame (hfrom frame hf))
  · intro hy i hi
    rw [hs] at hi
    exact hadv.received hy i (h.marks (hadv.completed hy) i hi)
  · intro hy
    rw [hs]
    exact (h.base (hadv.completed hy)).trans (hadv.base hy)

theorem of_sender (h : Inv sha256 data x) {out : ResourceSender × List Bytes}
    (hcont : ResourceSender.Continues x.sender out.1) (hout : ∀ frame ∈ out.2, x.sender.Sends frame)
    (hdone : out.1.done = some (.ok ()) → x.completed ≠ [])
    (hmarks : x.completed = [] → ∀ i, out.1.acked[i]? = some true → x.Received i)
    (hbase : x.completed = [] → out.1.base ≤ x.recvBase) : Inv sha256 data (x.fromSender out) := by
  have hadv : Advances x (x.fromSender out) := .of_receiver hcont.id rfl rfl
  refine ⟨?_, ?_, ?_, ?_, ?_, ?_, ?_, ?_, hdone, ?_, ?_, ?_⟩
  · exact hcont.parts ▸ h.parts
  · exact hcont.parts ▸ h.content
  · exact hcont.whole.trans h.whole
  · intro frame hf
    refine hcont.sends.mpr ?_
    rcases mem_append.mp hf with hf | hf
    · exact h.sends frame hf
    · exact hout frame hf
  · intro st hst
    exact hcont.copies (h.copy st (hcont.id ▸ hst))
  · intro st hst
    exact h.pending st (hcont.id ▸ hst)
  · intro c hc
    obtain ⟨hid, hdata⟩ := h.completed c hc
    exact ⟨hid.trans hcont.id.symm, fun h => hdata (h.imp_left fun hn => hcont.parts ▸ hn)⟩
  · intro hfin
    exact h.finished (hcont.id ▸ hfin)
  · exact fun frame hf => hadv.reply (h.replies frame hf)
  · exact fun hy i hi => hadv.received hy i (hmarks hy i hi)
  · exact fun hy => (hbase hy).trans (hadv.base hy)

theorem of_reply (h : Inv sha256 data x) {frame : Bytes} (hr : x.Reply frame)
    (now : Int) : Inv sha256 data (x.fromSender (x.sender.feed frame now)) := by
  cases hr with
  | done hne =>
    rw [ResourceSender.feed_done]
    refine h.of_sender (x.sender.finish_continues _) (nofun) (fun _ => hne) ?_ ?_
    · exact fun hc => absurd hc hne
    · exact fun hc => absurd hc hne
  | ack base bitmap hb hlen hrep =>
    have hnat : (UInt32.ofNat base).toNat = base := UInt32.toNat_ofNat_of_lt' hb
    rw [ResourceSender.feed_ack _ _ _ (Nat.lt_of_le_of_lt hlen (by decide)), hnat]
    have hmarks : x.completed = [] → ∀ i, (x.sender.mark base bitmap).acked[i]? = some true → x.Received i := by
      intro hc i hi
      obtain ⟨hle, hbits⟩ := hrep hc
      rcases ResourceSender.acked_mark hi with hi | hi | ⟨k, rfl, hk⟩
      · exact h.marks hc i hi
      · -- Below the acknowledged base, hence below the receiver's: it has everything there.
        cases hst : x.receiver.byID.get? x.sender.id with
        | none => rw [recvBase, hst] at hle; exact absurd hle (by simp; omega)
        | some st =>
          rw [recvBase_eq hst] at hle
          exact ⟨st, hst, (h.copy st hst).below i (Nat.lt_of_lt_of_le hi hle)⟩
      · exact hbits k hk
    have hbase : x.completed = [] → (x.sender.mark base bitmap).base ≤ x.recvBase := fun hc =>
      Nat.max_le.mpr ⟨h.base hc, (hrep hc).1⟩
    have hmark := x.sender.mark_continues base bitmap
    split
    next hall =>
      have hne : x.completed ≠ [] := fun hc =>
        Nat.not_lt.mpr hall (Nat.lt_of_le_of_lt (hbase hc) h.recvBase_lt)
      refine h.of_sender (hmark.trans (ResourceSender.finish_continues _ _))
        (nofun) (fun _ => hne) ?_ ?_
      · exact fun hc => absurd hc hne
      · exact fun hc => absurd hc hne
    · refine h.of_sender (hmark.trans (ResourceSender.fillWindowLocked_continues _ _)) ?_ h.done hmarks hbase
      exact fun frame hf => hmark.sends.mp (.inr (ResourceSender.sendsPart_of_mem_fillWindowLocked now hf))

theorem of_receiver (h : Inv sha256 data x) {out : Fed}
    (hcopy : ∀ st, out.receiver.byID.get? x.sender.id = some st → Copies x.sender st ∧ ¬st.Completes sha256)
    (hcomp : ∀ c ∈ out.completed, c.1 = x.sender.id ∧ (Identifies sha256 data x.sender → c.2 = data))
    (hfin : (out.receiver.finished.get? x.sender.id).isSome → x.completed ++ out.completed ≠ [])
    (hadv : Advances x (x.fromReceiver out)) (hsent : ∀ frame ∈ out.sent, (x.fromReceiver out).Reply frame) :
    Inv sha256 data (x.fromReceiver out) := by
  refine ⟨h.parts, h.content, h.whole, h.sends, fun st hst => (hcopy st hst).1, fun st hst => (hcopy st hst).2, ?_,
    hfin, ?_, ?_, ?_, ?_⟩
  · intro c hc
    rcases mem_append.mp hc with hc | hc
    · exact h.completed c hc
    · exact hcomp c hc
  · exact fun hd hy => h.done hd (hadv.completed hy)
  · intro frame hf
    rcases mem_append.mp hf with hf | hf
    · exact hadv.reply (h.replies frame hf)
    · exact hsent frame hf
  · exact fun hy i hi => hadv.received hy i (h.marks (hadv.completed hy) i hi)
  · exact fun hy => (h.base (hadv.completed hy)).trans (hadv.base hy)

end Inv

theorem reply_ackFrame {st : RecvState} (hcopy : Copies x.sender st)
    (h : x.completed = [] → x.receiver.byID.get? x.sender.id = some st) : x.Reply (st.ackFrame x.sender.id) := by
  have htotal : st.total < 4294967296 := by
    rw [hcopy.total]
    exact Nat.mod_lt _ (by decide)
  refine .ack st.base _ (Nat.lt_of_le_of_lt hcopy.base_le htotal) st.length_ackBitmapLocked_le fun hc => ⟨?_, ?_⟩
  · exact (recvBase_eq (h hc)).ge
  · exact fun k hk => ⟨st, h hc, RecvState.got_of_bitSet hk⟩

theorem Inv.of_feed (h : Inv sha256 data x) {frame : Bytes} (hs : x.sender.Sends frame) (now : Int)
    (order : List ResID) :
    Inv sha256 data (x.fromReceiver (x.receiver.feed sha256 frame now order)) := by
  have hfeeds : Feeds sha256 x.sender x.receiver frame now order _ := x.receiver.feeds now order hs
  generalize x.receiver.feed sha256 frame now order = out at hfeeds
  cases hfeeds with
  | ignored =>
    exact h.of_channels rfl rfl (append_nil _) h.sends (by simp [fromReceiver])
  | opened _ hnone hallow =>
    refine h.of_receiver ?_ (by simp) ?_ ⟨rfl, ?_, ?_, ?_⟩ (by simp)
    · intro st hst
      cases (get?_set_self _ _ _).symm.trans hst
      exact ⟨.new x.sender, fun hc => Nat.ne_of_lt hallow.pos hc.1⟩
    · simpa using h.finished
    · simp [fromReceiver]
    · intro _
      rw [recvBase, hnone]
      exact Nat.zero_le _
    · rintro - i ⟨st, hst, -⟩
      cases hnone.symm.trans hst
  | answered hnone hfin =>
    have hne := h.finished hfin
    refine h.of_receiver (fun st hst => ⟨h.copy st hst, h.pending st hst⟩) (by simp) ?_ ⟨rfl, ?_, ?_, ?_⟩ ?_
    · simpa using h.finished
    · simp [fromReceiver]
    · exact fun _ => Nat.le_refl _
    · exact fun _ i hi => hi
    · intro frame hf
      rw [mem_singleton.mp hf]
      exact .done (by simpa [fromReceiver] using hne)
  | stored st j hst hj hlt hnc =>
    have hcopy : Copies x.sender (st.after x.sender j) := (h.copy st hst).store hj hlt
    refine h.of_receiver ?_ (by simp) ?_ ⟨rfl, ?_, ?_, ?_⟩ ?_
    · intro st' hst'
      cases (get?_set_self _ _ _).symm.trans hst'
      exact ⟨hcopy, hnc⟩
    · simpa using h.finished
    · simp [fromReceiver]
    · intro _
      rw [recvBase_eq hst, recvBase_eq (get?_set_self _ _ _)]
      exact RecvState.le_store_base
    · rintro - i ⟨st', hst', hi⟩
      cases hst.symm.trans hst'
      exact ⟨_, get?_set_self _ _ _, (RecvState.store_got hlt).mpr (.inl hi)⟩
    · intro frame hf
      rw [mem_singleton.mp hf]
      exact reply_ackFrame (x := x.fromReceiver _) hcopy fun _ => get?_set_self _ _ _
  | completed st j hst hj hlt hc =>
    have hcopy : Copies x.sender (st.after x.sender j) := (h.copy st hst).store hj hlt
    have hne : ∀ l : List (ResID × Bytes), l ++ [(x.sender.id, (st.after x.sender j).assembleLocked)] ≠ [] := by simp
    refine h.of_receiver ?_ ?_ (fun _ => hne _) ⟨rfl, ?_, ?_, ?_⟩ ?_
    · intro st' hst'
      cases (get?_delete_self _ _).symm.trans hst'
    · intro c hmem
      rw [mem_singleton.mp hmem]
      exact ⟨rfl, fun hid => assembled_eq hid h.content h.whole hcopy hc⟩
    · exact fun hy => absurd hy (hne _)
    · exact fun hy => absurd hy (hne _)
    · exact fun hy => absurd hy (hne _)
    · intro frame hf
      rcases mem_pair.mp hf with rfl | rfl
      · exact reply_ackFrame (x := x.fromReceiver _) hcopy fun hy => absurd hy (hne _)
      · exact .done (hne _)

/-! ### Runs -/

@[simp] theorem step_zero (x : Exchange) (a : Action) :
    step sha256 x ⟨0, a⟩ = perform sha256 x a := by
  simp [step]

theorem perform_recv {i : Nat} {frame : Bytes} (h : x.toRecv[i]? = some frame) (order : List ResID) :
    perform sha256 x (.recv i order) =
      some ({ x with toRecv := x.toRecv.eraseIdx i }.fromReceiver (x.receiver.feed sha256 frame x.clock order)) := by
  rw [perform, h, map_some]

theorem perform_ack {i : Nat} {frame : Bytes} (h : x.toSend[i]? = some frame) :
    perform sha256 x (.ack i) =
      some ({ x with toSend := x.toSend.eraseIdx i }.fromSender (x.sender.feed frame x.clock)) := by
  rw [perform, h, map_some]

theorem perform_continues {a : Action} (hstep : perform sha256 x a = some y) :
    ResourceSender.Continues x.sender y.sender := by
  cases a with
  | start =>
    rw [perform] at hstep
    split at hstep
    · cases hstep
    · cases hstep
      exact ⟨rfl, rfl, rfl, rfl, Nat.le_refl _⟩
  | tick =>
    rw [perform] at hstep
    split at hstep
    · cases hstep
      exact ⟨rfl, rfl, rfl, rfl, Nat.le_refl _⟩
    · cases hstep
  | timeout =>
    cases hstep
    exact x.sender.finish_continues _
  | recv i order =>
    obtain ⟨frame, -, rfl⟩ := map_eq_some_iff.mp hstep
    exact .refl _
  | ack i =>
    obtain ⟨frame, -, rfl⟩ := map_eq_some_iff.mp hstep
    exact x.sender.feed_continues frame x.clock
  | dropRecv i | dupRecv i | dropAck i | dupAck i => cases hstep; exact .refl _

theorem exec_continues {es : List Event} (hrun : exec (step sha256) x es = some y) :
    ResourceSender.Continues x.sender y.sender :=
  exec_keeps (P := fun z => ResourceSender.Continues x.sender z.sender)
    (fun _ _ _ hz hstep => hz.trans (perform_continues hstep)) (.refl _) hrun

theorem Inv.perform (h : Inv sha256 data x) {a : Action} (hstep : perform sha256 x a = some y) :
    Inv sha256 data y := by
  cases a with
  | start =>
    rw [Exchange.perform] at hstep
    split at hstep
    · cases hstep
    · cases hstep
      have hy : Inv sha256 data (x.fromSender (x.sender.start x.clock)) :=
        h.of_sender ⟨rfl, rfl, rfl, rfl, Nat.le_refl _⟩ (fun _ hf => ResourceSender.sends_of_mem_start hf)
          h.done h.marks h.base
      exact hy.of_channels rfl rfl rfl hy.sends fun _ hf => hf
  | tick =>
    rw [Exchange.perform] at hstep
    split at hstep
    · cases hstep
      exact h.of_sender ⟨rfl, rfl, rfl, rfl, Nat.le_refl _⟩ (fun _ hf => .inr (ResourceSender.sendsPart_of_mem_tick hf))
        h.done h.marks h.base
    · cases hstep
  | timeout =>
    cases hstep
    have hdone : x.sender.waitTimeout.done = some (.ok ()) → x.completed ≠ [] := by
      intro hd
      rcases x.sender.finish_done (.error "resource: send timed out") with hkeep | hnew
      · exact h.done (hkeep ▸ hd)
      · cases hnew.symm.trans hd
    have hy : Inv sha256 data (x.fromSender (x.sender.waitTimeout, [])) := by
      refine h.of_sender (x.sender.finish_continues _) (nofun) hdone ?_ ?_
      · simpa [ResourceSender.waitTimeout] using h.marks
      · simpa [ResourceSender.waitTimeout] using h.base
    exact hy.of_channels rfl rfl rfl (fun frame hf => hy.sends frame (mem_append_left _ hf)) fun _ hf => hf
  | recv i order =>
    obtain ⟨frame, hframe, rfl⟩ := map_eq_some_iff.mp hstep
    have hx : Inv sha256 data { x with toRecv := x.toRecv.eraseIdx i } :=
      h.of_channels rfl rfl rfl (fun _ hf => h.sends _ (mem_of_mem_eraseIdx hf)) fun _ hf => hf
    exact hx.of_feed (h.sends frame (mem_of_getElem? hframe)) _ order
  | ack i =>
    obtain ⟨frame, hframe, rfl⟩ := map_eq_some_iff.mp hstep
    have hx : Inv sha256 data { x with toSend := x.toSend.eraseIdx i } :=
      h.of_channels rfl rfl rfl h.sends fun _ hf => mem_of_mem_eraseIdx hf
    have hadv : Advances x { x with toSend := x.toSend.eraseIdx i } := .of_receiver rfl rfl rfl
    exact hx.of_reply (hadv.reply (h.replies frame (mem_of_getElem? hframe))) _
  | dropRecv i =>
    cases hstep
    exact h.of_channels rfl rfl rfl (fun _ hf => h.sends _ (mem_of_mem_eraseIdx hf)) fun _ hf => hf
  | dupRecv i =>
    cases hstep
    refine h.of_channels rfl rfl rfl ?_ fun _ hf => hf
    intro frame hf
    rcases mem_append.mp hf with hf | hf
    · exact h.sends frame hf
    · exact h.sends frame (mem_of_getElem? (mem_toList.mp hf))
  | dropAck i =>
    cases hstep
    exact h.of_channels rfl rfl rfl h.sends fun _ hf => mem_of_mem_eraseIdx hf
  | dupAck i =>
    cases hstep
    refine h.of_channels rfl rfl rfl h.sends ?_
    intro frame hf
    rcases mem_append.mp hf with hf | hf
    · exact hf
    · exact mem_of_getElem? (mem_toList.mp hf)

theorem Inv.step (h : Inv sha256 data x) {e : Event} (hstep : step sha256 x e = some y) : Inv sha256 data y :=
  Inv.perform (x := { x with clock := x.clock + e.elapsed }) (h.of_channels rfl rfl rfl h.sends fun _ hf => hf) hstep

section
variable {id : ResID} {partSize window rto : Int} {es : List Event}

theorem Initial.inv (h : Initial sha256 id data partSize window rto x) : Inv sha256 data x := by
  have hnew := newResourceSender_ok h.sender
  have hsize : 0 < partSize.toNat := by
    have := hnew.size_pos
    omega
  have hnone : x.receiver.byID.get? x.sender.id = none := hnew.id ▸ h.fresh
  refine ⟨?_, ?_, hnew.whole, ?_, ?_, ?_, ?_, ?_, ?_, ?_, ?_, ?_⟩
  · rw [hnew.parts]
    exact resourceParts_pos hsize
  · rw [hnew.parts, flatten_resourceParts hsize]
  · rw [h.toRecv]
    exact nofun
  · intro st hst
    cases hnone.symm.trans hst
  · intro st hst
    cases hnone.symm.trans hst
  · rw [h.completed]
    exact nofun
  · rw [hnew.id, h.unfinished]
    exact fun hfin => absurd hfin Bool.false_ne_true
  · rw [hnew.done]
    exact fun hd => nomatch hd
  · rw [h.toSend]
    exact nofun
  · intro _ i hi
    rw [hnew.acked, getElem?_replicate] at hi
    split at hi <;> cases hi
  · rw [hnew.base]
    exact fun _ => Nat.zero_le _

/-- A sender that finished with `nil` sent a resource that the receiver has completed. Nothing else is completed, and
    the content is what was sent, if that is what the sum tells. Until then the sender marks only parts that the
    receiver holds, and its base is not ahead of the receiver's. --/
theorem exchange_safe (h : Initial sha256 id data partSize window rto x) (hrun : exec (step sha256) x es = some y) :
    (y.sender.done = some (.ok ()) → y.completed ≠ []) ∧
    (∀ c ∈ y.completed, c.1 = id ∧ (Identifies sha256 data x.sender → c.2 = data)) ∧
    (y.completed = [] →
      (∀ i, y.sender.acked[i]? = some true → ∃ st, y.receiver.byID.get? id = some st ∧ st.Got i ∧
        (y.sender.parts.length < 4294967296 → st.parts[i]? = y.sender.parts[i]?)) ∧
      y.sender.base ≤ y.recvBase) := by
  have hinv : Inv sha256 data y := exec_keeps (fun _ _ _ hz hstep => hz.step hstep) h.inv hrun
  have hparts := (exec_continues hrun).parts
  obtain rfl : y.sender.id = id := (exec_continues hrun).id.trans (newResourceSender_ok h.sender).id
  refine ⟨hinv.done, fun c hc => (hinv.completed c hc).imp_right fun hdata hid =>
    hdata (hid.imp_left fun hn => hparts ▸ hn), fun hc => ⟨fun i hi => ?_, hinv.base hc⟩⟩
  obtain ⟨st, hst, hgot⟩ := hinv.marks hc i hi
  exact ⟨st, hst, hgot, fun hn => (hinv.copy st hst).part_of_got hn hgot⟩

end

def fresh (s : ResourceSender) : Exchange := ⟨s, newResourceReceiver, [], [], false, 0, []⟩

theorem initial_fresh {id : ResID} {partSize window rto : Int} {s : ResourceSender}
    (h : newResourceSender sha256 id data partSize window rto = .ok s) :
    Initial sha256 id data partSize window rto (fresh s) :=
  ⟨h, get?_empty _, get?_empty _, show 0 < maxInflightMessages by decide, rfl, rfl, rfl, rfl⟩

/-- Three parts, of which two are in the window. --/
def threeParts : ResourceSender where
  id := default
  parts := [[7], [8], [9]]
  whole := sampleSha256 [7, 8, 9]
  window := 2
  rto := 1
  base := 0
  acked := [false, false, false]
  sentAt := [0, 0, 0]
  sentHigh := 0
  finished := false
  done := none
  window_pos := by decide
  acked_len := rfl
  sentAt_len := rfl
  sentHigh_le := Nat.zero_le _

theorem threeParts_new : newResourceSender sampleSha256 threeParts.id [7, 8, 9] 1 2 1 = .ok threeParts := rfl

/-- The first part is lost and sent again after the second has been acknowledged. --/
def lossy : List Event :=
  [⟨0, .start⟩, ⟨0, .recv 0 []⟩, ⟨0, .dropRecv 0⟩, ⟨0, .recv 0 []⟩, ⟨0, .ack 0⟩, ⟨2, .tick⟩,
    ⟨0, .recv 0 []⟩, ⟨0, .ack 0⟩,
    ⟨0, .recv 0 []⟩, ⟨0, .ack 0⟩]

theorem exchange_safe_lossy : ∃ y, exec (step sampleSha256) (fresh threeParts) lossy = some y ∧
    y.sender.done = some (.ok ()) ∧ y.completed ≠ [] ∧ ∀ c ∈ y.completed, c.2 = [7, 8, 9] := by
  have hrun : exec (step sampleSha256) (fresh threeParts) lossy = some _ := rfl
  have hsafe := exchange_safe (initial_fresh threeParts_new) hrun
  exact ⟨_, hrun, rfl, hsafe.1 rfl, fun c hc => (hsafe.2.1 c hc).2 (.inl (by decide))⟩

/-- A resource of `2 ^ 32 + 1` parts. Its advertisement announces one part, and the last part has the index of
    the first: the first part never arrives, and the sender marks it. --/
theorem exchange_marks_lost_part : ∃ (s : ResourceSender) (y : Exchange) (st : RecvState),
    newResourceSender sampleSha256 default (List.replicate 4294967296 0 ++ [1]) 1 4294967297 1 = .ok s ∧
    exec (step sampleSha256) (fresh s) [⟨0, .start⟩, ⟨0, .recv 0 []⟩, ⟨0, .recv 4294967296 []⟩, ⟨0, .ack 0⟩] = some y ∧
    y.completed = [] ∧ y.sender.acked[0]? = some true ∧ y.sender.parts[0]? = some [0] ∧
    y.receiver.byID.get? default = some st ∧ st.parts[0]? = some [1] := by
  obtain ⟨n, hn⟩ : ∃ n : Nat, n = 4294967296 := ⟨_, rfl⟩
  obtain ⟨data, hdata⟩ : ∃ data : Bytes, data = List.replicate n 0 ++ [1] := ⟨_, rfl⟩
  rw [← hn, ← hdata]
  have hlen : data.length = n + 1 := by simp [hdata]
  obtain ⟨s, hs⟩ : ∃ s, newResourceSender sampleSha256 default data 1 4294967297 1 = .ok s := ⟨_, if_neg (by decide)⟩
  have hnew := newResourceSender_ok hs
  have hparts : s.parts = chunks 1 data := by
    rw [hnew.parts, resourceParts, if_neg (by omega)]
    rfl
  have hcount : s.parts.length = n + 1 := by rw [hparts, length_chunks, chunkCount_one, hlen]
  have hfirst : s.parts[0]? = some [0] := by
    rw [hparts, getElem?_chunks (by rw [chunkCount_one]; omega), hdata, hn]
    rfl
  have hlast : s.parts.getD n [] = [1] := by
    rw [getD_eq_getElem?_getD, hparts, getElem?_chunks (by rw [chunkCount_one]; omega), hdata]
    simp
  have hid : s.id = default := hnew.id
  have htotal : s.statedTotal = 1 := by rw [ResourceSender.statedTotal, hcount, hn]
  have hallow : ResourceReceiver.advAllowed 1 (maxPartLen s.parts % 4294967296) = true := by
    have hmax : maxPartLen s.parts ≤ 1 := maxPartLen_le.mpr fun p hp => length_le_of_mem_chunks (hparts ▸ hp)
    rcases Nat.le_one_iff_eq_zero_or_eq_one.mp hmax with h | h <;> rw [h] <;> decide
  have hsent : s.unsentInWindow = List.range' 0 (n + 1) := by
    have hwin : s.window = n + 1 := by rw [hnew.window, hn]; rfl
    rw [ResourceSender.unsentInWindow, ResourceSender.windowLimit_eq (by rw [hnew.base, hwin]; omega), hnew.base, hwin,
      hnew.sentHigh, hcount]
    simp
  -- The state of the receiver after the advertisement, and after the last part.
  let st0 := RecvState.new 1 s.whole
  let st := st0.after s n
  have hst : st = st0.store 0 [1] := by
    show RecvState.store _ _ _ = _
    rw [hlast, hn]
  have hhash : sampleSha256 data = sumOfLong := if_pos (by rw [hlen, hn])
  have hnot : ¬st.Completes sampleSha256 := by
    rw [hst]
    rintro ⟨-, -, hwhole⟩
    rw [RecvState.store_whole, show st0.whole = sampleSha256 data from hnew.whole, hhash] at hwhole
    exact absurd hwhole (show ¬sampleSha256 [1] = sumOfLong by decide)
  let x1 : Exchange := { (fresh s).fromSender (s.start 0) with started := true }
  have h1 : step sampleSha256 (fresh s) ⟨0, .start⟩ = some x1 := step_zero _ _
  let x2 : Exchange := { x1 with
    receiver := { newResourceReceiver with byID := (∅ : GoMap ResID RecvState).set s.id st0 }
    toRecv := s.unsentInWindow.map s.partFrame }
  have h2 : step sampleSha256 x1 ⟨0, .recv 0 []⟩ = some x2 := by
    have hfeed : newResourceReceiver.feed sampleSha256 s.advFrame 0 [] = _ := newResourceReceiver.feed_advFrame 0 []
    rw [htotal, newResourceReceiver.advertise_of_none hallow (get?_empty _)
      (show 0 < newResourceReceiver.limit by decide)] at hfeed
    rw [step_zero, perform_recv (show x1.toRecv[0]? = some s.advFrame from rfl)]
    show some (Exchange.fromReceiver _ (newResourceReceiver.feed sampleSha256 s.advFrame 0 [])) = _
    rw [hfeed]
    rfl
  let x3 : Exchange := { x2 with
    receiver := { newResourceReceiver with byID := ((∅ : GoMap ResID RecvState).set s.id st0).set s.id st }
    toRecv := (s.unsentInWindow.map s.partFrame).eraseIdx n
    toSend := [st.ackFrame s.id] }
  have h3 : step sampleSha256 x2 ⟨0, .recv n []⟩ = some x3 := by
    have hfeed : x2.receiver.feed sampleSha256 (s.partFrame n) 0 [] = _ := x2.receiver.feed_partFrame 0 [] n
    have hpart : x2.toRecv[n]? = some (s.partFrame n) := by
      show (s.unsentInWindow.map s.partFrame)[n]? = _
      rw [hsent, getElem?_map, getElem?_range' (by omega)]
      simp
    have hin : n % 4294967296 < st0.total := by rw [hn]; exact Nat.one_pos
    have hst0 : x2.receiver.byID.get? s.id = some st0 := get?_set_self _ _ _
    rw [x2.receiver.receivePart_of_some 0 [] hst0 hin] at hfeed
    rw [step_zero, perform_recv hpart]
    show some (Exchange.fromReceiver _ (x2.receiver.feed sampleSha256 (s.partFrame n) 0 [])) = _
    rw [hfeed]
    exact congrArg (fun out => some (Exchange.fromReceiver _ out)) (x2.receiver.acknowledge_of_not 0 [] hnot)
  have hbase : st.base = 1 := by rw [hst]; rfl
  have hack := ResourceSender.feed_ack (s.start 0).1 0 (UInt32.ofNat st.base)
    (Nat.lt_of_le_of_lt st.length_ackBitmapLocked_le (by decide))
  rw [hbase, if_neg] at hack
  have h4 : perform sampleSha256 x3 (.ack 0) = _ := perform_ack (show x3.toSend[0]? = some (st.ackFrame s.id) from rfl)
  · have hmarked : ((s.start 0).1.mark 1 st.ackBitmapLocked).acked[0]? = some true :=
      ResourceSender.acked_below Nat.one_pos (by rw [show (s.start 0).1.parts = s.parts from rfl, hcount]; omega)
    refine ⟨s, _, st, hs, exec_cons.mpr ⟨x1, h1, exec_cons.mpr ⟨x2, h2, exec_cons.mpr ⟨x3, h3, exec_single.mpr
      ((step_zero _ _).trans h4)⟩⟩⟩, rfl, ?_, ?_, ?_, ?_⟩
    · show ((s.start 0).1.feed (encodeAck s.id (UInt32.ofNat st.base) st.ackBitmapLocked) 0).1.acked[0]? = some true
      rw [hbase]
      exact (congrArg (fun out => out.1.acked[0]?) hack).trans hmarked
    · have hcont := (s.start 0).1.feed_continues (st.ackFrame s.id) 0
      exact (congrArg (·[0]?) hcont.parts).trans hfirst
    · show (GoMap.set _ s.id st).get? default = some st
      rw [hid, get?_set_self]
    · rw [hst]
      rfl
  · show ¬s.parts.length ≤ max s.base 1
    rw [hcount, hnew.base]
    omega
end Exchange
end SyncSwarm.Link
