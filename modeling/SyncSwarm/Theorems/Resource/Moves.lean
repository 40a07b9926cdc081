import SyncSwarm.Theorems.Resource.Copy
import SyncSwarm.Theorems.Resource.Frames

/-! What one move of the sender or of the receiver of a resource can do. -/

namespace SyncSwarm.Link
open Lib List

/-! ### New senders -/

theorem flatten_resourceParts {data : Bytes} {partSize : Nat} (h : 0 < partSize) :
    (resourceParts data partSize).flatten = data := by
  unfold resourceParts
  split
  · next h0 => rw [length_eq_zero_iff.mp h0]; rfl
  · exact flatten_chunks h data

theorem resourceParts_pos {data : Bytes} {partSize : Nat} (h : 0 < partSize) :
    0 < (resourceParts data partSize).length := by
  unfold resourceParts
  split
  · exact Nat.one_pos
  · rw [length_chunks]
    exact chunkCount_pos h (by omega)

theorem maxPartLen_le {parts : List Bytes} {m : Nat} : maxPartLen parts ≤ m ↔ ∀ p ∈ parts, p.length ≤ m := by
  have key : ∀ (l : List Bytes) (a : Nat), l.foldl (fun a p => max a p.length) a ≤ m ↔ a ≤ m ∧
      ∀ p ∈ l, p.length ≤ m := by
    intro l
    induction l with
    | nil => simp
    | cons p l ih =>
      intro a
      rw [foldl_cons, ih, Nat.max_le, forall_mem_cons, and_assoc]
  rw [maxPartLen, key]
  exact and_iff_right (Nat.zero_le m)

structure ResourceSender.New (sha256 : Bytes → Hash) (id : ResID) (data : Bytes) (partSize window rto : Int)
    (s : ResourceSender) : Prop where
  size_pos : 0 < partSize
  id : s.id = id
  parts : s.parts = resourceParts data partSize.toNat
  whole : s.whole = sha256 data
  window : s.window = if window ≤ 0 then defaultResWindow else window.toNat
  base : s.base = 0
  acked : s.acked = List.replicate s.parts.length false
  sentHigh : s.sentHigh = 0
  finished : s.finished = false
  done : s.done = none

theorem newResourceSender_ok {sha256 : Bytes → Hash} {id : ResID} {data : Bytes} {partSize window rto : Int}
    {s : ResourceSender} (h : newResourceSender sha256 id data partSize window rto = .ok s) :
    s.New sha256 id data partSize window rto := by
  unfold newResourceSender at h
  split at h
  · cases h
  · cases h
    exact ⟨by omega, rfl, rfl, rfl, rfl, rfl, rfl, rfl, rfl, rfl⟩

def sumOfSeven : Hash :=
  ⟨[0xca, 0x35, 0x87, 0x58, 0xf6, 0xd2, 0x7e, 0x6c, 0xf4, 0x52, 0x72, 0x93, 0x79, 0x77, 0xa7, 0x48,
  0xfd, 0x88, 0x39, 0x1d, 0xb6, 0x79, 0xce, 0xda, 0x7d, 0xc7, 0xbf, 0x1f, 0x00, 0x5e, 0xe8, 0x79], rfl⟩

def sumOfOne : Hash := ⟨[0x4b, 0xf5, 0x12, 0x2f, 0x34, 0x45, 0x54, 0xc5, 0x3b, 0xde, 0x2e, 0xbb, 0x8c, 0xd2, 0xb7, 0xe3,
  0xd1, 0x60, 0x0a, 0xd6, 0x31, 0xc3, 0x85, 0xa5, 0xd7, 0xcc, 0xe2, 0x3c, 0x77, 0x85, 0x45, 0x9a], rfl⟩

/-- The SHA-256 sum of `2 ^ 32` zero bytes and the byte 1. --/
def sumOfLong : Hash :=
  ⟨[0xd6, 0xcb, 0xa2, 0xfb, 0x80, 0xa8, 0x15, 0x34, 0x0c, 0xd8, 0x2d, 0x98, 0x75, 0x47, 0x30, 0xa8,
  0xe8, 0x6a, 0xf2, 0xd1, 0x4a, 0x13, 0x6d, 0x3b, 0x20, 0xbb, 0xc1, 0xe1, 0x3e, 0xce, 0x5c, 0x11], rfl⟩

def sumOfThree : Hash :=
  ⟨[0x66, 0xa6, 0x75, 0x71, 0x51, 0xf8, 0xee, 0x55, 0xdb, 0x12, 0x77, 0x16, 0xc7, 0xe3, 0xdc, 0xe0,
  0xbe, 0x80, 0x74, 0xb6, 0x4e, 0x20, 0xed, 0xa5, 0x42, 0xe5, 0xc1, 0xe4, 0x6c, 0xa9, 0xc4, 0x1e], rfl⟩

/-- The SHA-256 sums of the samples. --/
def sampleSha256 (b : Bytes) : Hash :=
  if b.length = 4294967297 then sumOfLong else if b = [1] then sumOfOne else if b = [7] then sumOfSeven
  else if b = [7, 8, 9] then sumOfThree else default

def oneByte : ResourceSender where
  id := default
  parts := [[7]]
  whole := sampleSha256 [7]
  window := 1
  rto := 1
  base := 0
  acked := [false]
  sentAt := [0]
  sentHigh := 0
  finished := false
  done := none
  window_pos := Nat.one_pos
  acked_len := rfl
  sentAt_len := rfl
  sentHigh_le := Nat.zero_le _

theorem oneByte_new : newResourceSender sampleSha256 oneByte.id [7] 1 1 1 = .ok oneByte := rfl

/-! ### Sender -/

namespace ResourceSender
variable {s s' u : ResourceSender} {now : Int}

def SendsPart (s : ResourceSender) (frame : Bytes) : Prop := ∃ i < s.parts.length, frame = s.partFrame i

/-- The frames that the sender can send. --/
def Sends (s : ResourceSender) (frame : Bytes) : Prop := frame = s.advFrame ∨ s.SendsPart frame

theorem partFrame_ne_advFrame (i : Nat) : s.partFrame i ≠ s.advFrame := by
  intro h
  have hhead := congrArg List.head? h
  exact absurd (Option.some.inj hhead) (by decide)

structure Continues (s s' : ResourceSender) : Prop where
  id : s'.id = s.id
  parts : s'.parts = s.parts
  whole : s'.whole = s.whole
  window : s'.window = s.window
  base : s.base ≤ s'.base

namespace Continues

theorem refl (s : ResourceSender) : Continues s s := ⟨rfl, rfl, rfl, rfl, Nat.le_refl _⟩

theorem trans (h : Continues s s') (h' : Continues s' u) : Continues s u :=
  ⟨h'.id.trans h.id, h'.parts.trans h.parts, h'.whole.trans h.whole, h'.window.trans h.window, h.base.trans h'.base⟩

theorem partFrame (h : Continues s s') (i : Nat) : s'.partFrame i = s.partFrame i := by
  simp only [ResourceSender.partFrame, h.id, h.parts]

theorem advFrame (h : Continues s s') : s'.advFrame = s.advFrame := by
  simp only [ResourceSender.advFrame, h.id, h.parts, h.whole]

theorem sendsPart (h : Continues s s') {frame : Bytes} : s'.SendsPart frame ↔ s.SendsPart frame := by
  simp only [SendsPart, h.partFrame, h.parts]

theorem sends (h : Continues s s') {frame : Bytes} : s'.Sends frame ↔ s.Sends frame := by
  simp only [Sends, h.advFrame, h.sendsPart]

theorem statedTotal (h : Continues s s') : s'.statedTotal = s.statedTotal := by
  simp only [ResourceSender.statedTotal, h.parts]

theorem copies (h : Continues s s') {st : RecvState} (hc : Copies s st) : Copies s' st where
  total := hc.total.trans h.statedTotal.symm
  whole := hc.whole.trans h.whole.symm
  incomplete := hc.incomplete
  count := hc.count
  below := hc.below
  gap := hc.gap
  base_le := hc.base_le
  held i hi := by rw [h.parts]; exact hc.held i hi

end Continues

theorem windowLimit_le (s : ResourceSender) (top : Nat) : s.windowLimit top ≤ top := by
  unfold windowLimit
  exact Nat.min_le_right _ _

theorem windowLimit_eq {top : Nat} (h : s.base + s.window < 9223372036854775808) :
    s.windowLimit top = min (s.base + s.window) top := by
  rw [windowLimit, wrapInt, if_pos h]
  rfl

theorem fillWindowLocked_continues (s : ResourceSender) (now : Int) : Continues s (s.fillWindowLocked now).1 :=
  ⟨rfl, rfl, rfl, rfl, Nat.le_refl _⟩

theorem sendsPart_of_mem_fillWindowLocked (now : Int) {frame : Bytes} (h : frame ∈ (s.fillWindowLocked now).2) :
    s.SendsPart frame := by
  obtain ⟨i, hi, rfl⟩ := mem_map.mp h
  have hlim := s.windowLimit_le s.parts.length
  have := mem_range'_1.mp hi
  exact ⟨i, by omega, rfl⟩

theorem lt_of_mem_overdue {i : Nat} (h : i ∈ s.overdue now) : i < s.parts.length := by
  have hlim := s.windowLimit_le s.sentHigh
  have := mem_range'_1.mp (mem_filter.mp h).1
  have := s.sentHigh_le
  omega

theorem sendsPart_of_mem_tick {frame : Bytes} (h : frame ∈ (s.tick now).2) : s.SendsPart frame := by
  rcases mem_append.mp h with h | h
  · obtain ⟨i, hi, rfl⟩ := mem_map.mp h
    exact ⟨i, lt_of_mem_overdue hi, rfl⟩
  · have hdue : Continues s (s.dueRetransmitsLocked now).1 := ⟨rfl, rfl, rfl, rfl, Nat.le_refl _⟩
    exact hdue.sendsPart.mp (sendsPart_of_mem_fillWindowLocked now h)

theorem sends_of_mem_start {frame : Bytes} (h : frame ∈ (s.start now).2) : s.Sends frame := by
  rcases mem_cons.mp h with rfl | h
  · exact .inl rfl
  · exact .inr (sendsPart_of_mem_fillWindowLocked now h)

theorem finish_continues (s : ResourceSender) (err : Except String Unit) : Continues s (s.finish err) := by
  unfold finish
  split <;> exact ⟨rfl, rfl, rfl, rfl, Nat.le_refl _⟩

@[simp] theorem finish_acked (s : ResourceSender) (err : Except String Unit) : (s.finish err).acked = s.acked := by
  unfold finish
  split <;> rfl

@[simp] theorem finish_base (s : ResourceSender) (err : Except String Unit) : (s.finish err).base = s.base := by
  unfold finish
  split <;> rfl

theorem finish_done (s : ResourceSender) (err : Except String Unit) :
    (s.finish err).done = s.done ∨ (s.finish err).done = some err := by
  unfold finish
  split
  · exact .inl rfl
  · exact .inr rfl

theorem mark_continues (s : ResourceSender) (base : Nat) (bitmap : Bytes) : Continues s (s.mark base bitmap) :=
  ⟨rfl, rfl, rfl, rfl, Nat.le_max_left _ _⟩

theorem onAck_continues (s : ResourceSender) (frame : Bytes) (now : Int) : Continues s (s.onAck frame now).1 := by
  unfold onAck
  split
  · exact .refl s
  · dsimp only
    split
    · exact .refl s
    · split
      · exact (s.mark_continues _ _).trans (finish_continues _ _)
      · exact (s.mark_continues _ _).trans (fillWindowLocked_continues _ _)

theorem feed_continues (s : ResourceSender) (frame : Bytes) (now : Int) : Continues s (s.feed frame now).1 := by
  unfold feed
  split
  · exact .refl s
  · split
    · exact s.onAck_continues frame now
    · split
      · exact s.finish_continues _
      · exact .refl s

theorem sendsPart_of_mem_feed {frame sent : Bytes} (h : sent ∈ (s.feed frame now).2) : s.SendsPart sent := by
  unfold feed at h
  split at h
  · cases h
  · split at h
    · unfold onAck at h
      split at h
      · cases h
      · dsimp only at h
        split at h
        · cases h
        · split at h
          · cases h
          · exact (s.mark_continues _ _).sendsPart.mp (sendsPart_of_mem_fillWindowLocked now h)
    · split at h <;> cases h

theorem acked_mark {base : Nat} {bitmap : Bytes} {i : Nat} (h : (s.mark base bitmap).acked[i]? = some true) :
    s.acked[i]? = some true ∨ i < base ∨ ∃ k, i = base + k ∧ bitSet bitmap k = true := by
  have hset : (s.mark base bitmap).acked[i]? = _ := getElem?_setAll s.acked (s.marked base bitmap) true i
  rw [hset] at h
  by_cases hmem : i ∈ s.marked base bitmap
  · rcases mem_append.mp hmem with hlow | hbit
    · exact .inr (.inl (Nat.lt_of_lt_of_le (mem_range.mp hlow) (Nat.min_le_left _ _)))
    · obtain ⟨k, hk, rfl⟩ := mem_map.mp (mem_filter.mp hbit).1
      exact .inr (.inr ⟨k, rfl, (mem_filter.mp hk).2⟩)
  · rw [if_neg hmem] at h
    exact .inl h

theorem acked_below {base i : Nat} {bitmap : Bytes} (hi : i < base) (hlt : i < s.parts.length) :
    (s.mark base bitmap).acked[i]? = some true := by
  rw [← s.acked_len] at hlt
  have hset : (s.mark base bitmap).acked[i]? = _ := getElem?_setAll s.acked (s.marked base bitmap) true i
  have hmem : i ∈ s.marked base bitmap := mem_append_left _ (mem_range.mpr (Nat.lt_min.mpr ⟨hi, hlt⟩))
  rw [hset, if_pos hmem, getElem?_eq_getElem hlt]
  rfl

end ResourceSender

/-! ### Receiver -/

def RecvState.Completes (sha256 : Bytes → Hash) (st : RecvState) : Prop :=
  st.count = st.total ∧ st.complete = false ∧ sha256 st.assembleLocked = st.whole

/-- No other content has the sum of the data, if the parts are more than an index can say. --/
def Identifies (sha256 : Bytes → Hash) (data : Bytes) (s : ResourceSender) : Prop :=
  s.parts.length < 4294967296 ∨ ∀ other, sha256 other = sha256 data → other = data

theorem assembled_eq {sha256 : Bytes → Hash} {data : Bytes} {s : ResourceSender} {st : RecvState}
    (hid : Identifies sha256 data s) (hcontent : s.parts.flatten = data) (hwhole : s.whole = sha256 data)
    (hcopy : Copies s st) (hc : st.Completes sha256) : st.assembleLocked = data := by
  rcases hid with hn | hinj
  · rw [hcopy.assemble hn hc.1, hcontent]
  · exact hinj _ (by rw [hc.2.2, hcopy.whole, hwhole])

def RecvState.ackFrame (st : RecvState) (id : ResID) : Bytes :=
  encodeAck id (UInt32.ofNat st.base) st.ackBitmapLocked

def RecvState.after (st : RecvState) (s : ResourceSender) (j : Nat) : RecvState :=
  st.store (j % 4294967296) (s.parts.getD j [])

/-- The receiver takes the advertisement for a sane one. --/
def ResourceSender.Allowed (s : ResourceSender) : Prop :=
  ResourceReceiver.advAllowed s.statedTotal (maxPartLen s.parts % 4294967296) = true

theorem ResourceReceiver.advAllowed_iff {total partSize : Nat} : advAllowed total partSize = true ↔
    (0 < total ∧ total ≤ maxResourceParts) ∧ partSize ≤ maxResourcePartSize ∧
      (0 < partSize → total ≤ maxResourceBytes / partSize) := by
  simp [advAllowed, Nat.pos_iff_ne_zero, and_assoc, imp_iff_not_or]

theorem ResourceSender.Allowed.pos {s : ResourceSender} (h : s.Allowed) : 0 < s.statedTotal :=
  (ResourceReceiver.advAllowed_iff.mp h).1.1

/-- What a frame can do. --/
inductive Feeds (sha256 : Bytes → Hash) (s : ResourceSender) (r : ResourceReceiver) (frame : Bytes) (now : Int)
    (order : List ResID) : Fed → Prop
  | ignored : Feeds sha256 s r frame now order ⟨r, [], []⟩
  | opened : frame = s.advFrame → r.byID.get? s.id = none → s.Allowed → Feeds sha256 s r frame now order
      ⟨{ r with byID := r.byID.set s.id (RecvState.new s.statedTotal s.whole) }, [], []⟩
  | answered : r.byID.get? s.id = none → (r.finished.get? s.id).isSome → Feeds sha256 s r frame now order
      ⟨r, [encodeDone s.id], []⟩
  | stored (st : RecvState) (j : Nat) : r.byID.get? s.id = some st → j < s.parts.length → j % 4294967296 < st.total →
      ¬(st.after s j).Completes sha256 → Feeds sha256 s r frame now order
      ⟨{ r with byID := r.byID.set s.id (st.after s j) }, [(st.after s j).ackFrame s.id], []⟩
  | completed (st : RecvState) (j : Nat) : r.byID.get? s.id = some st → j < s.parts.length →
      j % 4294967296 < st.total → (st.after s j).Completes sha256 → Feeds sha256 s r frame now order
      ⟨{ r with byID := r.byID.delete s.id }.rememberFinishedLocked s.id now order,
        [(st.after s j).ackFrame s.id, encodeDone s.id], [(s.id, (st.after s j).assembleLocked)]⟩

namespace ResourceReceiver
variable {sha256 : Bytes → Hash} {s : ResourceSender} (r : ResourceReceiver) (now : Int) (order : List ResID)

variable {id : ResID} {st : RecvState} {idx : Nat} {data : Bytes}

theorem acknowledge_of_completes (h : st.Completes sha256) :
    r.acknowledge sha256 id st now order =
      ⟨{ r with byID := r.byID.delete id }.rememberFinishedLocked id now order, [st.ackFrame id, encodeDone id],
        [(id, st.assembleLocked)]⟩ :=
  if_pos ⟨h.1, by simp [h.2.1], h.2.2⟩

theorem acknowledge_of_not (h : ¬st.Completes sha256) :
    r.acknowledge sha256 id st now order = ⟨{ r with byID := r.byID.set id st }, [st.ackFrame id], []⟩ :=
  if_neg fun h' => h ⟨h'.1, by simpa using h'.2.1, h'.2.2⟩

theorem toNat_index (j : Nat) : (UInt32.ofNat j).toNat = j % 4294967296 := UInt32.toNat_ofNat'

theorem advertise_of_some {total partSize : Nat} {whole : Hash}
    (h : r.byID.get? id = some st) : r.advertise id total partSize whole = r := by
  unfold advertise
  split
  · rfl
  · rw [h]

theorem advertise_of_none {total partSize : Nat} {whole : Hash} (hallow : advAllowed total partSize = true)
    (h : r.byID.get? id = none) (hroom : r.byID.others id < r.limit) :
    r.advertise id total partSize whole = { r with byID := r.byID.set id (RecvState.new total whole) } := by
  have hlim : ¬r.limit ≤ r.byID.len := by
    rw [GoMap.len_eq_others h]
    exact Nat.not_le.mpr hroom
  unfold advertise
  rw [hallow, if_neg (by decide), h]
  exact if_neg hlim

theorem receivePart_of_none (h : r.byID.get? id = none) :
    r.receivePart sha256 id idx data now order =
      if (r.finished.get? id).isSome then ⟨r, [encodeDone id], []⟩ else ⟨r, [], []⟩ := by
  rw [receivePart, h]

theorem receivePart_of_some (h : r.byID.get? id = some st)
    (hlt : idx < st.total) :
    r.receivePart sha256 id idx data now order = r.acknowledge sha256 id (st.store idx data) now order := by
  rw [receivePart, h]
  exact if_neg (Nat.not_le.mpr hlt)

theorem receivePart_of_le (h : r.byID.get? id = some st)
    (hle : st.total ≤ idx) : r.receivePart sha256 id idx data now order = ⟨r, [], []⟩ := by
  rw [receivePart, h]
  exact if_pos hle

theorem feed_partFrame (j : Nat) :
    r.feed sha256 (s.partFrame j) now order =
      r.receivePart sha256 s.id (j % 4294967296) (s.parts.getD j []) now order := by
  rw [ResourceSender.partFrame, feed_part, toNat_index]

theorem feed_advFrame :
    r.feed sha256 s.advFrame now order =
      ⟨r.advertise s.id s.statedTotal (maxPartLen s.parts % 4294967296) s.whole, [], []⟩ := by
  rw [ResourceSender.advFrame, feed_adv, toNat_index, toNat_index, ResourceSender.statedTotal]

theorem feeds {frame : Bytes} (h : s.Sends frame) :
    Feeds sha256 s r frame now order (r.feed sha256 frame now order) := by
  rcases h with rfl | ⟨j, hj, rfl⟩
  · rw [feed_advFrame]
    cases hst : r.byID.get? s.id with
    | some st => rw [advertise_of_some r hst]; exact .ignored
    | none =>
      unfold advertise
      rw [hst]
      split
      · exact .ignored
      next hallow =>
        dsimp only
        split
        · exact .ignored
        · exact .opened rfl hst (by simpa [ResourceSender.Allowed] using hallow)
  · rw [feed_partFrame]
    cases hst : r.byID.get? s.id with
    | none =>
      rw [receivePart_of_none r now order hst]
      split
      · next hfin => exact .answered hst hfin
      · exact .ignored
    | some st =>
      by_cases hlt : j % 4294967296 < st.total
      · rw [receivePart_of_some r now order hst hlt]
        by_cases hc : (st.after s j).Completes sha256
        · exact (acknowledge_of_completes r now order hc).symm ▸ .completed st j hst hj hlt hc
        · exact (acknowledge_of_not r now order hc).symm ▸ .stored st j hst hj hlt hc
      · rw [receivePart_of_le r now order hst (Nat.not_lt.mp hlt)]
        exact .ignored

@[simp] theorem rememberFinishedLocked_byID (id : ResID) :
    (r.rememberFinishedLocked id now order).byID = r.byID := rfl

@[simp] theorem rememberFinishedLocked_limit (id : ResID) :
    (r.rememberFinishedLocked id now order).limit = r.limit := rfl

@[simp] theorem rememberFinishedLocked_finished (id : ResID) :
    (r.rememberFinishedLocked id now order).finished.get? id = some now := GoMap.get?_set_self _ _ _

end ResourceReceiver
end SyncSwarm.Link
