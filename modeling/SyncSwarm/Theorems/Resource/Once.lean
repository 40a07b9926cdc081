import SyncSwarm.Lib.Rounds
import SyncSwarm.Link.ResourceSystem
import SyncSwarm.Theorems.Resource.Moves

/-! How often a receiver hands over one resource: a completion takes an advertisement and, after it, every part. -/

namespace SyncSwarm.Link
open Lib List GoMap

namespace ResourceSender

/-- The advertisement comes, and after it every part. --/
def Covers (s : ResourceSender) (frames : List Bytes) : Prop :=
  ∃ pre post, frames = pre ++ s.advFrame :: post ∧ ∀ i < s.parts.length, s.partFrame i ∈ post

variable {s : ResourceSender}

theorem Covers.mono (pre frames post : List Bytes) (h : s.Covers frames) : s.Covers (pre ++ frames ++ post) := by
  obtain ⟨as, bs, rfl, hall⟩ := h
  exact ⟨pre ++ as, bs ++ post, by simp, fun i hi => mem_append_left _ (hall i hi)⟩

theorem not_covers_nil : ¬s.Covers [] := by
  rintro ⟨pre, post, h, -⟩
  simp at h

def afterAdv (s : ResourceSender) : List Bytes → Option (List Bytes)
  | [] => none
  | frame :: frames => if frame = s.advFrame then some frames else s.afterAdv frames

theorem afterAdv_append (frames : List Bytes) (frame : Bytes) :
    s.afterAdv (frames ++ [frame]) =
      match s.afterAdv frames with
      | none => if frame = s.advFrame then some [] else none
      | some post => some (post ++ [frame]) := by
  induction frames with
  | nil => rfl
  | cons b frames ih =>
    rw [cons_append, afterAdv, afterAdv, ih]
    split <;> rfl

theorem covers_iff {frames : List Bytes} :
    s.Covers frames ↔ ∃ post, s.afterAdv frames = some post ∧ ∀ i < s.parts.length, s.partFrame i ∈ post := by
  induction frames with
  | nil => exact ⟨fun h => absurd h not_covers_nil, fun ⟨_, h, _⟩ => nomatch h⟩
  | cons b frames ih =>
    rw [afterAdv]
    constructor
    · rintro ⟨pre, post, heq, hall⟩
      split
      · -- An advertisement at the head has everything that follows a later one behind it too.
        refine ⟨frames, rfl, fun i hi => ?_⟩
        cases pre with
        | nil => exact (List.cons.inj heq).2 ▸ hall i hi
        | cons c pre =>
          rw [(List.cons.inj heq).2]
          exact mem_append_right _ (mem_cons_of_mem _ (hall i hi))
      next hb =>
        cases pre with
        | nil => exact absurd (List.cons.inj heq).1 hb
        | cons c pre => exact ih.mp ⟨pre, post, (List.cons.inj heq).2, hall⟩
    · split
      next hb =>
        rintro ⟨post, hpost, hall⟩
        exact ⟨[], post, by rw [hb, Option.some.inj hpost]; rfl, hall⟩
      · intro h
        simpa using (ih.mpr h).mono [b] frames []

theorem partFrame_inj {i j : Nat} (hi : i < 4294967296) (hj : j < 4294967296) (h : s.partFrame i = s.partFrame j) :
    i = j := by
  have := congrArg (fun b => frameU32 b 0) h
  simp only [partFrame, encodePart, frameU32_cons, UInt32.toNat_ofNat_of_lt' hi, UInt32.toNat_ofNat_of_lt' hj] at this
  exact this

end ResourceSender

namespace ResourceReceiver
variable {sha256 : Bytes → Hash} {s : ResourceSender} {r : ResourceReceiver} {cur : List Bytes}

structure Tracks (s : ResourceSender) (r : ResourceReceiver) (cur : List Bytes) : Prop where
  room : r.byID.others s.id < r.limit
  absent : s.afterAdv cur = none → r.byID.get? s.id = none
  held : ∀ post, s.afterAdv cur = some post →
    ∃ st, r.byID.get? s.id = some st ∧ Copies s st ∧ ∀ i < s.parts.length, (st.Got i ↔ s.partFrame i ∈ post)

def Outcome (s : ResourceSender) (out : Fed) (cur : List Bytes) : Prop :=
  (s.Covers cur ∧ out.completed.length = 1 ∧ Tracks s out.receiver []) ∨
  (¬s.Covers cur ∧ out.completed = [] ∧ Tracks s out.receiver cur)

theorem Tracks.nil (hroom : r.byID.others s.id < r.limit) (h : r.byID.get? s.id = none) : Tracks s r [] where
  room := hroom
  absent _ := h
  held _ heq := nomatch heq

theorem completes_iff {st : RecvState} (hn : s.parts.length < 4294967296) (hwhole : s.whole = sha256 s.parts.flatten)
    (hcopy : Copies s st) : st.Completes sha256 ↔ ∀ i < s.parts.length, st.Got i := by
  have htotal : st.total = s.parts.length := by rw [hcopy.total, ResourceSender.statedTotal, Nat.mod_eq_of_lt hn]
  constructor
  · exact fun hc i hi => hcopy.got_of_count hc.1 (htotal ▸ hi)
  · intro hall
    have hcount := hcopy.count_of_got fun i hi => hall i (htotal ▸ hi)
    exact ⟨hcount, hcopy.incomplete, by rw [hcopy.assemble hn hcount, hcopy.whole, hwhole]⟩

section
variable (hn : s.parts.length < 4294967296) (hwhole : s.whole = sha256 s.parts.flatten) (now : Int) (order : List ResID)

theorem Tracks.feed_adv (h : Tracks s r cur) (hpos : 0 < s.parts.length) (hallow : s.Allowed) (hnc : ¬s.Covers cur) :
    Outcome s (r.feed sha256 s.advFrame now order) (cur ++ [s.advFrame]) := by
  have hafter := ResourceSender.afterAdv_append (s := s) cur s.advFrame
  rw [feed_advFrame]
  refine .inr ⟨?_, rfl, ?_⟩
  · rw [ResourceSender.covers_iff] at hnc ⊢
    rintro ⟨post, hpost, hall⟩
    cases hcur : s.afterAdv cur with
    | none =>
      rw [hafter, hcur] at hpost
      obtain rfl : [] = post := by simpa using hpost
      exact absurd (hall 0 hpos) not_mem_nil
    | some post' =>
      rw [hafter, hcur] at hpost
      refine hnc ⟨post', hcur, fun i hi => ?_⟩
      have hmem := hall i hi
      rw [← Option.some.inj hpost] at hmem
      rcases mem_append.mp hmem with hmem | hmem
      · exact hmem
      · exact absurd (mem_singleton.mp hmem) (ResourceSender.partFrame_ne_advFrame i)
  · cases hcur : s.afterAdv cur with
    | none =>
      have hnone := h.absent hcur
      rw [hcur] at hafter
      rw [advertise_of_none r hallow hnone h.room]
      refine ⟨?_, ?_, ?_⟩
      · rw [others_set]
        exact h.room
      · intro hno
        simp [hafter] at hno
      · intro post hpost
        obtain rfl : [] = post := by simpa [hafter] using hpost
        refine ⟨_, get?_set_self _ _ _, .new s, fun i _ => ?_⟩
        simp [RecvState.new, RecvState.Got, getElem?_replicate]
    | some post' =>
      obtain ⟨st, hst, hcopy, hgot⟩ := h.held post' hcur
      rw [hcur] at hafter
      rw [advertise_of_some r hst]
      refine ⟨h.room, fun hno => by simp [hafter] at hno, ?_⟩
      intro post hpost
      obtain rfl : post' ++ [s.advFrame] = post := by simpa [hafter] using hpost
      refine ⟨st, hst, hcopy, fun i hi => (hgot i hi).trans ?_⟩
      simp [ResourceSender.partFrame_ne_advFrame]

include hn hwhole in
theorem Tracks.feed_part (h : Tracks s r cur) {j : Nat} (hj : j < s.parts.length) :
    Outcome s (r.feed sha256 (s.partFrame j) now order) (cur ++ [s.partFrame j]) := by
  have hne := ResourceSender.partFrame_ne_advFrame (s := s) j
  have hafter := ResourceSender.afterAdv_append (s := s) cur (s.partFrame j)
  rw [feed_partFrame]
  cases hcur : s.afterAdv cur with
  | none =>
    rw [hcur] at hafter
    have hnone := h.absent hcur
    have htracks : Tracks s r (cur ++ [s.partFrame j]) :=
      ⟨h.room, fun _ => hnone, fun post hpost => by simp [hafter, hne] at hpost⟩
    have hnc : ¬s.Covers (cur ++ [s.partFrame j]) := by
      rw [ResourceSender.covers_iff]
      rintro ⟨post, hpost, -⟩
      simp [hafter, hne] at hpost
    rw [receivePart_of_none r now order hnone]
    split <;> exact .inr ⟨hnc, rfl, htracks⟩
  | some post' =>
    obtain ⟨st, hst, hcopy, hgot⟩ := h.held post' hcur
    rw [hcur] at hafter
    have hmod : j % 4294967296 = j := Nat.mod_eq_of_lt (hj.trans hn)
    have htotal : st.total = s.parts.length := by rw [hcopy.total, ResourceSender.statedTotal, Nat.mod_eq_of_lt hn]
    have hlt : j % 4294967296 < st.total := by rw [hmod, htotal]; exact hj
    have hcopy' : Copies s (st.after s j) := hcopy.store hj hlt
    have hgot' : ∀ i < s.parts.length, ((st.after s j).Got i ↔ s.partFrame i ∈ post' ++ [s.partFrame j]) := by
      intro i hi
      rw [RecvState.after, RecvState.store_got hlt, hgot i hi, hmod, mem_append, mem_singleton]
      exact or_congr_right ⟨fun he => he ▸ rfl, ResourceSender.partFrame_inj (hi.trans hn) (hj.trans hn)⟩
    have hcov : s.Covers (cur ++ [s.partFrame j]) ↔ (st.after s j).Completes sha256 := by
      rw [completes_iff hn hwhole hcopy', ResourceSender.covers_iff]
      refine ⟨?_, fun hall => ⟨_, hafter, fun i hi => (hgot' i hi).mp (hall i hi)⟩⟩
      rintro ⟨post, hpost, hall⟩ i hi
      rw [hafter, Option.some.injEq] at hpost
      exact (hgot' i hi).mpr (hpost ▸ hall i hi)
    rw [receivePart_of_some r now order hst hlt]
    by_cases hc : (st.after s j).Completes sha256
    · rw [show st.store _ _ = st.after s j from rfl, acknowledge_of_completes _ _ _ hc]
      refine .inl ⟨hcov.mpr hc, rfl, .nil ?_ (get?_delete_self _ _)⟩
      rw [rememberFinishedLocked_byID, rememberFinishedLocked_limit, others_delete]
      exact h.room
    · rw [show st.store _ _ = st.after s j from rfl, acknowledge_of_not _ _ _ hc]
      refine .inr ⟨fun hcov' => hc (hcov.mp hcov'), rfl, ?_, ?_, ?_⟩
      · rw [others_set]
        exact h.room
      · intro hno
        simp [hafter] at hno
      · intro post hpost
        obtain rfl : post' ++ [s.partFrame j] = post := by simpa [hafter] using hpost
        exact ⟨_, get?_set_self _ _ _, hcopy', hgot'⟩

include hn hwhole in
theorem Tracks.feed (h : Tracks s r cur) (hpos : 0 < s.parts.length) (hallow : s.Allowed) (hnc : ¬s.Covers cur)
    {frame : Bytes} (hs : s.Sends frame) : Outcome s (r.feed sha256 frame now order) (cur ++ [frame]) := by
  rcases hs with rfl | ⟨j, hj, rfl⟩
  · exact h.feed_adv now order hpos hallow hnc
  · exact h.feed_part hn hwhole now order hj

end

/-! ### Sequences of frames -/

section
variable {as : List Arrival}

open scoped Classical in
theorem length_completed (hn : s.parts.length < 4294967296) (hwhole : s.whole = sha256 s.parts.flatten)
    (hpos : 0 < s.parts.length) (hallow : s.Allowed) (h : Tracks s r cur) (hnc : ¬s.Covers cur)
    (has : ∀ a ∈ as, s.Sends a.frame) :
    (r.feedAll sha256 as).2.length = rounds s.Covers cur (as.map (·.frame)) := by
  induction as generalizing r cur with
  | nil => rfl
  | cons a as ih =>
    have has' : ∀ b ∈ as, s.Sends b.frame := fun b hb => has b (mem_cons_of_mem a hb)
    rw [map_cons, rounds, feedAll, length_append]
    rcases h.feed hn hwhole a.now a.order hpos hallow hnc (has a mem_cons_self) with
      ⟨hcov, hone, htracks⟩ | ⟨hcov, hzero, htracks⟩
    · rw [if_pos hcov, hone, ih htracks ResourceSender.not_covers_nil has', Nat.add_comm]
    · rw [if_neg hcov, hzero, ih htracks hcov has']
      exact Nat.zero_add _

/-- A copy of fewer parts than the resource has is shorter than the data, so it is not taken for it. --/
theorem not_completes_of_wrapped {id : ResID} {data : Bytes} {partSize window rto : Int} {st : RecvState}
    (hnew : s.New sha256 id data partSize window rto) (hid : Identifies sha256 data s)
    (hn : 4294967296 ≤ s.parts.length) (hcopy : Copies s st) : ¬st.Completes sha256 := by
  intro hc
  have hsize : 0 < partSize.toNat := by
    have := hnew.size_pos
    omega
  have hflat : s.parts.flatten = data := by rw [hnew.parts, flatten_resourceParts hsize]
  have hparts : s.parts = chunks partSize.toNat data := by
    rw [hnew.parts, resourceParts, if_neg]
    intro h0
    rw [hnew.parts, resourceParts, if_pos h0] at hn
    exact absurd hn (by decide)
  have hdata := assembled_eq hid hflat hnew.whole hcopy hc
  have hlong : (s.parts.length - 1) * partSize.toNat < data.length := by
    refine (lt_chunkCount_iff hsize).mp ?_
    rw [← length_chunks, ← hparts]
    omega
  have hshort : st.assembleLocked.length ≤ st.total * partSize.toNat := by
    have hpieces : ∀ b ∈ s.parts, b.length ≤ partSize.toNat := by
      rw [hparts]
      exact fun b hb => length_le_of_mem_chunks hb
    have hpart : ∀ b ∈ st.parts, b.length ≤ partSize.toNat := by
      intro b hb
      obtain ⟨i, hi, rfl⟩ := getElem_of_mem hb
      obtain ⟨j, hj, -, heq⟩ := hcopy.held i (hcopy.got_of_count hc.1 (st.parts_len ▸ hi))
      rw [getElem?_eq_getElem hi, getElem?_eq_getElem hj] at heq
      rw [Option.some.inj heq]
      exact hpieces _ (getElem_mem hj)
    rw [RecvState.assembleLocked, ← st.parts_len]
    exact length_flatten_le hpart
  have htotal : st.total ≤ s.parts.length - 1 := by
    have := Nat.mod_lt s.parts.length (show 0 < 4294967296 by decide)
    rw [hcopy.total, ResourceSender.statedTotal]
    omega
  rw [hdata] at hshort
  exact Nat.lt_irrefl _ (Nat.lt_of_lt_of_le hlong (hshort.trans (Nat.mul_le_mul_right _ htotal)))

theorem completed_eq_nil {id : ResID} {data : Bytes} {partSize window rto : Int}
    (hnew : s.New sha256 id data partSize window rto) (hid : Identifies sha256 data s)
    (hno : ¬(s.parts.length < 4294967296 ∧ s.Allowed))
    (hr : ∀ st, r.byID.get? s.id = some st → Copies s st ∧ s.Allowed) (has : ∀ a ∈ as, s.Sends a.frame) :
    (r.feedAll sha256 as).2 = [] := by
  induction as generalizing r with
  | nil => rfl
  | cons a as ih =>
    have has' : ∀ b ∈ as, s.Sends b.frame := fun b hb => has b (mem_cons_of_mem a hb)
    have hfeeds : Feeds sha256 s r a.frame a.now a.order _ := r.feeds a.now a.order (has a mem_cons_self)
    rw [feedAll]
    generalize r.feed sha256 a.frame a.now a.order = out at hfeeds
    cases hfeeds with
    | ignored | answered => exact ih hr has'
    | opened _ _ hallow =>
      refine ih ?_ has'
      intro st hst
      cases (get?_set_self _ _ _).symm.trans hst
      exact ⟨.new s, hallow⟩
    | stored st j hst hj hlt hnc =>
      refine ih ?_ has'
      intro st' hst'
      cases (get?_set_self _ _ _).symm.trans hst'
      exact ⟨(hr st hst).1.store hj hlt, (hr st hst).2⟩
    | completed st j hst hj hlt hc =>
      have hn : 4294967296 ≤ s.parts.length := by
        by_contra hn
        exact hno ⟨Nat.not_le.mp hn, (hr st hst).2⟩
      exact absurd hc (not_completes_of_wrapped hnew hid hn ((hr st hst).1.store hj hlt))

theorem remembered (h : (r.finished.get? s.id).isSome ∨ (r.feedAll sha256 as).2 ≠ [])
    (has : ∀ a ∈ as, s.Sends a.frame) : ((r.feedAll sha256 as).1.finished.get? s.id).isSome := by
  induction as generalizing r with
  | nil => exact h.resolve_right fun hne => hne rfl
  | cons a as ih =>
    have has' : ∀ b ∈ as, s.Sends b.frame := fun b hb => has b (mem_cons_of_mem a hb)
    have hfeeds : Feeds sha256 s r a.frame a.now a.order _ := r.feeds a.now a.order (has a mem_cons_self)
    rw [feedAll] at h ⊢
    generalize r.feed sha256 a.frame a.now a.order = out at h hfeeds
    cases hfeeds with
    | ignored | opened | answered | stored => exact ih h has'
    | completed =>
      refine ih (.inl ?_) has'
      rw [rememberFinishedLocked_finished]
      rfl

/-- The frames of a resource, in any order and number, complete it at most once exactly if they do not hold, one
    after the other, two stretches that each cover it. Throughout, a completed resource is remembered. --/
theorem completed_once_iff {id : ResID} {data : Bytes} {partSize window rto : Int}
    (hs : newResourceSender sha256 id data partSize window rto = .ok s) (hid : Identifies sha256 data s)
    (hfresh : r.byID.get? id = none) (hroom : r.byID.len < r.limit) (has : ∀ a ∈ as, s.Sends a.frame) :
    ((r.feedAll sha256 as).2 ≠ [] → ((r.feedAll sha256 as).1.finished.get? id).isSome) ∧
    ((r.feedAll sha256 as).2.length ≤ 1 ↔
      ¬(s.parts.length < 4294967296 ∧ s.Allowed ∧
        ∃ xs ys, xs ++ ys <+: as.map (·.frame) ∧ s.Covers xs ∧ s.Covers ys)) := by
  classical
  have hnew := newResourceSender_ok hs
  obtain rfl : s.id = id := hnew.id
  have hsize : 0 < partSize.toNat := by
    have := hnew.size_pos
    omega
  refine ⟨fun hne => remembered (.inr hne) has, ?_⟩
  by_cases hok : s.parts.length < 4294967296 ∧ s.Allowed
  · obtain ⟨hn, hallow⟩ := hok
    have hcount : (r.feedAll sha256 as).2.length = rounds s.Covers [] (as.map (·.frame)) := by
      refine length_completed hn ?_ ?_ hallow (.nil ?_ hfresh) ResourceSender.not_covers_nil has
      · rw [hnew.whole, hnew.parts, flatten_resourceParts hsize]
      · rw [hnew.parts]
        exact resourceParts_pos hsize
      · rw [← len_eq_others hfresh]
        exact hroom
    rw [hcount, ← Nat.not_lt, not_iff_not, Nat.lt_iff_add_one_le,
      le_rounds_iff ResourceSender.Covers.mono ResourceSender.not_covers_nil]
    constructor
    · rintro ⟨ps, ⟨hall, hpre⟩, hlen⟩
      obtain ⟨xs, ys, rfl⟩ := length_eq_two.mp hlen
      exact ⟨hn, hallow, xs, ys, by simpa using hpre, hall xs (by simp), hall ys (by simp)⟩
    · rintro ⟨-, -, xs, ys, hpre, hxs, hys⟩
      exact ⟨[xs, ys], ⟨by simp [hxs, hys], by simpa using hpre⟩, rfl⟩
  · rw [completed_eq_nil hnew hid hok (fun st hst => by cases hfresh.symm.trans hst) has]
    simp only [length_nil, Nat.zero_le, true_iff]
    exact fun h => hok ⟨h.1, h.2.1⟩

end

def oneByteTwice : List Arrival :=
  [⟨oneByte.advFrame, 0, []⟩, ⟨oneByte.partFrame 0, 1, []⟩, ⟨oneByte.advFrame, 2, []⟩, ⟨oneByte.partFrame 0, 3, []⟩]

theorem completed_twice :
    (newResourceReceiver.feedAll sampleSha256 oneByteTwice).2 = [(oneByte.id, [7]), (oneByte.id, [7])] ∧
    ((newResourceReceiver.feedAll sampleSha256 (oneByteTwice.take 2)).1.finished.get? oneByte.id).isSome ∧
    ((newResourceReceiver.feedAll sampleSha256 oneByteTwice).1.finished.get? oneByte.id).isSome := by
  decide

theorem oneByteTwice_sends : ∀ a ∈ oneByteTwice, oneByte.Sends a.frame := by
  intro a ha
  have hpart : oneByte.Sends (oneByte.partFrame 0) := .inr ⟨0, by decide, rfl⟩
  simp only [oneByteTwice, mem_cons, not_mem_nil, or_false] at ha
  rcases ha with rfl | rfl | rfl | rfl
  · exact .inl rfl
  · exact hpart
  · exact .inl rfl
  · exact hpart

theorem not_completed_once : ¬(newResourceReceiver.feedAll sampleSha256 oneByteTwice).2.length ≤ 1 := by
  have hcov : oneByte.Covers [oneByte.advFrame, oneByte.partFrame 0] :=
    ⟨[], [oneByte.partFrame 0], rfl, fun i hi => by simp [Nat.lt_one_iff.mp hi]⟩
  have hiff := (completed_once_iff oneByte_new (.inl (by decide)) (get?_empty _)
    (show newResourceReceiver.byID.len < newResourceReceiver.limit by decide) oneByteTwice_sends).2
  exact fun hle => hiff.mp hle ⟨by decide, rfl, _, _, ⟨[], rfl⟩, hcov, hcov⟩

end ResourceReceiver
end SyncSwarm.Link
