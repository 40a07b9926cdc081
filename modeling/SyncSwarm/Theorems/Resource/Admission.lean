import SyncSwarm.Link.Message
import SyncSwarm.Theorems.Resource.Once

/-! What a receiver lets in and how much it buffers. The limits are checked on what the advertisement says. -/

namespace SyncSwarm.Link
open Lib List Option GoMap

namespace ResourceReceiver
variable {sha256 : Bytes → Hash} {s : ResourceSender} {r : ResourceReceiver}

/-! ### Room for one more resource -/

theorem completed_of_rest (hn : s.parts.length < 4294967296) (hwhole : s.whole = sha256 s.parts.flatten)
    {as : List Arrival} {st : RecvState} {j : Nat} (hst : r.byID.get? s.id = some st) (hcopy : Copies s st)
    (hgot : ∀ i < s.parts.length, st.Got i ↔ i < j) (hj : j < s.parts.length)
    (has : as.map (·.frame) = (List.range' j (s.parts.length - j)).map s.partFrame) :
    (r.feedAll sha256 as).2 = [(s.id, s.parts.flatten)] := by
  induction as generalizing r st j with
  | nil =>
    rw [show s.parts.length - j = s.parts.length - (j + 1) + 1 by omega] at has
    cases has
  | cons a as ih =>
    rw [show s.parts.length - j = s.parts.length - (j + 1) + 1 by omega, range'_succ, map_cons] at has
    obtain ⟨hframe, hrest⟩ : a.frame = s.partFrame j ∧ as.map (·.frame) = _ := List.cons.inj has
    have hmod : j % 4294967296 = j := Nat.mod_eq_of_lt (hj.trans hn)
    have htotal : st.total = s.parts.length := by rw [hcopy.total, ResourceSender.statedTotal, Nat.mod_eq_of_lt hn]
    have hlt : j % 4294967296 < st.total := by rw [hmod, htotal]; exact hj
    have hcopy' : Copies s (st.after s j) := hcopy.store hj hlt
    have hgot' : ∀ i < s.parts.length, (st.after s j).Got i ↔ i < j + 1 := by
      intro i hi
      rw [RecvState.after, RecvState.store_got hlt, hgot i hi, hmod]
      omega
    rw [feedAll, hframe, feed_partFrame, receivePart_of_some r a.now a.order hst hlt, show st.store _ _ =
      st.after s j from rfl]
    by_cases hc : (st.after s j).Completes sha256
    · have hlast : s.parts.length ≤ j + 1 := by
        refine Nat.le_of_not_lt fun hlt => ?_
        exact Nat.lt_irrefl _ ((hgot' _ hlt).mp ((completes_iff hn hwhole hcopy').mp hc _ hlt))
      rw [Nat.sub_eq_zero_of_le hlast, range'_zero, map_nil] at hrest
      rw [acknowledge_of_completes _ _ _ hc, map_eq_nil_iff.mp hrest, hcopy'.assemble hn hc.1]
      rfl
    · have hmore : j + 1 < s.parts.length := by
        refine Nat.lt_of_not_le fun hle => hc ((completes_iff hn hwhole hcopy').mpr fun i hi => ?_)
        exact (hgot' i hi).mpr (by omega)
      rw [acknowledge_of_not _ _ _ hc]
      exact ih (get?_set_self _ _ _) hcopy' hgot' hmore hrest

theorem stated_of_limits (h : advAllowed s.parts.length (maxPartLen s.parts) = true) :
    s.statedTotal = s.parts.length ∧ maxPartLen s.parts % 4294967296 = maxPartLen s.parts := by
  obtain ⟨⟨-, hparts⟩, hpart, -⟩ := advAllowed_iff.mp h
  exact ⟨Nat.mod_eq_of_lt (Nat.lt_of_le_of_lt hparts (by decide)),
    Nat.mod_eq_of_lt (Nat.lt_of_le_of_lt hpart (by decide))⟩

/-- A full table turns away a resource that is not in it, and all its parts. --/
theorem refused_of_full (hnone : r.byID.get? s.id = none) (hfull : r.limit ≤ r.byID.len) {as : List Arrival}
    (has : ∀ a ∈ as, a.frame = s.advFrame ∨ ∃ j, a.frame = s.partFrame j) : (r.feedAll sha256 as).2 = [] := by
  induction as with
  | nil => rfl
  | cons a as ih =>
    have hfed : (r.feed sha256 a.frame a.now a.order).receiver = r ∧
        (r.feed sha256 a.frame a.now a.order).completed = [] := by
      rcases has a mem_cons_self with hframe | ⟨j, hframe⟩
      · rw [hframe, feed_advFrame, advertise, hnone]
        simp only [if_pos hfull, ite_self, and_self]
      · rw [hframe, feed_partFrame, receivePart_of_none r a.now a.order hnone]
        split <;> exact ⟨rfl, rfl⟩
    rw [feedAll, hfed.1, hfed.2]
    exact ih fun x hx => has x (mem_cons_of_mem a hx)

/-- Exactly while fewer resources are buffered than the limit, a new one that passes the limits goes through: its
    advertisement and its parts in order hand its data over. --/
theorem admitted_completes {id : ResID} {data : Bytes} {partSize window rto : Int}
    (hs : newResourceSender sha256 id data partSize window rto = .ok s)
    (hlimits : advAllowed s.parts.length (maxPartLen s.parts) = true) (r : ResourceReceiver)
    (hnew : r.byID.get? id = none) {as : List Arrival}
    (has : as.map (·.frame) = s.advFrame :: (List.range s.parts.length).map s.partFrame) :
    (r.feedAll sha256 as).2 = [(id, data)] ↔ r.byID.len < r.limit := by
  have hsender := newResourceSender_ok hs
  obtain rfl : s.id = id := hsender.id
  have hsize : 0 < partSize.toNat := by have := hsender.size_pos; omega
  have hflat : s.parts.flatten = data := by rw [hsender.parts, flatten_resourceParts hsize]
  obtain ⟨⟨hpos, hparts⟩, -, -⟩ := advAllowed_iff.mp hlimits
  have hn : s.parts.length < 4294967296 := Nat.lt_of_le_of_lt hparts (by decide)
  have hallow : s.Allowed := by
    obtain ⟨htotal, hpart⟩ := stated_of_limits hlimits
    rwa [ResourceSender.Allowed, htotal, hpart]
  refine ⟨fun hdone => Nat.lt_of_not_le fun hfull => ?_, fun hroom => ?_⟩
  · rw [refused_of_full hnew hfull fun a ha => ?_] at hdone
    · cases hdone
    · rcases mem_cons.mp (has ▸ mem_map_of_mem ha) with hadv | hpart
      · exact .inl hadv
      · obtain ⟨j, -, hj⟩ := mem_map.mp hpart
        exact .inr ⟨j, hj.symm⟩
  · cases as with
    | nil => cases has
    | cons a as =>
      obtain ⟨hframe, hrest⟩ : a.frame = s.advFrame ∧ as.map (·.frame) = _ := List.cons.inj has
      rw [feedAll, hframe, feed_advFrame, advertise_of_none r hallow hnew (len_eq_others hnew ▸ hroom), ← hflat]
      refine completed_of_rest hn (by rw [hsender.whole, hflat]) (get?_set_self _ _ _) (.new s) ?_ hpos ?_
      · intro i _
        simp [RecvState.new, RecvState.Got, getElem?_replicate]
      · rw [hrest, range_eq_range', Nat.sub_zero]

theorem admitted_completes_one :
    (newResourceReceiver.feedAll sampleSha256 [⟨oneByte.advFrame, 0, []⟩, ⟨oneByte.partFrame 0, 1, []⟩]).2 =
      [(oneByte.id, [7])] :=
  (admitted_completes oneByte_new (by decide) newResourceReceiver (by decide) rfl).mpr (by decide)

def abandoned (id : ResID) : Arrival := ⟨encodeAdv id 1 1 default, 0, []⟩

theorem fill_table {ids : List ResID} (hids : ids.Nodup) (hnew : ∀ id ∈ ids, r.byID.get? id = none)
    (hroom : r.byID.len + ids.length ≤ r.limit) :
    (r.feedAll sha256 (ids.map abandoned)).1.byID.len = r.byID.len + ids.length ∧
      (r.feedAll sha256 (ids.map abandoned)).1.limit = r.limit ∧
      ∀ k ∉ ids, (r.feedAll sha256 (ids.map abandoned)).1.byID.get? k = r.byID.get? k := by
  induction ids generalizing r with
  | nil => exact ⟨rfl, rfl, fun _ _ => rfl⟩
  | cons id ids ih =>
    obtain ⟨hid, hids⟩ := nodup_cons.mp hids
    have hnone := hnew id mem_cons_self
    rw [length_cons] at hroom
    have hadv : r.feed sha256 (abandoned id).frame 0 [] =
        ⟨{ r with byID := r.byID.set id (RecvState.new 1 default) }, [], []⟩ := by
      rw [abandoned, feed_adv, advertise_of_none r (by decide) hnone (by rw [← len_eq_others hnone]; omega)]
      rfl
    have hlen : (r.byID.set id (RecvState.new 1 default)).len = r.byID.len + 1 := len_set hnone _
    obtain ⟨hgrown, hlimit, hrest⟩ := @ih { r with byID := r.byID.set id (RecvState.new 1 default) } hids
      (fun k hk => by rw [get?_set_ne _ _ fun h : k = id => hid (h ▸ hk)]; exact hnew k (mem_cons_of_mem _ hk))
      (show (r.byID.set id (RecvState.new 1 default)).len + ids.length ≤ r.limit by omega)
    rw [map_cons, feedAll, show (abandoned id).now = 0 from rfl, show (abandoned id).order = [] from rfl, hadv]
    refine ⟨?_, hlimit, fun k hk => ?_⟩
    · rw [length_cons]
      exact hgrown.trans (show (r.byID.set id (RecvState.new 1 default)).len + ids.length = _ by omega)
    · have hne : k ≠ id := fun h => hk (h ▸ mem_cons_self)
      exact (hrest k fun h => hk (mem_cons_of_mem _ h)).trans (get?_set_ne _ _ hne)

/-- After 256 of them no resource gets in, however long ago they came. --/
theorem refused_for_good : ∃ before : List Arrival, ∀ now later order,
    ((newResourceReceiver.feedAll sampleSha256 before).1.feedAll sampleSha256
      [⟨oneByte.advFrame, now, order⟩, ⟨oneByte.partFrame 0, later, order⟩]).2 = [] := by
  let ids : List ResID := (List.range 256).map fun i => FixedBytes.copy 16 [UInt8.ofNat i, 1]
  have hids : ids.Nodup := by
    refine List.Nodup.map_on (fun i hi j hj heq => ?_) nodup_range
    have hhead : UInt8.ofNat i = UInt8.ofNat j := (List.cons.inj (congrArg Subtype.val heq)).1
    have hnat := congrArg UInt8.toNat hhead
    rw [UInt8.toNat_ofNat_of_lt' (mem_range.mp hi), UInt8.toNat_ofNat_of_lt' (mem_range.mp hj)] at hnat
    exact hnat
  have hother : oneByte.id ∉ ids := by
    intro hmem
    obtain ⟨i, -, heq⟩ := mem_map.mp hmem
    exact absurd (List.cons.inj (List.cons.inj (congrArg Subtype.val heq)).2).1 (by decide)
  obtain ⟨hlen, hlimit, hrest⟩ := @fill_table sampleSha256 newResourceReceiver _ hids (fun id _ => get?_empty id)
    (show 0 + ids.length ≤ 256 by simp [ids])
  refine ⟨ids.map abandoned, fun now later order => ?_⟩
  generalize (newResourceReceiver.feedAll sampleSha256 (ids.map abandoned)).1 = r at hlen hlimit hrest ⊢
  have hnone : r.byID.get? oneByte.id = none := (hrest _ hother).trans (get?_empty _)
  have hfull : r.limit ≤ r.byID.len := by
    rw [hlen, hlimit]
    show 256 ≤ 0 + ids.length
    simp [ids]
  exact refused_of_full hnone hfull fun a ha => by
    rcases mem_cons.mp ha with rfl | ha
    · exact .inl rfl
    · exact .inr ⟨0, by rw [mem_singleton.mp ha]⟩

/-! ### What is buffered -/

theorem get?_feed {frame : Bytes} {now : Int} {order : List ResID} {id : ResID} {st : RecvState}
    (h : (r.feed sha256 frame now order).receiver.byID.get? id = some st) :
    r.byID.get? id = some st ∨
    (r.byID.get? id = none ∧ advAllowed (frameU32 frame 0) (frameU32 frame 4) = true ∧
      ∃ whole, st = .new (frameU32 frame 0) whole) ∨
    ∃ old, r.byID.get? id = some old ∧ id = frameID frame ∧ frame.head? = some resTagPart ∧
      st = old.store (frameU32 frame 0) (frame.drop (1 + resIDLen + 4)) := by
  have hother : ∀ {k : ResID} {x : RecvState}, (r.byID.set k x).get? id = some st → r.byID.get? id = some st ∨
      (id = k ∧ st = x) := by
    intro k x hset
    by_cases hk : id = k
    · rw [hk, get?_set_self] at hset
      exact .inr ⟨hk, (Option.some.inj hset).symm⟩
    · rw [get?_set_ne _ _ hk] at hset
      exact .inl hset
  rw [feed] at h
  split at h
  · exact .inl h
  · split at h
    · rw [onAdv] at h
      split at h
      · exact .inl h
      · rw [advertise] at h
        split at h
        · exact .inl h
        next hallow =>
          split at h
          · exact .inl h
          next hnone =>
            split at h
            · exact .inl h
            · rcases hother h with hold | ⟨rfl, rfl⟩
              · exact .inl hold
              · exact .inr (.inl ⟨hnone, by simpa using hallow, _, rfl⟩)
    · split at h
      next hpart =>
        rw [onPart] at h
        split at h
        · exact .inl h
        · rw [receivePart] at h
          split at h
          · split at h <;> exact .inl h
          next old hold =>
            split at h
            · exact .inl h
            · rw [acknowledge] at h
              split at h
              · rw [rememberFinishedLocked_byID] at h
                by_cases hk : id = frameID frame
                · rw [hk, get?_delete_self] at h
                  cases h
                · rw [get?_delete_ne _ hk] at h
                  exact .inl h
              · rcases hother h with hsame | ⟨rfl, rfl⟩
                · exact .inl hsame
                · exact .inr (.inr ⟨old, hold, rfl, hpart, rfl⟩)
      · exact .inl h

end ResourceReceiver

/-- A receiver and, for each resource that is buffered, the part size in the advertisement that opened it. --/
structure Watched where
  receiver : ResourceReceiver
  partSize : ResID → Nat

namespace Watched
open ResourceReceiver
variable {sha256 : Bytes → Hash} {w u : Watched} {a : Arrival} {id : ResID} {st : RecvState}

/-- The receiver has admitted nothing. --/
def new : Watched := ⟨newResourceReceiver, fun _ => 0⟩

/-- A frame arrives; the part size of a resource is noted when it is admitted. --/
def next (sha256 : Bytes → Hash) (w : Watched) (a : Arrival) : Option Watched :=
  let receiver := (w.receiver.feed sha256 a.frame a.now a.order).receiver
  some ⟨receiver, fun id =>
    if w.receiver.byID.get? id = none ∧ receiver.byID.get? id ≠ none then frameU32 a.frame 4 else w.partSize id⟩

/-- How long a part may be: as long as was advertised or, if nothing was, as long as all parts may be together,
    divided among them. --/
def share (total partSize : Nat) : Nat := if partSize = 0 then maxResourceBytes / total else partSize

/-- A part is no longer than its share of the size that the receiver admitted. --/
def Modest (w : Watched) (a : Arrival) : Prop :=
  ∀ st ∈ w.receiver.byID.get? (frameID a.frame), a.frame.head? = some resTagPart →
    (a.frame.drop (1 + resIDLen + 4)).length ≤ share st.total (w.partSize (frameID a.frame))

instance (w : Watched) (a : Arrival) : Decidable (w.Modest a) :=
  inferInstanceAs (Decidable (∀ st ∈ w.receiver.byID.get? (frameID a.frame), _))

def Inv (w : Watched) : Prop := ∀ id st, w.receiver.byID.get? id = some st →
  advAllowed st.total (w.partSize id) = true ∧ ∀ p ∈ st.parts, p.length ≤ share st.total (w.partSize id)

theorem Inv.next (hw : w.Inv) (ha : w.Modest a) (hnext : w.next sha256 a = some u) : u.Inv := by
  cases hnext
  intro id st hst
  dsimp only at hst ⊢
  rw [hst]
  rcases get?_feed hst with hold | ⟨hnone, hallow, whole, rfl⟩ | ⟨old, hold, rfl, hpart, rfl⟩
  · rw [if_neg fun h => by cases hold.symm.trans h.1]
    exact hw id st hold
  · rw [if_pos ⟨hnone, nofun⟩]
    refine ⟨hallow, fun p hp => ?_⟩
    rw [eq_of_mem_replicate hp]
    exact Nat.zero_le _
  · rw [if_neg (fun h => by cases hold.symm.trans h.1), RecvState.store]
    obtain ⟨hallow, hparts⟩ := hw _ old hold
    split
    · exact ⟨hallow, hparts⟩
    · refine ⟨hallow, fun p hp => ?_⟩
      rcases mem_or_eq_of_mem_set hp with hp | rfl
      · exact hparts p hp
      · exact ha old hold hpart

/-- In every run whose parts are no longer than they may be, what is buffered of a resource is within the limit, and
    within the number of its parts times the part size that was advertised. --/
theorem buffered_bounded {as : List Arrival} (hmeets : Along (next sha256) Modest new as)
    (hrun : exec (next sha256) new as = some w) (hst : w.receiver.byID.get? id = some st) :
    (st.parts.map List.length).sum ≤ maxResourceBytes ∧
      (w.partSize id ≠ 0 → (st.parts.map List.length).sum ≤ st.total * w.partSize id) := by
  have hinv : w.Inv := exec_keeps_along (fun _ _ _ ha hw hnext => hw.next ha hnext)
    (fun id st hst => by cases (get?_empty id).symm.trans hst) hmeets hrun
  obtain ⟨hallow, hparts⟩ := hinv id st hst
  obtain ⟨⟨hpos, -⟩, -, htotal⟩ := advAllowed_iff.mp hallow
  have hsum : (st.parts.map List.length).sum ≤ st.total * share st.total (w.partSize id) := by
    rw [← length_flatten, ← st.parts_len]
    exact length_flatten_le (st.parts_len ▸ hparts)
  by_cases hsize : w.partSize id = 0
  · rw [share, if_pos hsize] at hsum
    exact ⟨Nat.le_trans hsum (Nat.mul_div_le _ _), fun h => absurd hsize h⟩
  · rw [share, if_neg hsize] at hsum
    exact ⟨Nat.le_trans hsum
      ((Nat.le_div_iff_mul_le (Nat.pos_of_ne_zero hsize)).mp (htotal (Nat.pos_of_ne_zero hsize))), fun _ => hsum⟩

def halfArrived (data : Bytes) : List Arrival :=
  [⟨encodeAdv default 2 1 default, 0, []⟩, ⟨encodePart default 0 data, 0, []⟩]

theorem buffered_bounded_half : ∃ w st, exec (next sampleSha256) new (halfArrived [7]) = some w ∧
    w.receiver.byID.get? default = some st ∧ st.parts = [[7], []] ∧
    (st.parts.map List.length).sum ≤ maxResourceBytes ∧
      (w.partSize default ≠ 0 → (st.parts.map List.length).sum ≤ st.total * w.partSize default) := by
  have hrun : ((exec (next sampleSha256) new (halfArrived [7])).bind fun w =>
    (w.receiver.byID.get? default).map (·.parts)) =
      some [[7], []] := by decide +kernel
  obtain ⟨w, hw, hst⟩ := bind_eq_some_iff.mp hrun
  obtain ⟨st, hst, hparts⟩ := map_eq_some_iff.mp hst
  exact ⟨w, st, hw, hst, hparts, buffered_bounded (by decide +kernel) hw hst⟩

/-- A part of three bytes is buffered where parts of one byte were advertised. --/
theorem buffered_beyond : ∃ w st, exec (next sampleSha256) new (halfArrived [7, 8, 9]) = some w ∧
    w.receiver.byID.get? default = some st ∧ w.partSize default = 1 ∧ st.total = 2 ∧
      (st.parts.map List.length).sum = 3 := by
  have hrun : ((exec (next sampleSha256) new (halfArrived [7, 8, 9])).bind fun w =>
    (w.receiver.byID.get? default).map fun st =>
      (w.partSize default, st.total, (st.parts.map List.length).sum)) = some (1, 2, 3) := by decide +kernel
  obtain ⟨w, hw, hst⟩ := bind_eq_some_iff.mp hrun
  obtain ⟨st, hst, hsizes⟩ := map_eq_some_iff.mp hst
  simp only [Prod.mk.injEq] at hsizes
  exact ⟨w, st, hw, hst, hsizes⟩

end Watched

/-! ### What the sender lets out -/

section
variable {sha256 : Bytes → Hash} {id : ResID} {data : Bytes} {s : ResourceSender}

/-- A new receiver takes in the resource when it is advertised. --/
def ResourceSender.Admitted (sha256 : Bytes → Hash) (s : ResourceSender) : Prop :=
  ∀ now order, (newResourceReceiver.feed sha256 s.advFrame now order).receiver.byID.get? s.id =
    some (.new s.parts.length s.whole)

/-- Data that is within the receiver's limits when it is cut into parts of `size` bytes. --/
def Fits (size : Nat) (data : Bytes) : Prop :=
  chunkCount size data.length ≤ maxResourceParts ∧ chunkCount size data.length * min size data.length ≤ maxResourceBytes

theorem maxPartLen_resourceParts {size : Nat} (hsize : 0 < size) :
    maxPartLen (resourceParts data size) = min size data.length := by
  rw [resourceParts]
  split
  next hdata =>
    rw [hdata]
    simp [maxPartLen]
  next hdata =>
    refine Nat.le_antisymm (maxPartLen_le.mpr fun p hp => ?_) ?_
    · obtain ⟨i, -, rfl⟩ := mem_chunks hp
      rw [length_take, length_drop]
      omega
    · -- The first part is a whole one, or all there is.
      have hfirst := mem_of_getElem? (getElem?_chunks (l := data) (chunkCount_pos hsize (Nat.pos_of_ne_zero hdata)))
      rw [Nat.zero_mul, drop_zero] at hfirst
      rw [← length_take]
      exact maxPartLen_le.mp (Nat.le_refl _) _ hfirst

theorem limits_iff {partSize : Int} (hpos : 0 < partSize) (hsize : partSize ≤ maxResourcePartSize) :
    ResourceReceiver.advAllowed (resourceParts data partSize.toNat).length (min partSize.toNat data.length) = true ↔
      Fits partSize.toNat data := by
  have hparts : 0 < (resourceParts data partSize.toNat).length := resourceParts_pos (by omega)
  rw [ResourceReceiver.advAllowed_iff, Fits]
  by_cases hdata : data.length = 0
  · rw [resourceParts, if_pos hdata, hdata, chunkCount_zero, Nat.min_zero]
    decide
  · have hlen : (resourceParts data partSize.toNat).length = chunkCount partSize.toNat data.length := by
      rw [resourceParts, if_neg hdata, length_chunks]
    have hpart : 0 < min partSize.toNat data.length := by omega
    rw [hlen, Nat.le_div_iff_mul_le hpart]
    rw [hlen] at hparts
    exact ⟨fun h => ⟨h.1.2, h.2.2 hpart⟩, fun h => ⟨⟨hparts, h.1⟩, by omega, fun _ => h.2⟩⟩

theorem admitted_iff {partSize window rto : Int} (hs : newResourceSender sha256 id data partSize window rto = .ok s)
    (hsize : partSize ≤ maxResourcePartSize) : s.Admitted sha256 ↔ Fits partSize.toNat data := by
  have hsender := newResourceSender_ok hs
  have hpos := hsender.size_pos
  have hmax : maxPartLen s.parts = min partSize.toNat data.length := by
    rw [hsender.parts, maxPartLen_resourceParts (by omega)]
  have hpart : maxPartLen s.parts % 4294967296 = maxPartLen s.parts :=
    Nat.mod_eq_of_lt (by rw [maxResourcePartSize] at hsize; omega)
  rw [← limits_iff hpos hsize, ← hsender.parts, ← hmax, ResourceSender.Admitted]
  simp only [ResourceReceiver.feed_advFrame, hpart]
  constructor
  · intro h
    have h := h 0 []
    by_cases hallow : ResourceReceiver.advAllowed s.statedTotal (maxPartLen s.parts) = true
    · rw [ResourceReceiver.advertise_of_none newResourceReceiver hallow (get?_empty _)
        (show _ < 256 from Nat.zero_lt_succ _)] at h
      have htotal : s.statedTotal = s.parts.length :=
        congrArg RecvState.total (Option.some.inj ((get?_set_self _ _ _).symm.trans h))
      rwa [htotal] at hallow
    · rw [ResourceReceiver.advertise, if_pos (by simpa using hallow)] at h
      cases h
  · intro hlimits now order
    obtain ⟨htotal, -⟩ := ResourceReceiver.stated_of_limits hlimits
    rw [htotal, ResourceReceiver.advertise_of_none newResourceReceiver hlimits (get?_empty _)
      (show _ < 256 from Nat.zero_lt_succ _)]
    exact get?_set_self _ _ _

theorem sendResource_ok {mtuOf : Option (String → Int)} {addr : String} {now : Int} {frames : List Bytes}
    (h : sendResource sha256 id mtuOf addr data now = .ok (s, frames)) :
    ∃ s₀, newResourceSender sha256 id data (resourcePartSize (chunkFor mtuOf addr)) 0 0 = .ok s₀ ∧ s₀.Continues s := by
  rw [sendResource] at h
  cases hs : newResourceSender sha256 id data (resourcePartSize (chunkFor mtuOf addr)) 0 0 with
  | error err => rw [hs] at h; cases h
  | ok s₀ =>
    rw [hs] at h
    cases h
    exact ⟨s₀, rfl, s₀.fillWindowLocked_continues now⟩

theorem resourcePartSize_bounds (mtuOf : Option (String → Int)) (addr : String) :
    1 ≤ resourcePartSize (chunkFor mtuOf addr) ∧ resourcePartSize (chunkFor mtuOf addr) ≤ maxResourcePartSize := by
  have hchunk : chunkFor mtuOf addr ≤ maxMessageChunk := by
    have hmtu : ∀ mtu, maxChunkForMTU mtu ≤ maxMessageChunk := by
      intro mtu
      rw [maxChunkForMTU]
      split
      · exact Int.le_refl _
      · dsimp only
        split
        · decide
        · split <;> omega
    cases mtuOf with
    | none => exact Int.le_refl _
    | some f => exact hmtu _
  rw [maxMessageChunk] at hchunk
  rw [resourcePartSize, resourceFrameOverhead, resIDLen, maxResourcePartSize]
  split <;> omega

/-- Whatever the MTU and the part size, a new receiver admits the data exactly when it fits. --/
theorem fits_admitted (sha256 : Bytes → Hash) (id : ResID) (data : Bytes) :
    (∀ partSize window rto s, newResourceSender sha256 id data partSize window rto = .ok s →
      partSize ≤ maxResourcePartSize →
      (s.Admitted sha256 ↔ Fits partSize.toNat data)) ∧
    ∀ mtuOf addr now s frames, sendResource sha256 id mtuOf addr data now = .ok (s, frames) →
      (s.Admitted sha256 ↔ Fits (resourcePartSize (chunkFor mtuOf addr)).toNat data) := by
  refine ⟨fun partSize window rto s hs hsize => admitted_iff hs hsize, fun mtuOf addr now s frames hs => ?_⟩
  obtain ⟨s₀, hs₀, hcont⟩ := sendResource_ok hs
  rw [ResourceSender.Admitted, hcont.advFrame, hcont.id, hcont.parts, hcont.whole]
  exact admitted_iff hs₀ (resourcePartSize_bounds mtuOf addr).2

theorem fits_admitted_one :
    ∃ s frames, sendResource sampleSha256 default none "" [7] 0 = .ok (s, frames) ∧ s.Admitted sampleSha256 :=
  ⟨_, _, rfl, ((fits_admitted sampleSha256 default [7]).2 none "" 0 _ _ rfl).mpr ⟨by decide, by decide⟩⟩

/-- Over a link with a small MTU, 2752513 bytes take one part more than a receiver admits. The sender takes them. --/
theorem not_admitted : ∃ (mtuOf : Option (String → Int)) (data : Bytes), ∀ sha256 id now, ∃ s frames,
    sendResource sha256 id mtuOf "" data now = .ok (s, frames) ∧
      ∀ order, (newResourceReceiver.feed sha256 s.advFrame now order).receiver.byID.get? s.id = none := by
  refine ⟨some fun _ => 128, List.replicate 2752513 0, fun sha256 id now => ?_⟩
  generalize hdata : List.replicate 2752513 (0 : UInt8) = data
  have hlen : data.length = 2752513 := by rw [← hdata, length_replicate]
  have hsome : ∃ out, sendResource sha256 id (some fun _ => 128) "" data now = .ok out := ⟨_, rfl⟩
  obtain ⟨⟨s, frames⟩, hs⟩ := hsome
  refine ⟨s, frames, hs, fun order => ?_⟩
  obtain ⟨s₀, hs₀, hcont⟩ := sendResource_ok hs
  have hparts : s.parts.length = 65537 := by
    rw [hcont.parts, (newResourceSender_ok hs₀).parts, resourceParts, if_neg (by omega), length_chunks, hlen]
    decide
  rw [ResourceReceiver.feed_advFrame, ResourceReceiver.advertise, ResourceSender.statedTotal, hparts]
  exact get?_empty _

end
end SyncSwarm.Link
