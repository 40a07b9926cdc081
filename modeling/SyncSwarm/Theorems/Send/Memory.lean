import SyncSwarm.Theorems.Direct.Exchange
import SyncSwarm.Transfer.Memory

/-! What sending does to the array of the caller: with spare capacity the shards of one payload are
    written over the next. -/

namespace SyncSwarm.Transfer
open Lib Protocol Fragment List

variable {rs : ReedSolomon} {t : Config} {id : TransferID} {isVariable : Bool} {sealer : Option Sealer}
  {array : Bytes} {size : Nat}

theorem write_nil (array : Bytes) (off : Nat) : write array off [] = array := by
  rw [write, append_nil, length_nil, Nat.add_zero, take_append_drop]

namespace Slice

theorem length_read (s : Slice array.length) : (s.read array).length = s.len := by
  have hlen := s.len_le
  have hin := s.inside
  rw [read, length_take, length_drop]
  omega

theorem le_mul_perShard (s : Slice size) {d : Nat} (hd : 0 < d) (p : Nat) : s.len ≤ d * s.perShard d p := by
  have hmod := Nat.div_add_mod (s.len + d - 1) d
  have hlt := Nat.mod_lt (s.len + d - 1) hd
  have hshard : (s.len + d - 1) / d ≤ s.perShard d p := by
    rw [perShard]
    split <;> omega
  have hmul := Nat.mul_le_mul_left d hshard
  omega

theorem extended_of_full {s : Slice size} (hcap : s.cap = s.len) (d p : Nat) : s.extended d p = s.len :=
  if_neg (by omega)

theorem views_le {s : Slice size} (hcap : s.cap = s.len) {d : Nat} (hd : 0 < d) (p : Nat) :
    s.extended d p / s.perShard d p ≤ d := by
  rw [extended_of_full hcap]
  refine Nat.div_le_of_le_mul ?_
  rw [Nat.mul_comm]
  exact s.le_mul_perShard hd p

theorem lt_extended {s : Slice size} (hspare : s.len < s.cap) {d p : Nat} (hd : 0 < d) (hp : 0 < p) (hlen : 0 < s.len) :
    s.len < s.extended d p := by
  have hle := s.le_mul_perShard hd p
  have hshard : 0 < s.perShard d p := Nat.pos_of_ne_zero fun h => by rw [h] at hle; omega
  have hparity := Nat.mul_pos hp hshard
  rw [extended, if_pos hspare, Nat.add_mul, Nat.lt_min]
  omega

theorem read_set (s : Slice size) (v : UInt8) : s.read (array.set (s.off + s.len) v) = s.read array := by
  rw [read, read, drop_set, if_neg (by omega), take_set_of_le (by omega)]

end Slice

theorem write_set {i : Nat} {data : Bytes} (hdata : data ≠ []) (v : UInt8) :
    write (array.set i v) i data = write array i data := by
  have hpos := length_pos_iff.mpr hdata
  rw [write, write, take_set_of_le (Nat.le_refl i), drop_set_of_lt (by omega)]

theorem fragmentIn_keeps {f : RSFragmenter} {s : Slice array.length}
    (hkeeps : s.cap = s.len ∨ rs.new f.dataShards.toNat f.parityShards.toNat ≠ .ok ()) (draw : Nat) :
    fragmentIn f rs draw id s array = (array, f.fragment rs draw id (s.read array)) := by
  have hd : 0 < f.dataShards.toNat := by have := f.shards_pos.1; omega
  rw [fragmentIn, RSFragmenter.fragment, ReedSolomon.shards, s.length_read]
  split
  · rfl
  cases hnew : rs.new f.dataShards.toNat f.parityShards.toNat with
  | error e => rfl
  | ok =>
    have hcap := hkeeps.resolve_right (not_not_intro hnew)
    have hviews (shards : List Bytes) : (shards.take (s.extended f.dataShards.toNat f.parityShards.toNat /
        s.perShard f.dataShards.toNat f.parityShards.toNat)).drop f.dataShards.toNat = [] :=
      drop_eq_nil_of_le (Nat.le_trans (length_take_le _ _) (s.views_le hcap hd _))
    cases rs.split f.dataShards.toNat f.parityShards.toNat (s.read array) with
    | error e => rfl
    | ok parts =>
      dsimp only [bind, Except.bind, mapError_ok]
      rw [s.extended_of_full hcap, Nat.sub_self, replicate_zero, write_nil]
      cases rs.encode f.dataShards.toNat f.parityShards.toNat parts with
      | error e => rfl
      | ok shards =>
        dsimp only [mapError_ok]
        rw [← s.extended_of_full hcap f.dataShards.toNat f.parityShards.toNat, hviews, flatten_nil, write_nil,
          s.extended_of_full hcap]
        cases sealParts f.sealer draw id "shard" (UInt32.ofNat shards.length) 0 shards with
        | error e => rfl
        | ok frags => rfl

/-- `Split` refuses only an empty slice. --/
def Splits (rs : ReedSolomon) : Prop :=
  ∀ d p data, rs.new d p = .ok () → data ≠ [] → ∃ parts, rs.split d p data = .ok parts

/-- The byte after the payload is lost: `Split` has it for its own. --/
theorem fragmentIn_set (hsplit : Splits rs) {f : RSFragmenter} {s : Slice array.length} (hspare : s.len < s.cap)
    (hlen : f.dataShards ≤ s.len) (hnew : rs.new f.dataShards.toNat f.parityShards.toNat = .ok ()) (draw : Nat)
    (v : UInt8) :
    fragmentIn f rs draw id s (array.set (s.off + s.len) v) = fragmentIn f rs draw id s array := by
  obtain ⟨hd, hp⟩ := f.shards_pos
  have hpos : 0 < s.len := by omega
  have hext := s.lt_extended hspare (show 0 < f.dataShards.toNat by omega) (show 0 < f.parityShards.toNat by omega) hpos
  have hzeros : replicate (s.extended f.dataShards.toNat f.parityShards.toNat - s.len) (0 : UInt8) ≠ [] := by
    rw [Ne, replicate_eq_nil_iff]
    omega
  obtain ⟨parts, hparts⟩ := hsplit _ _ (s.read array) hnew (length_pos_iff.mp (s.length_read ▸ hpos))
  rw [fragmentIn, fragmentIn, if_neg (Int.not_lt.mpr hlen), if_neg (Int.not_lt.mpr hlen), s.read_set, hnew, hparts]
  dsimp only
  rw [write_set hzeros]

namespace BufferedSend

def Coded (x : BufferedSend size) : Prop :=
  x.sealer.isSome ∧ 0 < x.cfg.dataShards ∧ 0 < x.cfg.parityShards ∧ x.cfg.dataShards ≤ x.slice.len

/-- The slice has no spare capacity, or the payload does not go by shards. --/
def Safe (rs : ReedSolomon) (x : BufferedSend size) : Prop :=
  x.slice.cap = x.slice.len ∨ ¬x.Coded ∨ rs.new x.cfg.dataShards.toNat x.cfg.parityShards.toNat ≠ .ok ()

theorem Coded.fragmenter {x : BufferedSend size} (h : x.Coded) :
    ∃ f, newRSFragmenter x.sealer x.cfg.dataShards x.cfg.parityShards = .ok f ∧ f.dataShards = x.cfg.dataShards ∧
      f.parityShards = x.cfg.parityShards := by
  obtain ⟨sealer, hsealer⟩ := Option.isSome_iff_exists.mp h.1
  rw [hsealer, newRSFragmenter]
  exact ⟨_, dif_pos ⟨h.2.1, h.2.2.1⟩, rfl, rfl⟩

end BufferedSend

theorem buildFragmentsIn_of_safe {x : BufferedSend array.length} (h : x.Safe rs) :
    x.cfg.buildFragmentsIn rs x.id x.slice x.isVariable x.sealer array =
      (array, x.cfg.buildFragments rs x.id (x.slice.read array) x.isVariable x.sealer) := by
  rw [Config.buildFragmentsIn, Config.buildFragments, x.slice.length_read]
  by_cases hcoded : x.Coded
  · rw [if_pos (show _ ∧ _ from hcoded), if_pos (show _ ∧ _ from hcoded), Config.buildShards]
    obtain ⟨f, hf, hd, hp⟩ := hcoded.fragmenter
    have hkeeps : x.slice.cap = x.slice.len ∨ rs.new f.dataShards.toNat f.parityShards.toNat ≠ .ok () := by
      rw [hd, hp]
      exact h.imp_right fun h => h.resolve_left (not_not_intro hcoded)
    rw [hf]
    dsimp only [bind, Except.bind]
    rw [fragmentIn_keeps hkeeps]
    cases f.fragment rs 0 x.id (x.slice.read array) with
    | error e => rfl
    | ok out => rfl
  · rw [if_neg (show ¬(_ ∧ _) from hcoded), if_neg (show ¬(_ ∧ _) from hcoded)]

theorem buildFragmentsIn_set (hsplit : Splits rs) {x : BufferedSend array.length} (h : ¬x.Safe rs) (v : UInt8) :
    x.cfg.buildFragmentsIn rs x.id x.slice x.isVariable x.sealer (array.set (x.slice.off + x.slice.len) v) =
      x.cfg.buildFragmentsIn rs x.id x.slice x.isVariable x.sealer array := by
  simp only [BufferedSend.Safe, not_or, not_not] at h
  obtain ⟨hcap, hcoded, hnew⟩ := h
  have hle := x.slice.len_le
  obtain ⟨f, hf, hd, hp⟩ := hcoded.fragmenter
  rw [Config.buildFragmentsIn, Config.buildFragmentsIn, if_pos (show _ ∧ _ from hcoded),
    if_pos (show _ ∧ _ from hcoded), hf]
  dsimp only
  rw [fragmentIn_set hsplit (by omega) (hd ▸ hcoded.2.2.2) (by rw [hd, hp]; exact hnew)]

theorem buildAll_of_safe {xs : List (BufferedSend array.length)} (hxs : ∀ x ∈ xs, x.Safe rs) :
    buildAll rs array xs =
      (array, xs.map fun x => x.cfg.buildFragments rs x.id (x.slice.read array) x.isVariable x.sealer) := by
  induction xs with
  | nil => rfl
  | cons x xs ih =>
    obtain ⟨hx, hxs⟩ := forall_mem_cons.mp hxs
    rw [buildAll, buildFragmentsIn_of_safe hx]
    dsimp only
    rw [ih hxs]
    rfl

theorem safe_of_kept (hsplit : Splits rs) {xs : List (BufferedSend size)}
    (hkept : ∀ array : Bytes, array.length = size → (buildAll rs array xs).1 = array) : ∀ x ∈ xs, x.Safe rs := by
  induction xs with
  | nil => exact fun x hx => absurd hx not_mem_nil
  | cons x xs ih =>
    have hx : x.Safe rs := by
      by_contra hx
      have hcap : x.slice.cap ≠ x.slice.len := fun h => hx (.inl h)
      have hle := x.slice.len_le
      have hin := x.slice.inside
      -- two arrays that differ in the byte after the payload are the same afterwards
      obtain ⟨array, hlen⟩ : ∃ array : Bytes, array.length = size := ⟨replicate size 0, length_replicate⟩
      subst hlen
      have hsame (v : UInt8) : array.set (x.slice.off + x.slice.len) v = array := by
        rw [← hkept (array.set _ v) length_set, buildAll, buildFragmentsIn_set hsplit hx, ← buildAll, hkept array rfl]
      have hbyte (v : UInt8) : array[x.slice.off + x.slice.len]? = some v :=
        (congrArg (·[x.slice.off + x.slice.len]?) (hsame v)).symm.trans (getElem?_set_self (by omega))
      exact absurd ((hbyte 0).symm.trans (hbyte 1)) (by decide)
    refine forall_mem_cons.mpr ⟨hx, ih fun array hlen => ?_⟩
    subst hlen
    have h := hkept array rfl
    rwa [buildAll, buildFragmentsIn_of_safe hx] at h

/-- The transfer that the call makes of the bytes in its slice. --/
structure BufferedSend.Goes {rx : Config} (x : BufferedSend size) (array : Bytes) (o : Outgoing rx rs) : Prop where
  tx : o.tx = x.cfg
  id : o.id = x.id
  data : o.data = x.slice.read array
  isVariable : o.isVariable = x.isVariable
  sealer : o.sealer = x.sealer

/-- Calls leave the array as it was, whatever stands in it, and each of the payloads is received as it was in the
    array before the first, just when the slices have no spare capacity or do not go by shards. --/
theorem callers_array_kept (hrs : rs.Lawful) (hsplit : Splits rs) (xs : List (BufferedSend size)) :
    (∀ array : Bytes, array.length = size → (buildAll rs array xs).1 = array ∧
      ∀ (i : Nat) (x : BufferedSend size), xs[i]? = some x → ∀ (rx : Config) (o : Outgoing rx rs), x.Goes array o →
        (buildAll rs array xs).2[i]? = some (.ok (o.frags, o.sc)) ∧
        ∀ (before : Receiver) (sourceNode : String) (sub : Int) (fits : Packet → Bool),
          before.down = false → o.Cut sub →
          (∀ p ∈ packetsOf o.id o.scheme sourceNode [] sub o.frags, fits p) →
          Completes (sendToNode fits o.id o.frags sourceNode o.scheme sub) rx rs before fun w =>
            ∃ d, w.dispatched = before.dispatched ++ [d] ∧ d.id = x.id ∧ d.data = x.slice.read array) ↔
      ∀ x ∈ xs, x.Safe rs := by
  refine ⟨fun h => safe_of_kept hsplit fun array hlen => (h array hlen).1, fun hxs array hlen => ?_⟩
  subst hlen
  rw [buildAll_of_safe hxs]
  refine ⟨rfl, fun i x hx rx o ho => ⟨?_, ?_⟩⟩
  · rw [getElem?_map, hx, Option.map_some, ← ho.tx, ← ho.id, ← ho.data, ← ho.isVariable, ← ho.sealer, o.built]
  · intro before sourceNode sub fits hup hcut hfits
    refine (sendToNode_completes hrs hup hcut hfits).mono fun w hw => ?_
    obtain ⟨d, hd, hid, hdata, -⟩ := hw
    exact ⟨d, hd, hid.trans ho.id, hdata.trans ho.data⟩

namespace Sample

theorem copies_splits : Splits copies := fun _ _ _ _ hne => ⟨_, if_neg hne⟩

def pair (off cap : Nat) (hcap : 2 ≤ cap) (hin : off + cap ≤ 4) : BufferedSend 4 where
  cfg := node 1 1 16 (some labelSealer)
  id := transferID
  slice := ⟨off, 2, cap, hcap, hin⟩
  isVariable := false
  sealer := some labelSealer

def pairShard (data : Bytes) (i : UInt32) : Fragment :=
  { transferID, index := i, total := 2, payload := aad transferID i 2 ++ data }

def pairScheme : Scheme := { dataShards := 1, parityShards := 1, originalLen := 2 }

def pairPayload (a b : UInt8) : Outgoing (streamer 2) copies where
  tx := node 1 1 16 (some labelSealer)
  id := transferID
  data := [a, b]
  isVariable := false
  hybrid := false
  pq := false
  sealer := some labelSealer
  frags := [pairShard [a, b] 0, pairShard [a, b] 1]
  sc := pairScheme
  size := size_coded
  short := by simp
  built := rfl
  opens := undoes_labelSealer
  few := by simp

end Sample

open Sample in
theorem callers_array_kept_pair :
    (buildAll copies [1, 2, 3, 4] [pair 0 2 (by decide) (by decide), pair 2 2 (by decide) (by decide)]).1
      = [1, 2, 3, 4] ∧
    Completes (sendToNode small transferID [pairShard [3, 4] 0, pairShard [3, 4] 1] "sender" pairScheme 16)
      (streamer 2) copies .new fun w =>
      ∃ d, w.dispatched = [d] ∧ d.id = transferID ∧ d.data = [3, 4] := by
  have hsafe : ∀ x ∈ [pair 0 2 (by decide) (by decide), pair 2 2 (by decide) (by decide)], x.Safe copies := by
    intro x hx
    rcases mem_pair.mp hx with rfl | rfl
    · exact .inl rfl
    · exact .inl rfl
  obtain ⟨harray, hsent⟩ := (callers_array_kept copies_lawful copies_splits _).mpr hsafe [1, 2, 3, 4] rfl
  refine ⟨harray, ?_⟩
  exact (hsent 1 _ rfl (streamer 2) (pairPayload 3 4) ⟨rfl, rfl, rfl, rfl, rfl⟩).2 .new "sender" 16 small rfl
    (by decide) (by decide)

open Sample in
/-- The slice of the first two bytes of four has the last two as its spare capacity. Its parity shard is written
    there, over the payload of the next call, which is then received as a copy of the first. --/
theorem next_payload_overwritten :
    ∃ x y : BufferedSend 4, x.slice.read [1, 2, 3, 4] = [1, 2] ∧ y.slice.read [1, 2, 3, 4] = [3, 4] ∧
    (buildAll copies [1, 2, 3, 4] [x]).1 = [1, 2, 1, 2] ∧ ∃ frags sc, (buildAll copies [1, 2, 3, 4] [x, y]).2[1]? =
      some (.ok (frags, sc)) ∧
      Completes (sendToNode small transferID frags "sender" sc 16) (streamer 2) copies .new fun w =>
        ∃ d, w.dispatched = [d] ∧ d.id = y.id ∧ d.data = [1, 2] := by
  refine ⟨pair 0 4 (by decide) (by decide), pair 2 2 (by decide) (by decide), rfl, rfl, rfl, _, _, rfl, ?_⟩
  refine (sendToNode_completes copies_lawful (o := pairPayload 1 2) rfl (by decide) (by decide)).mono fun w hw => ?_
  obtain ⟨d, hd, hid, hdata, -⟩ := hw
  exact ⟨d, hd, hid, hdata⟩

end SyncSwarm.Transfer
