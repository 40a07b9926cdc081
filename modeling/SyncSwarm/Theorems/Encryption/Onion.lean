import SyncSwarm.Encryption.Onion
import SyncSwarm.Theorems.Protocol.Codec

/-! Peeling an onion hop by hop. -/

namespace SyncSwarm.Encryption
open Lib Protocol List

/-! ### Layers -/

namespace OnionLayer
variable {l : OnionLayer} {b : Bytes}

/-- What the lengths before the fields can tell, of strings as Go has them. --/
structure Proper (l : OnionLayer) : Prop where
  nextAddr : IsGoString l.nextAddr ∧ (strBytes l.nextAddr).length < 4294967296
  nextNode : IsGoString l.nextNode ∧ (strBytes l.nextNode).length < 4294967296
  inner : l.inner.length < 4294967296

theorem takeField_lenBytes (h : b.length < 4294967296) (rest : Bytes) :
    takeField (lenBytes b ++ rest) = .ok (b, rest) := by
  have hn : (u32 (lenBytes b ++ rest)).toNat = b.length := by
    rw [lenBytes, append_assoc, u32_be32]
    exact UInt32.toNat_ofNat_of_lt' h
  have hdrop : (lenBytes b ++ rest).drop 4 = b ++ rest := by
    rw [lenBytes, append_assoc]
    exact drop_left' (length_be32 _)
  have hlong : ¬(lenBytes b ++ rest).length < 4 := by simp [lenBytes]
  simp only [takeField, if_neg hlong, hn, hdrop]
  rw [if_neg (by simp), take_left, drop_left]

theorem unmarshal_marshal (h : l.Proper) : unmarshal l.marshalBinary = .ok l := by
  have hinner := takeField_lenBytes h.inner []
  rw [append_nil] at hinner
  simp only [marshalBinary, unmarshal, append_assoc, takeField_lenBytes h.nextAddr.2, takeField_lenBytes h.nextNode.2,
    hinner, bind, Except.bind, pure, Except.pure, goString_strBytes h.nextAddr.1, goString_strBytes h.nextNode.1]
  obtain ⟨isFinal, nextAddr, nextNode, inner⟩ := l
  cases isFinal with
  | false | true => rfl

theorem proper_of_length (haddr : IsGoString l.nextAddr) (hnode : IsGoString l.nextNode)
    (h : l.marshalBinary.length < 4294967296) : l.Proper := by
  simp only [marshalBinary, lenBytes, length_cons, length_append, length_be32] at h
  exact ⟨⟨haddr, by omega⟩, ⟨hnode, by omega⟩, by omega⟩

/-- A payload whose length takes more than 32 bits to tell comes out empty when the low 32 are zero. --/
theorem unmarshal_wrapped (h : UInt32.ofNat b.length = 0) : unmarshal (last b).marshalBinary = .ok (last []) := by
  have hzero : takeField (lenBytes b) = .ok ([], b) := by
    have hn : u32 (lenBytes b) = 0 := by rw [lenBytes, u32_be32, h]
    have hdrop : (lenBytes b).drop 4 = b := drop_left' (length_be32 _)
    have hlong : ¬(lenBytes b).length < 4 := by simp [lenBytes]
    simp only [takeField, if_neg hlong, hn, hdrop]
    rfl
  have hnone : ∀ rest, takeField (lenBytes (strBytes "") ++ rest) = .ok ([], rest) := takeField_lenBytes (by decide)
  simp only [marshalBinary, last, unmarshal, append_assoc, hnone, hzero, bind, Except.bind, pure, Except.pure]
  rfl

end OnionLayer

/-! ### Ideal sealing -/

namespace Hybrid
variable {H : Hybrid} {hops : List OnionHop} {keys blobs : List Bytes} {payload : Bytes}

/-- Hybrid sealing as it is meant to be: what opens was sealed to the key, and to no other. --/
structure Ideal (H : Hybrid) : Prop where
  seals : ∀ n sk plain aad, ∃ c, H.sealHybrid n (H.publicKey sk) plain aad = .ok c
  opens : ∀ {n sk plain aad c}, H.sealHybrid n (H.publicKey sk) plain aad = .ok c → H.openHybrid sk c aad = .ok plain
  authentic : ∀ {sk c aad plain}, H.openHybrid sk c aad = .ok plain →
    ∃ n, H.sealHybrid n (H.publicKey sk) plain aad = .ok c
  recipient : ∀ {n n' pk pk' plain plain' aad aad' c}, H.sealHybrid n pk plain aad = .ok c →
    H.sealHybrid n' pk' plain' aad' = .ok c → pk = pk'
  /-- Nor is anything sealed that differs from it in one byte. -/
  sparse : ∀ {n n' pk pk' plain plain' aad aad' c k x}, H.sealHybrid n pk plain aad = .ok c →
    H.sealHybrid n' pk' plain' aad' = .ok (c.set k x) → c.set k x = c
  grows : ∀ {n pk plain aad c}, H.sealHybrid n pk plain aad = .ok c → plain.length ≤ c.length

/-- What is sealed to a key opens with it, and has not become shorter. --/
structure Inverts (H : Hybrid) : Prop where
  opens : ∀ {n sk plain aad c}, H.sealHybrid n (H.publicKey sk) plain aad = .ok c → H.openHybrid sk c aad = .ok plain
  grows : ∀ {n pk plain aad c}, H.sealHybrid n pk plain aad = .ok c → plain.length ≤ c.length

theorem Ideal.inverts (hH : H.Ideal) : H.Inverts := ⟨hH.opens, hH.grows⟩

/-- The bytes are a seal to the key. --/
def SealedTo (H : Hybrid) (pk b : Bytes) : Prop := ∃ n plain, H.sealHybrid n pk plain [] = .ok b

theorem error_of_not_ok {α : Type} {x : Except String α} (h : ∀ a, x ≠ .ok a) : ∃ e, x = .error e := by
  cases x with
  | error e => exact ⟨e, rfl⟩
  | ok a => exact absurd rfl (h a)

theorem Ideal.peel_error (hH : H.Ideal) {sk b : Bytes}
    (h : ∀ n plain, H.sealHybrid n (H.publicKey sk) plain [] ≠ .ok b) :
    ∃ e, H.peelOnion sk b = .error e := by
  apply error_of_not_ok
  intro layer hpeel
  obtain ⟨plain, hopen, -⟩ := bind_eq_ok.mp hpeel
  obtain ⟨n, hseal⟩ := hH.authentic hopen
  exact h n plain hseal

theorem Ideal.peel_other (hH : H.Ideal) {pk sk b : Bytes} (h : H.SealedTo pk b) (hne : H.publicKey sk ≠ pk) :
    ∃ e, H.peelOnion sk b = .error e := by
  obtain ⟨n, plain, hseal⟩ := h
  exact hH.peel_error fun n' plain' hseal' => hne (hH.recipient hseal' hseal)

theorem Ideal.peel_modified (hH : H.Ideal) {pk b : Bytes} (h : H.SealedTo pk b) (sk : Bytes) {k : Nat} {x : UInt8}
    (hne : b.set k x ≠ b) :
    ∃ e, H.peelOnion sk (b.set k x) = .error e := by
  obtain ⟨n, plain, hseal⟩ := h
  exact hH.peel_error fun n' plain' hseal' => hne (hH.sparse hseal hseal')

theorem Inverts.peel_sealed (hH : H.Inverts) {n : Nat} {sk b : Bytes} {l : OnionLayer}
    (h : H.sealHybrid n (H.publicKey sk) l.marshalBinary [] = .ok b) (hl : l.Proper) : H.peelOnion sk b = .ok l :=
  bind_eq_ok.mpr ⟨_, hH.opens h, OnionLayer.unmarshal_marshal hl⟩

/-! ### Onions -/

/-- The hops have the public keys of these private ones. --/
def Keyed (H : Hybrid) (hops : List OnionHop) (keys : List Bytes) : Prop :=
  hops.map (·.pubKey) = keys.map fun sk => some (H.publicKey sk)

theorem Keyed.drop (h : H.Keyed hops keys) (i : Nat) : H.Keyed (hops.drop i) (keys.drop i) := by
  rw [Keyed, map_drop, h, map_drop]

theorem Keyed.cons {hop : OnionHop} {sk : Bytes} (h : H.Keyed (hop :: hops) (sk :: keys)) :
    hop.pubKey = some (H.publicKey sk) :=
  (List.cons.inj h).1

theorem wrap_ok (draw : Nat) (payload : Bytes) (hH : H.Ideal) (hne : hops ≠ []) (hkeys : H.Keyed hops keys) :
    ∃ b, H.wrap draw payload hops = .ok b := by
  induction hops generalizing keys with
  | nil => exact absurd rfl hne
  | cons hop rest ih =>
    cases keys with
    | nil => cases hkeys
    | cons sk keys =>
      cases rest with
      | nil =>
        rw [wrap, hkeys.cons]
        exact hH.seals draw sk _ []
      | cons next rest =>
        obtain ⟨inner, hinner⟩ := ih (cons_ne_nil _ _) (hkeys.drop 1)
        obtain ⟨b, hb⟩ := hH.seals (draw + (next :: rest).length) sk (OnionLayer.toward next inner).marshalBinary []
        rw [wrap, hkeys.cons]
        exact ⟨b, bind_eq_ok.mpr ⟨inner, hinner, hb⟩⟩

theorem buildOnion_eq_wrap (draw : Nat) (payload : Bytes) (hne : hops ≠ []) (hkeys : H.Keyed hops keys) :
    H.buildOnion draw hops payload = H.wrap draw payload hops := by
  have hkeyed : hops.any (·.pubKey.isNone) = false := by
    rw [any_eq_false]
    intro hop hhop
    have hmem : hop.pubKey ∈ keys.map fun sk => some (H.publicKey sk) := hkeys ▸ mem_map_of_mem hhop
    obtain ⟨sk, -, hsk⟩ := mem_map.mp hmem
    rw [← hsk]
    simp
  rw [buildOnion, if_neg (fun h => hne (length_eq_zero_iff.mp h)), hkeyed]
  rfl

theorem isGoString_empty : IsGoString "" := by decide

/-- The name and the address are strings as Go has them, of lengths that a layer can tell. --/
def Named (hop : OnionHop) : Prop :=
  (IsGoString hop.addr ∧ (strBytes hop.addr).length < 4294967296) ∧ IsGoString hop.nodeID ∧
    (strBytes hop.nodeID).length < 4294967296

theorem proper_last (h : payload.length < 4294967296) : (OnionLayer.last payload).Proper :=
  ⟨⟨isGoString_empty, show (strBytes "").length < _ by decide⟩,
    ⟨isGoString_empty, show (strBytes "").length < _ by decide⟩, h⟩

end Hybrid

/-- For the path from each hop on `BuildOnion` succeeds, with a blob that is sealed to the hop's key. The key peels
    it to exactly the address and the name of the next hop and the blob for the path from there, if that is shorter
    than 2^32 bytes, or, at the last hop, to the payload, if that is. No other key peels it, and no key peels it
    with a byte changed. --/
theorem onion_peels {H : Hybrid} (hH : H.Ideal) (draw : Nat) {hops : List OnionHop} {keys : List Bytes}
    (payload : Bytes) (hkeys : H.Keyed hops keys) (hnames : ∀ hop ∈ hops, Hybrid.Named hop) (i : Nat) (sk : Bytes)
    (hsk : keys[i]? = some sk) :
    ∃ b, H.buildOnion draw (hops.drop i) payload = .ok b ∧ H.SealedTo (H.publicKey sk) b ∧
      (i + 1 = hops.length → payload.length < 4294967296 →
        H.peelOnion sk b = .ok { isFinal := true, inner := payload }) ∧
      (∀ next, hops[i + 1]? = some next → ∃ inner, H.buildOnion draw (hops.drop (i + 1)) payload = .ok inner ∧
        (inner.length < 4294967296 →
          H.peelOnion sk b =
            .ok { isFinal := false, nextAddr := next.addr, nextNode := next.nodeID, inner := inner })) ∧
      (∀ other, H.publicKey other ≠ H.publicKey sk → ∃ e, H.peelOnion other b = .error e) ∧
      ∀ other k x, b.set k x ≠ b → ∃ e, H.peelOnion other (b.set k x) = .error e := by
  have hlength : hops.length = keys.length := by rw [← length_map, hkeys, length_map]
  obtain ⟨hi, rfl⟩ := List.getElem?_eq_some_iff.mp hsk
  have hpath : H.Keyed (hops[i] :: hops.drop (i + 1)) (keys[i] :: keys.drop (i + 1)) := by
    rw [← drop_eq_getElem_cons, ← drop_eq_getElem_cons]
    exact hkeys.drop i
  rw [drop_eq_getElem_cons (hlength ▸ hi), Hybrid.buildOnion_eq_wrap draw payload (cons_ne_nil _ _) hpath]
  have hrefused : ∀ {b}, H.SealedTo (H.publicKey keys[i]) b →
      (∀ other, H.publicKey other ≠ H.publicKey keys[i] → ∃ e, H.peelOnion other b = .error e) ∧
      ∀ other k x, b.set k x ≠ b → ∃ e, H.peelOnion other (b.set k x) = .error e :=
    fun hsealed =>
      ⟨fun _ hother => hH.peel_other hsealed hother, fun other _ _ hset => hH.peel_modified hsealed other hset⟩
  cases hrest : hops.drop (i + 1) with
  | nil =>
    obtain ⟨b, hb⟩ := hH.seals draw keys[i] (OnionLayer.last payload).marshalBinary []
    rw [Hybrid.wrap, hpath.cons]
    refine ⟨b, hb, ⟨_, _, hb⟩, fun _ hshort => hH.inverts.peel_sealed hb (Hybrid.proper_last hshort),
      fun next hnext => ?_,
      hrefused ⟨_, _, hb⟩⟩
    have hlt := (List.getElem?_eq_some_iff.mp hnext).1
    have hle := drop_eq_nil_iff.mp hrest
    omega
  | cons hop rest =>
    have hlt : i + 1 < hops.length := Nat.lt_of_not_le fun hle => by rw [drop_eq_nil_of_le hle] at hrest; cases hrest
    have hinside := hrest ▸ hkeys.drop (i + 1)
    obtain ⟨inner, hinner⟩ := Hybrid.wrap_ok draw payload hH (cons_ne_nil hop rest) hinside
    obtain ⟨b, hb⟩ := hH.seals (draw + (hop :: rest).length) keys[i] (OnionLayer.toward hop inner).marshalBinary []
    rw [Hybrid.wrap, hpath.cons, Hybrid.buildOnion_eq_wrap draw payload (cons_ne_nil hop rest) hinside]
    refine ⟨b, bind_eq_ok.mpr ⟨inner, hinner, hb⟩, ⟨_, _, hb⟩,
      fun hlast => by omega, fun next hnext => ⟨inner, hinner, fun hshort => ?_⟩,
      hrefused ⟨_, _, hb⟩⟩
    obtain rfl : hop = next := by
      rw [drop_eq_getElem_cons hlt] at hrest
      exact (List.cons.inj hrest).1.symm.trans (Option.some.inj ((getElem?_eq_getElem hlt).symm.trans hnext))
    obtain ⟨haddr, hnode⟩ := hnames hop (mem_of_getElem? hnext)
    exact hH.inverts.peel_sealed hb ⟨haddr, hnode, hshort⟩

/-! ### A sample -/

namespace Sample

def framed (b : Bytes) : Bytes := b.flatMap (fun x => [1, x]) ++ [0]

/-- Everything twice, the key before it: a change of one byte is seen, and so is another key. --/
def twofold : Hybrid where
  publicKey sk := sk
  sealHybrid _ pk plain aad := .ok ((framed pk ++ framed aad ++ plain) ++ (framed pk ++ framed aad ++ plain))
  openHybrid sk c aad :=
    let once := c.take (c.length / 2)
    let head := framed sk ++ framed aad
    if c = once ++ once ∧ once.take head.length = head then .ok (once.drop head.length)
    else .error "encryption: message authentication failed"

theorem framed_inj {b b' r r' : Bytes} (h : framed b ++ r = framed b' ++ r') : b = b' ∧ r = r' := by
  induction b generalizing b' with
  | nil =>
    cases b' with
    | nil => exact ⟨rfl, (List.cons.inj h).2⟩
    | cons x b' => simp [framed] at h
  | cons x b ih =>
    cases b' with
    | nil => simp [framed] at h
    | cons x' b' =>
      obtain ⟨-, h⟩ := List.cons.inj h
      obtain ⟨hx, h⟩ := List.cons.inj h
      obtain ⟨hb, hr⟩ := ih h
      exact ⟨by rw [hx, hb], hr⟩

theorem twice_inj {x y : Bytes} (h : x ++ x = y ++ y) : x = y := by
  have hlen := congrArg List.length h
  rw [length_append, length_append] at hlen
  exact (append_inj h (by omega)).1

theorem take_twice (x : Bytes) : (x ++ x).take ((x ++ x).length / 2) = x := by
  have hlen : (x ++ x).length / 2 = x.length := by
    rw [length_append]
    omega
  rw [hlen, take_left]

theorem set_twice {x y : Bytes} {k : Nat} {v : UInt8} (h : (x ++ x).set k v = y ++ y) : (x ++ x).set k v = x ++ x := by
  have hlen := congrArg List.length h
  rw [length_set, length_append, length_append] at hlen
  have hhalf : x.length = y.length := by omega
  have hxy : x = y := by
    rw [set_append] at h
    split at h
    · exact (append_inj h (by rw [length_set, hhalf])).2
    · exact (append_inj h hhalf).1
  rw [h, hxy]

theorem twofold_ideal : twofold.Ideal where
  seals n sk plain aad := ⟨_, rfl⟩
  opens {n sk plain aad c} h := by
    obtain rfl := Except.ok.inj h
    simp only [twofold, take_twice]
    rw [if_pos ⟨trivial, take_left⟩, drop_left]
  authentic {sk c aad plain} h := by
    simp only [twofold] at h
    split at h
    · rename_i hsealed
      have hplain := Except.ok.inj h
      have honce := take_append_drop (framed sk ++ framed aad).length (c.take (c.length / 2))
      rw [hsealed.2, hplain] at honce
      refine ⟨0, ?_⟩
      show Except.ok ((framed sk ++ framed aad ++ plain) ++ (framed sk ++ framed aad ++ plain)) = _
      rw [honce, ← hsealed.1]
    · cases h
  recipient {n n' pk pk' plain plain' aad aad' c} h h' := by
    have hone := twice_inj (Except.ok.inj (h.trans h'.symm))
    rw [append_assoc, append_assoc] at hone
    exact (framed_inj hone).1
  sparse {n n' pk pk' plain plain' aad aad' c k x} h h' := by
    obtain rfl := Except.ok.inj h
    exact set_twice (Except.ok.inj h').symm
  grows {n pk plain aad c} h := by
    obtain rfl := Except.ok.inj h
    simp only [length_append]
    omega

def path : List OnionHop :=
  [{ nodeID := "relay", addr := "r:1", pubKey := some [1] }, { nodeID := "dest", addr := "d:1", pubKey := some [2] }]

theorem path_keyed : twofold.Keyed path [[1], [2]] := rfl

theorem path_names : ∀ hop ∈ path, Hybrid.Named hop := by
  unfold Hybrid.Named
  decide

end Sample

theorem onion_peels_relay : ∃ blob inner, Sample.twofold.buildOnion 0 Sample.path [7, 8, 9] = .ok blob ∧
    Sample.twofold.peelOnion [1] blob =
      .ok { isFinal := false, nextAddr := "d:1", nextNode := "dest", inner := inner } ∧
    Sample.twofold.peelOnion [2] inner = .ok { isFinal := true, inner := [7, 8, 9] } := by
  have hpeels := onion_peels Sample.twofold_ideal 0 [7, 8, 9] Sample.path_keyed Sample.path_names
  obtain ⟨blob, hblob, -, -, hpeel, -⟩ := hpeels 0 [1] rfl
  obtain ⟨inner, hinner, -, hpeel', -⟩ := hpeels 1 [2] rfl
  obtain ⟨inner', hinner', hpeel⟩ := hpeel _ rfl
  cases hinner.symm.trans hinner'
  have hshort : inner.length < 4294967296 := by
    have h : (Sample.twofold.buildOnion 0 (Sample.path.drop 1) [7, 8, 9]).toOption.any
        (·.length < 4294967296) := by decide +kernel
    rw [hinner] at h
    exact of_decide_eq_true h
  exact ⟨blob, inner, hblob, hpeel hshort, hpeel' rfl (by decide)⟩

/-- The destination of a payload of 2^32 bytes gets an empty one. --/
theorem onion_wraps :
    Sample.twofold.Ideal ∧ (Sample.twofold.buildOnion 0 [{ nodeID := "dest", addr := "d:1", pubKey := some [2] }]
    (List.replicate 4294967296 0) >>= Sample.twofold.peelOnion [2]) = .ok { isFinal := true, inner := [] } := by
  refine ⟨Sample.twofold_ideal, bind_eq_ok.mpr ?_⟩
  obtain ⟨b, hb⟩ := Sample.twofold_ideal.seals 0 [2] (OnionLayer.last (List.replicate 4294967296 0)).marshalBinary []
  have hlength : UInt32.ofNat (List.replicate 4294967296 (0 : UInt8)).length = 0 := by
    rw [length_replicate]
    rfl
  exact ⟨b, hb, bind_eq_ok.mpr ⟨_, Sample.twofold_ideal.opens hb, OnionLayer.unmarshal_wrapped hlength⟩⟩

end SyncSwarm.Encryption
