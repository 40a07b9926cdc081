import SyncSwarm.Storage.Offline
import SyncSwarm.Lib.Lists

/-! The files are a map from node IDs and sequence numbers: a path says both, and what is read from a file is
    what was written to it. -/

namespace SyncSwarm.Storage
open Lib Protocol List Option GoMap

/-! ### Names -/

theorem hexByte_hexDigit (x : UInt8) : hexByte (hexDigit (x / 16)) (hexDigit (x % 16)) = some x := by
  have hall : ∀ i < 256, hexByte (hexDigit (UInt8.ofNat i / 16)) (hexDigit (UInt8.ofNat i % 16)) =
      some (UInt8.ofNat i) := by
    decide +kernel
  simpa using hall x.toNat x.toNat_lt

theorem hexDecode_hexString (id : Bytes) : hexDecode (hexString id).toList = some id := by
  rw [hexString, String.toList_ofList]
  induction id with
  | nil => rfl
  | cons x id ih =>
    rw [flatMap_cons, cons_append, cons_append, nil_append, hexDecode, hexByte_hexDigit, bind_some, ih, map_some]

def dirOf (id : Bytes) : Name := (hexString id).toList

theorem dirOf_inj {id id' : Bytes} (h : dirOf id = dirOf id') : id = id' := by
  have hdecode := hexDecode_hexString id
  rw [show (hexString id).toList = (hexString id').toList from h, hexDecode_hexString] at hdecode
  exact (Option.some.inj hdecode).symm

theorem offlineNodeDir_eq {id : Bytes} (h : id ≠ []) : offlineNodeDir id = [dirOf id] := by
  have hne : dirOf id ≠ [] := fun hnil => h (dirOf_inj (hnil : dirOf id = dirOf []))
  exact filter_eq_self.mpr fun name hname => decide_eq_true (mem_singleton.mp hname ▸ hne)

theorem isDigit_toDigits {n : Nat} : ∀ c ∈ Nat.toDigits 10 n, c.isDigit = true := fun _ =>
  Nat.isDigit_of_mem_toDigits (by decide) (by decide)

theorem takeWhile_blobName (n : Nat) : (blobName n).takeWhile Char.isDigit = Nat.toDigits 10 n := by
  rw [blobName, takeWhile_append_of_pos isDigit_toDigits, suffix, takeWhile_cons_of_neg (by decide), append_nil]

theorem blobName_inj {n m : Nat} (h : blobName n = blobName m) : n = m := by
  have hdigits : Nat.toDigits 10 n = Nat.toDigits 10 m := append_cancel_right h
  rw [← Nat.ofDigitChars_ten_toDigits (n := n), hdigits, Nat.ofDigitChars_ten_toDigits]

theorem scanName_blobName (seq : UInt64) : scanName (blobName seq.toNat) = some seq := by
  have hdrop : (blobName seq.toNat).dropWhile Char.isDigit = suffix := by
    rw [blobName, dropWhile_append_of_pos isDigit_toDigits]
    rfl
  rw [scanName, takeWhile_blobName, hdrop, Nat.ofDigitChars_ten_toDigits, UInt64.ofNat_toNat,
    if_pos ⟨Nat.toDigits_ne_nil, seq.toNat_lt, rfl⟩]

theorem ext_blobName (n : Nat) : ext (blobName n) = suffix := by
  have hdot : '.' ∈ blobName n := mem_append_right _ mem_cons_self
  rw [ext, if_pos hdot, blobName, reverse_append]
  rfl

/-! ### The map -/

/-- What is stored for the nodes, by sequence number. --/
abbrev Held : Type := Bytes → UInt64 → Option (Bytes × Int64)

/-- What an operation makes of it, if it is done as a whole. --/
def Held.apply (m : Held) : Op → Held
  | .save id b => fun i seq => if i = id ∧ seq = b.seq then some (b.blob, b.expiry) else m i seq
  | .delete id seq => fun i s => if i = id ∧ s = seq then none else m i s
  | .deleteNode id => fun i s => if i = id then none else m i s

/-- Nothing is stored. --/
def Held.empty : Held := fun _ _ => none

/-- The files say what is held. --/
structure Refines (fs : Files) (m : Held) : Prop where
  file : ∀ id ≠ [], ∀ seq : UInt64, fs.get? [dirOf id, blobName seq.toNat] = (m id seq).map fun e =>
    be64 e.2.toUInt64 ++ e.1
  path : ∀ p, (fs.get? p).isSome → ∃ id ≠ [], ∃ seq : UInt64, p = [dirOf id, blobName seq.toNat]
  nonempty : ∀ seq, m [] seq = none

variable {fs : Files} {m : Held}

theorem path_inj {id id' : Bytes} {seq seq' : UInt64} :
    [dirOf id, blobName seq.toNat] = [dirOf id', blobName seq'.toNat] ↔ id = id' ∧ seq = seq' := by
  constructor
  · intro h
    obtain ⟨hdir, hname⟩ := cons.inj h
    exact ⟨dirOf_inj hdir, UInt64.toNat.inj (blobName_inj (cons.inj hname).1)⟩
  · rintro ⟨rfl, rfl⟩
    rfl

theorem Refines.apply (h : Refines fs m) {op : Op} (hop : op.nodeID ≠ []) :
    Refines (Storage.apply fs op) (m.apply op) := by
  cases op with
  | save id b =>
    have hid : id ≠ [] := hop
    rw [Storage.apply, saveOffline, offlineNodeDir_eq hid, singleton_append]
    refine ⟨fun i hi seq => ?_, fun p hp => ?_, fun seq => ?_⟩
    · simp only [get?_set, path_inj, Held.apply, h.file i hi]
      split <;> rfl
    · rw [get?_set] at hp
      split at hp
      · next heq => exact ⟨id, hid, b.seq, heq⟩
      · exact h.path p hp
    · exact (if_neg fun heq => hid heq.1.symm).trans (h.nonempty seq)
  | delete id seq =>
    have hid : id ≠ [] := hop
    rw [Storage.apply, deleteOffline, offlineNodeDir_eq hid, singleton_append]
    have hget : ∀ p, (fs.delete [dirOf id, blobName seq.toNat]).get? p =
        if p = [dirOf id, blobName seq.toNat] then none else fs.get? p := by
      intro p
      split
      · next heq => rw [heq, get?_delete_self]
      · next heq => exact get?_delete_ne _ heq
    refine ⟨fun i hi seq => ?_, fun p hp => ?_, fun seq => ?_⟩
    · simp only [hget, path_inj, Held.apply, h.file i hi]
      split <;> rfl
    · rw [hget] at hp
      split at hp
      · cases hp
      · exact h.path p hp
    · exact (if_neg fun heq => hid heq.1.symm).trans (h.nonempty seq)
  | deleteNode id =>
    have hid : id ≠ [] := hop
    rw [Storage.apply, deleteOfflineNode, offlineNodeDir_eq hid]
    refine ⟨fun i hi seq => ?_, fun p hp => ?_, fun seq => ?_⟩
    · show _ = Option.map _ (if i = id then none else m i seq)
      rw [get?_filter, h.file i hi]
      by_cases heq : i = id
      · subst heq
        have hown : [dirOf i].isPrefixOf [dirOf i, blobName seq.toNat] = true :=
          List.isPrefixOf_iff_prefix.mpr ⟨[blobName seq.toNat], rfl⟩
        rw [hown, if_pos rfl]
        cases m i seq <;> rfl
      · have hother : [dirOf id].isPrefixOf [dirOf i, blobName seq.toNat] = false := by
          refine Bool.eq_false_iff.mpr fun hpre => heq ?_
          obtain ⟨rest, hrest⟩ := List.isPrefixOf_iff_prefix.mp hpre
          exact (dirOf_inj (cons.inj hrest).1).symm
        rw [hother, if_neg heq]
        cases m i seq <;> rfl
    · rw [get?_filter] at hp
      obtain ⟨data, hdata⟩ := isSome_iff_exists.mp hp
      exact h.path p (isSome_iff_exists.mpr ⟨data, (filter_eq_some_iff.mp hdata).1⟩)
    · exact (if_neg fun heq => hid heq.symm).trans (h.nonempty seq)

theorem refines_run {ops : List Op} (h : Refines fs m) (hops : ∀ op ∈ ops, op.nodeID ≠ []) :
    Refines (ops.foldl apply fs) (ops.foldl Held.apply m) := by
  induction ops generalizing fs m with
  | nil => exact h
  | cons op ops ih => exact ih (h.apply (hops op mem_cons_self)) fun op' hop => hops op' (mem_cons_of_mem op hop)

theorem refines_empty : Refines ∅ Held.empty :=
  ⟨fun _ _ _ => get?_empty _, fun p hp => (by rw [get?_empty] at hp; cases hp), fun _ => rfl⟩

/-! ### What is read back -/

theorem mem_readDir {dir : Path} {name : Name} :
    name ∈ readDir fs dir ↔ ∃ rest, (fs.get? (dir ++ name :: rest)).isSome := by
  rw [readDir, (perm_sortSlice _ _).mem_iff, mem_dedup, mem_filterMap]
  constructor
  · rintro ⟨p, hp, hname⟩
    split at hname
    next hdir =>
      obtain ⟨tail, rfl⟩ := List.isPrefixOf_iff_prefix.mp hdir
      rw [getElem?_append_right (Nat.le_refl _), Nat.sub_self] at hname
      cases tail with
      | nil => cases hname
      | cons a rest =>
        cases hname
        exact ⟨rest, mem_keys.mp hp⟩
    · cases hname
  · rintro ⟨rest, hrest⟩
    refine ⟨dir ++ name :: rest, mem_keys.mpr hrest, ?_⟩
    rw [if_pos (List.isPrefixOf_iff_prefix.mpr ⟨_, rfl⟩), getElem?_append_right (Nat.le_refl _), Nat.sub_self]
    rfl

theorem nodup_readDir (fs : Files) (dir : Path) :
    (readDir fs dir).Nodup := (perm_sortSlice _ _).nodup_iff.mpr (nodup_dedup _)

def entriesOf (fs : Files) (id : Bytes) : List OfflineBlob := (readDir fs [dirOf id]).filterMap (loadBlob fs (dirOf id))

theorem get?_pushAll (id id' : Bytes) (bs : List OfflineBlob) (out : Loaded) :
    GoMap.get? (bs.foldl (Loaded.push id) out) id' =
    if id' = id ∧ bs ≠ [] then some ((GoMap.get? out id').getD [] ++ bs) else GoMap.get? out id' := by
  induction bs generalizing out with
  | nil => simp
  | cons b bs ih =>
    rw [foldl_cons, ih, Loaded.push, get?_set]
    by_cases hid : id' = id
    · subst hid
      cases bs <;> simp
    · simp [hid]

section Load
variable (h : Refines fs m)
include h

theorem Refines.isDir_dir {dir : Name} (hdir : dir ∈ readDir fs []) :
    ∃ id ≠ [], dir = dirOf id ∧ isDir fs [dir] = true := by
  obtain ⟨rest, hrest⟩ := mem_readDir.mp hdir
  obtain ⟨id, hid, seq, hpath⟩ := h.path _ hrest
  obtain ⟨rfl, rfl⟩ := cons.inj hpath
  refine ⟨id, hid, rfl, any_eq_true.mpr ⟨_, mem_keys.mpr hrest, ?_⟩⟩
  rw [Bool.and_eq_true]
  exact ⟨List.isPrefixOf_iff_prefix.mpr ⟨_, rfl⟩, by simp⟩

theorem Refines.loadDirs {dirs : List Name} (hdirs : dirs ⊆ readDir fs []) (hnodup : dirs.Nodup) (out : Loaded)
    (id : Bytes) :
    GoMap.get? (dirs.foldl (loadDir fs) out) id =
      if dirOf id ∈ dirs ∧ entriesOf fs id ≠ [] then some ((GoMap.get? out id).getD [] ++ entriesOf fs id) else
        GoMap.get? out id := by
  induction dirs generalizing out with
  | nil => simp
  | cons dir dirs ih =>
    obtain ⟨hnew, hrest⟩ := nodup_cons.mp hnodup
    obtain ⟨id', -, rfl, hisDir⟩ := h.isDir_dir (hdirs mem_cons_self)
    have hload : loadDir fs out (dirOf id') = (entriesOf fs id').foldl (Loaded.push id') out := by
      rw [loadDir, hisDir, Bool.not_true, if_neg Bool.false_ne_true, dirOf, hexDecode_hexString]
      rfl
    rw [foldl_cons, ih (fun d hd => hdirs (mem_cons_of_mem _ hd)) hrest, hload, get?_pushAll]
    by_cases hid : id = id'
    · subst hid
      simp [hnew]
    · have hne : dirOf id ≠ dirOf id' := fun heq => hid (dirOf_inj heq)
      simp [hid, hne]

theorem Refines.loadOffline (id : Bytes) :
    GoMap.get? (Storage.loadOffline fs) id = if entriesOf fs id = [] then none else some (entriesOf fs id) := by
  rw [Storage.loadOffline, h.loadDirs (fun _ hd => hd) (nodup_readDir fs []), get?_empty]
  by_cases hnil : entriesOf fs id = []
  · simp [hnil]
  · obtain ⟨b, hb⟩ := exists_mem_of_ne_nil _ hnil
    obtain ⟨name, hname, -⟩ := mem_filterMap.mp hb
    obtain ⟨rest, hrest⟩ := mem_readDir.mp hname
    have hmem : dirOf id ∈ readDir fs [] := mem_readDir.mpr ⟨name :: rest, hrest⟩
    simp [hnil, hmem]

theorem Refines.loadBlob {id : Bytes} (hid : id ≠ []) (seq : UInt64) :
    Storage.loadBlob fs (dirOf id) (blobName seq.toNat) = (m id seq).map fun e => ⟨seq, e.1, e.2⟩ := by
  have hfile : isDir fs [dirOf id, blobName seq.toNat] = false := by
    refine any_eq_false.mpr fun p hp => ?_
    rw [Bool.and_eq_true, bne_iff_ne, not_and, not_not]
    intro hpre
    obtain ⟨id', -, seq', rfl⟩ := h.path p (mem_keys.mp hp)
    obtain ⟨rest, hrest⟩ := List.isPrefixOf_iff_prefix.mp hpre
    cases rest with
    | nil => exact hrest.symm
    | cons a rest => cases congrArg length hrest
  rw [Storage.loadBlob, hfile, ext_blobName, scanName_blobName, h.file id hid]
  cases m id seq with
  | none => rfl
  | some e =>
    have hlen : ¬(be64 e.2.toUInt64 ++ e.1).length < 8 := by rw [length_append, length_be64]; omega
    have hdrop : (be64 e.2.toUInt64 ++ e.1).drop 8 = e.1 := by rw [← length_be64 e.2.toUInt64, drop_left]
    have htake : (be64 e.2.toUInt64 ++ e.1).take 8 = be64 e.2.toUInt64 := by rw [← length_be64 e.2.toUInt64, take_left]
    simp only [Bool.false_or, bne_self_eq_false, Bool.false_eq_true, if_false, bind_some, map_some,
      if_neg hlen, hdrop, htake,
      beNat_be64, Int64.toInt64_toUInt64]

theorem Refines.name {id : Bytes} {name : Name} (hname : name ∈ readDir fs [dirOf id]) :
    id ≠ [] ∧ ∃ seq : UInt64, name = blobName seq.toNat := by
  obtain ⟨rest, hrest⟩ := mem_readDir.mp hname
  obtain ⟨id', hid, seq, hpath⟩ := h.path _ hrest
  obtain ⟨hdir, hpath⟩ := cons.inj hpath
  exact ⟨dirOf_inj hdir ▸ hid, seq, (cons.inj hpath).1⟩

theorem Refines.mem_entriesOf {id : Bytes} {b : OfflineBlob} :
    b ∈ entriesOf fs id ↔ m id b.seq = some (b.blob, b.expiry) := by
  rw [entriesOf, mem_filterMap]
  constructor
  · rintro ⟨name, hname, hb⟩
    obtain ⟨hid, seq, rfl⟩ := h.name hname
    rw [h.loadBlob hid, map_eq_some_iff] at hb
    obtain ⟨e, he, rfl⟩ := hb
    exact he
  · intro hb
    have hid : id ≠ [] := by
      rintro rfl
      cases (h.nonempty b.seq).symm.trans hb
    refine ⟨blobName b.seq.toNat, mem_readDir.mpr ⟨[], ?_⟩, ?_⟩
    · rw [singleton_append, h.file id hid, hb]
      rfl
    · rw [h.loadBlob hid, hb]
      rfl

theorem Refines.nodup_entriesOf (id : Bytes) : ((entriesOf fs id).map (·.seq)).Nodup := by
  rw [entriesOf, Nodup, pairwise_map, pairwise_filterMap]
  refine (nodup_readDir fs [dirOf id]).imp_of_mem fun hname hname' hne b hb b' hb' heq => hne ?_
  obtain ⟨hid, seq, rfl⟩ := h.name hname
  obtain ⟨-, seq', rfl⟩ := h.name hname'
  rw [h.loadBlob hid, map_eq_some_iff] at hb hb'
  obtain ⟨e, -, rfl⟩ := hb
  obtain ⟨e', -, rfl⟩ := hb'
  rw [show seq = seq' from heq]

end Load

/-- Whatever is saved and deleted, reading the files back gives for each ID what was saved last and not deleted since,
    once each, and no other ID. --/
theorem loaded_as_held {ops : List Op} (hops : ∀ op ∈ ops, op.nodeID ≠ []) (id : Bytes) :
    ∃ blobs, GoMap.get? (loadOffline (ops.foldl apply ∅)) id = (if blobs = [] then none else some blobs) ∧
      (blobs.map (·.seq)).Nodup ∧
      ∀ b, b ∈ blobs ↔ ops.foldl Held.apply Held.empty id b.seq = some (b.blob, b.expiry) :=
  have h := refines_run refines_empty hops
  ⟨_, h.loadOffline id, h.nodup_entriesOf id, fun _ => h.mem_entriesOf⟩

theorem loaded_as_held_again :
    let ops : List Op :=
  [.save [1] ⟨9, [1], 5⟩, .save [1] ⟨10, [2], 7⟩, .save [2] ⟨9, [], 0⟩, .delete [1] 10, .save [1] ⟨9, [3], -1⟩]
    GoMap.get? (loadOffline (ops.foldl apply ∅)) [1] = some [⟨9, [3], -1⟩] ∧
    ∃ blobs, GoMap.get? (loadOffline (ops.foldl apply ∅)) [1] = (if blobs = [] then none else some blobs) ∧
      (blobs.map (·.seq)).Nodup ∧ ∀ b, b ∈ blobs ↔ ops.foldl Held.apply Held.empty [1] b.seq =
        some (b.blob, b.expiry) :=
  ⟨by decide +kernel, loaded_as_held (by decide) [1]⟩

end SyncSwarm.Storage
