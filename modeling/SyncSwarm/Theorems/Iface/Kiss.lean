import SyncSwarm.Iface.Kiss

/-! What comes out of a stream of KISS frames. A reader is in one of three modes, and every byte takes it
    from one to the next. -/

namespace SyncSwarm.Iface
open Lib List

/-- Where a reader is: before a delimiter, in a frame, or behind an escape in it. --/
inductive Mode where
  | skip
  | body (frame : Bytes)
  | escape (frame : Bytes)

namespace Mode
variable {m : Mode} {frame : Bytes}

def next : Mode → UInt8 → Mode × List Bytes
  | skip, b => if b = kissFEND then (body [], []) else (skip, [])
  | body frame, b =>
    if b = kissFEND then if frame.length = 0 then (body frame, []) else (skip, [frame.tail])
    else if b = kissFESC then (escape frame, [])
    else (body (frame ++ [b]), [])
  | escape frame, b => (body (frame ++ [kissUnescape b]), [])

def feed (m : Mode) : Bytes → Mode × List Bytes
  | [] => (m, [])
  | b :: r => (((m.next b).1.feed r).1, (m.next b).2 ++ ((m.next b).1.feed r).2)

theorem feed_append (m : Mode) (r s : Bytes) :
    m.feed (r ++ s) = (((m.feed r).1.feed s).1, (m.feed r).2 ++ ((m.feed r).1.feed s).2) := by
  induction r generalizing m with
  | nil => rfl
  | cons b r ih => simp only [cons_append, feed, ih, append_assoc]

/-! ### The two loops -/

theorem fesc_ne_fend : kissFESC ≠ kissFEND := by decide

theorem feed_body (frame r : Bytes) :
    ((body frame).feed r).2 = (readFrame frame r).elim [] fun out => out.1 :: (skip.feed out.2).2 := by
  fun_induction readFrame frame r with
  | case1 => rfl
  | case2 frame r hlen ih => simp [feed, next, hlen, ih]
  | case3 frame r hlen => simp [feed, next, hlen]
  | case4 frame => simp [feed, next, fesc_ne_fend]
  | case5 frame n r _ ih => simp [feed, next, fesc_ne_fend, ih]
  | case6 frame b r hfend hfesc ih => simp [feed, next, hfend, hfesc, ih]

theorem feed_skip (r : Bytes) : (skip.feed r).2 = (skipToFrame r).elim [] fun rest => ((body []).feed rest).2 := by
  induction r with
  | nil => rfl
  | cons b r ih =>
    rw [feed, next, skipToFrame]
    split
    · rfl
    · exact ih

theorem readAll_eq (r : Bytes) : readAll r = (skip.feed r).2 := by
  fun_induction readAll r with
  | case1 r hnone =>
    rw [feed_skip]
    cases hstart : skipToFrame r with
    | none => rfl
    | some rest =>
      rw [readKISSFrame, hstart] at hnone
      simp [feed_body, show readFrame [] rest = none from hnone]
  | case2 r frame rest hsome ih =>
    obtain ⟨start, hstart, hframe⟩ := Option.bind_eq_some_iff.mp hsome
    rw [feed_skip, hstart, Option.elim_some, feed_body, hframe, Option.elim_some, ih]

/-! ### A frame -/

theorem feed_escape (frame : Bytes) (b : UInt8) : (body frame).feed (kissEscape b) = (body (frame ++ [b]), []) := by
  rw [kissEscape]
  split
  · next hb => rw [hb]; rfl
  · split
    · next hb => rw [hb]; rfl
    · next hfend hfesc => simp [feed, next, hfend, hfesc]

theorem feed_payload (frame payload : Bytes) :
    (body frame).feed (payload.flatMap kissEscape) = (body (frame ++ payload), []) := by
  induction payload generalizing frame with
  | nil => simp [feed]
  | cons b payload ih => simp [feed_append, feed_escape, ih]

theorem fend_notMem_escape (b : UInt8) : kissFEND ∉ kissEscape b := by
  rw [kissEscape]
  split
  · decide
  · split
    · decide
    · next hfend _ => exact fun hmem => hfend (mem_singleton.mp hmem).symm

theorem feed_noise {r : Bytes} (h : kissFEND ∉ r) : skip.feed r = (skip, []) := by
  induction r with
  | nil => rfl
  | cons b r ih =>
    obtain ⟨hb, hr⟩ := not_or.mp (mt mem_cons.mpr h)
    simp [feed, next, Ne.symm hb, ih hr]

def Ready (m : Mode) : Prop := m = skip ∨ m = body []

theorem Ready.feed_encode (h : m.Ready) (payload : Bytes) : m.feed (kissEncode payload) = (skip, [payload]) := by
  have hopen : m.feed [kissFEND, kissCmdData] = (body [kissCmdData], []) := by
    rcases h with rfl | rfl
    · rfl
    · rfl
  rw [kissEncode, show kissFEND :: kissCmdData :: payload.flatMap kissEscape ++ [kissFEND] =
    [kissFEND, kissCmdData] ++ (payload.flatMap kissEscape ++ [kissFEND]) from rfl, feed_append, hopen,
      feed_append, feed_payload]
  rfl

/-- A frame goes by as noise, whether its delimiters end a frame, begin one, or are taken for escaped bytes. --/
theorem ready_feed_encode (m : Mode) (payload : Bytes) : (m.feed (kissEncode payload)).1.Ready := by
  have hcode : kissEncode payload = kissFEND :: ((kissCmdData :: payload).flatMap kissEscape ++ [kissFEND]) := rfl
  cases m with
  | skip => exact .inl (congrArg Prod.fst (Ready.feed_encode (.inl rfl) payload))
  | body frame =>
    cases frame with
    | nil => exact .inl (congrArg Prod.fst (Ready.feed_encode (.inr rfl) payload))
    | cons b frame =>
      have hnoise : kissFEND ∉ (kissCmdData :: payload).flatMap kissEscape := by
        intro hmem
        obtain ⟨c, -, hc⟩ := mem_flatMap.mp hmem
        exact fend_notMem_escape c hc
      rw [hcode, feed, show ((body (b :: frame)).next kissFEND).1 = skip from rfl, feed_append, feed_noise hnoise]
      exact .inr rfl
  | escape frame =>
    rw [hcode, feed, show ((escape frame).next kissFEND).1 = body (frame ++ [kissUnescape kissFEND]) from rfl,
      feed_append, feed_payload]
    simp [feed, next, Ready]

theorem Ready.feed_frames (h : m.Ready) (payloads : List Bytes) :
    (m.feed (payloads.flatMap kissEncode)).2 = payloads := by
  induction payloads generalizing m with
  | nil => rfl
  | cons payload payloads ih => simp [feed_append, h.feed_encode, ih (.inl rfl)]

end Mode

/-- Frames are read back as they were encoded; and behind any noise, all of them but the first at most. --/
theorem kiss_frames_read (payloads : List Bytes) : readAll (payloads.flatMap kissEncode) = payloads ∧
    ∀ noise, ∃ junk, readAll (noise ++ payloads.flatMap kissEncode) = junk ++ payloads ∨
      readAll (noise ++ payloads.flatMap kissEncode) = junk ++ payloads.tail := by
  refine ⟨(Mode.readAll_eq _).trans (Mode.Ready.feed_frames (.inl rfl) payloads), fun noise => ?_⟩
  rw [Mode.readAll_eq, Mode.feed_append]
  cases payloads with
  | nil => exact ⟨_, .inl rfl⟩
  | cons payload payloads =>
    rw [flatMap_cons, Mode.feed_append, (Mode.ready_feed_encode _ payload).feed_frames, ← append_assoc]
    exact ⟨_, .inr rfl⟩

end SyncSwarm.Iface
