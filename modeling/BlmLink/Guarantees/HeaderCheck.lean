import BlmLink.Guarantees.StreamReassembly

/-!
# Which headers the receiver accepts

`ClientTcp::sendMsg` refuses flags other than 0 and 1, so every header it makes has valid
flags (`sent_header_valid`). `onDataRead` checks the length of a header and nothing else:
`ClientMsg::isValid` has no caller, and `decodeMsg` treats every flag that is not 0 as 1.
A stream is read as it should be if and only if every complete frame that the loop comes
to has valid flags (`only_valid_iff`); a frame with the encrypt flag 2 reaches
`processMsg` (`invalid_flag_processed`).
-/
namespace BlmLink.Guarantees.HeaderCheck

open BlmLink.Lib BlmLink.Source

/-- Flags that `isValid` accepts and a length of at most 16 MiB. -/
def Acceptable (msg : ClientMsg) : Prop :=
  msg.isValid = true ∧ 0 ≤ msg.len.toInt ∧ msg.len.toInt ≤ maxLen

/-- The unmasked header at the front of `recved`. -/
def header (rc4key recved : Bytes) : ClientMsg :=
  .ofBytes (rc4buf rc4key (recved.take ClientMsg.size))

/-- A header that is not acceptable stands at the front of `recved`, with its whole body if
the length has any. -/
structure BadFrame (rc4key recved : Bytes) : Prop where
  complete : ClientMsg.size ≤ recved.length
  body : 0 ≤ (header rc4key recved).len.toInt → (header rc4key recved).len.toInt ≤ maxLen →
    ClientMsg.size + (header rc4key recved).len.toNat ≤ recved.length
  bad : ¬ Acceptable (header rc4key recved)

section
variable {σ : Type} (rcv : Receiver) (process : σ → Delivered → σ × Option Stop)

/-- The frames that `onDataRead` hands to `decodeMsg`, over all chunks. -/
def taken (s : σ) (chunks : List Bytes) : List (ClientMsg × Bytes) :=
  (Framer.feed (frameReader rcv.rc4key) (Framer.noting (deliver rcv process)) (s, []) []
    chunks).state.2

/-- Where the frame loop comes to in a stream: all frames before were processed with
answer 0. -/
abbrev Comes (s : σ) (stream : Bytes) (s' : σ) (recved : Bytes) : Prop :=
  Framer.Comes (frameReader rcv.rc4key) (deliver rcv process) s stream s' recved

/-- Only frames with acceptable headers reach `processMsg`; at any other one `onDataRead`
returns nonzero and `processMsg` is not called again. -/
structure OnlyValid (s : σ) (chunks : List Bytes) : Prop where
  reached : ∀ frame cont, frame ∈ taken rcv process s chunks →
    rcv.decode frame.1.compress frame.1.encrypt frame.2 = .ok cont → Acceptable frame.1
  refused : ∀ s' recved, Comes rcv process s chunks.flatten s' recved →
    BadFrame rcv.rc4key recved → ∃ eno, eno ≠ 0 ∧
      (readChunks rcv process s [] chunks).stop = some (.returned eno) ∧
      (readChunks rcv process s [] chunks).state = s'

/-- Every complete frame of an accepted length that the loop comes to has valid flags. -/
def FlagsValid (s : σ) (chunks : List Bytes) : Prop :=
  ∀ s' recved msg body rest, Comes rcv process s chunks.flatten s' recved →
    nextFrame rcv.rc4key recved = .frame (msg, body) rest → msg.isValid = true

variable {rcv process}

theorem readChunks_comes {s s' : σ} {chunks : List Bytes} {recved : Bytes}
    (comes : Comes rcv process s chunks.flatten s' recved) :
    (readChunks rcv process s [] chunks).state = (onDataRead rcv process s' [] recved).state ∧
      (readChunks rcv process s [] chunks).stop = (onDataRead rcv process s' [] recved).stop := by
  have whole := Framer.feed_eq_drain (frameReader rcv.rc4key) (deliver rcv process) s [] chunks rfl
  rw [List.nil_append, comes.drain_eq] at whole
  rw [readChunks_eq_feed]
  exact ⟨whole.1, whole.2.1⟩

theorem mem_taken {s : σ} {chunks : List Bytes} {frame : ClientMsg × Bytes} :
    frame ∈ taken rcv process s chunks ↔ ∃ s' recved rest,
      Comes rcv process s chunks.flatten s' recved ∧
      nextFrame rcv.rc4key recved = .frame frame rest := by
  have whole := Framer.feed_eq_drain (frameReader rcv.rc4key) (Framer.noting (deliver rcv process))
    (s, []) [] chunks rfl
  rw [taken, whole.1, List.nil_append, Framer.mem_noted]
  simp only [List.not_mem_nil, false_or]
  exact Iff.rfl

/-- A length out of range ends the loop with -1, before anything is processed. -/
theorem onDataRead_refused {s : σ} {recved : Bytes}
    (failed : nextFrame rcv.rc4key recved = .fail (.returned (-1))) :
    onDataRead rcv process s [] recved = ⟨s, recved, some (.returned (-1))⟩ := by
  rw [onDataRead, List.nil_append, Framer.drain_unfold]
  rw [show (frameReader rcv.rc4key).next recved = .fail (.returned (-1)) from failed]

/-- A body that does not decode ends the loop with a fault. -/
theorem onDataRead_undecoded {s : σ} {recved : Bytes} {msg : ClientMsg} {body rest : Bytes}
    {reason : Fault} (framed : nextFrame rcv.rc4key recved = .frame (msg, body) rest)
    (undecoded : rcv.decode msg.compress msg.encrypt body = .error reason) :
    (onDataRead rcv process s [] recved).stop = some (.fault reason) := by
  have handled : deliver rcv process s (msg, body) = (s, some (.fault reason)) := by
    rw [deliver, undecoded]
  rw [onDataRead, List.nil_append, Framer.drain_unfold]
  rw [show (frameReader rcv.rc4key).next recved = .frame (msg, body) rest from framed]
  simp only [handled]

/-- What the loop makes of a bad frame: it refuses the length, or takes the frame. -/
theorem badFrame_next {rc4key recved : Bytes} (bad : BadFrame rc4key recved) :
    nextFrame rc4key recved = .fail (.returned (-1)) ∨
      ∃ msg body rest, nextFrame rc4key recved = .frame (msg, body) rest ∧ msg.isValid = false := by
  obtain ⟨complete, whole, bad⟩ := bad
  unfold header at whole bad
  unfold nextFrame
  rw [if_neg (Nat.not_lt.mpr complete)]
  dsimp only
  by_cases outOfRange : (ClientMsg.ofBytes (rc4buf rc4key (recved.take ClientMsg.size))).len.toInt < 0 ∨
      (maxLen : Int) < (ClientMsg.ofBytes (rc4buf rc4key (recved.take ClientMsg.size))).len.toInt
  · exact .inl (if_pos outOfRange)
  · have low := Int.not_lt.mp fun negative => outOfRange (.inl negative)
    have high := Int.not_lt.mp fun large => outOfRange (.inr large)
    rw [if_neg outOfRange, if_neg (Nat.not_lt.mpr (whole low high))]
    refine .inr ⟨_, _, _, rfl, ?_⟩
    cases valid : (ClientMsg.ofBytes (rc4buf rc4key (recved.take ClientMsg.size))).isValid with
    | false => rfl
    | true => exact absurd ⟨valid, low, high⟩ bad

theorem badFrame_of_invalid {rc4key recved : Bytes} {msg : ClientMsg} {body rest : Bytes}
    (framed : nextFrame rc4key recved = .frame (msg, body) rest) (invalid : msg.isValid = false) :
    BadFrame rc4key recved := by
  obtain ⟨complete, same, _⟩ := nextFrame_frame _ _ _ _ _ framed
  have front : header rc4key recved = msg := same.symm
  refine ⟨by omega, fun _ _ => ?_, fun acceptable => ?_⟩
  · rw [front]
    exact complete
  · rw [front, Acceptable, invalid] at acceptable
    exact absurd acceptable.1 (by simp)

end

/-- For every receiver, every client state and every stream in any chunks: the receiver
takes exactly the acceptable headers if and only if no complete frame that the loop comes
to has other flags than 0 and 1. -/
theorem only_valid_iff {σ : Type} (rcv : Receiver) (process : σ → Delivered → σ × Option Stop)
    (s : σ) (chunks : List Bytes) :
    OnlyValid rcv process s chunks ↔ FlagsValid rcv process s chunks := by
  constructor
  · intro only s' recved msg body rest comes framed
    by_contra wrong
    have invalid := Bool.eq_false_iff.mpr wrong
    cases decoded : rcv.decode msg.compress msg.encrypt body with
    | ok cont =>
      have acceptable := only.reached (msg, body) cont
        (mem_taken.mpr ⟨s', recved, rest, comes, framed⟩) decoded
      exact wrong acceptable.1
    | error reason =>
      obtain ⟨eno, _, returned, _⟩ :=
        only.refused s' recved comes (badFrame_of_invalid framed invalid)
      rw [(readChunks_comes comes).2, onDataRead_undecoded framed decoded] at returned
      cases returned
  · intro valid
    constructor
    · intro frame cont member _
      obtain ⟨s', recved, rest, comes, framed⟩ := mem_taken.mp member
      obtain ⟨_, _, inRange, _⟩ := nextFrame_frame _ _ frame.1 frame.2 _ framed
      exact ⟨valid s' recved frame.1 frame.2 rest comes framed, by omega, by omega⟩
    · intro s' recved comes bad
      rcases badFrame_next bad with failed | ⟨msg, body, rest, framed, invalid⟩
      · obtain ⟨state, stop⟩ := readChunks_comes comes
        rw [onDataRead_refused failed] at state stop
        exact ⟨-1, by decide, stop, state⟩
      · rw [valid s' recved msg body rest comes framed] at invalid
        cases invalid

/-- Whatever `sendMsg` puts on the wire has a header with valid flags. -/
theorem sent_header_valid (libs : Libs) (keys : Keys) (ctx : CallCtx) (msgid : CInt)
    (mt st compressType encryptType : Int) (data head body : Bytes) (sent : Sent)
    (ran : ClientTcp.sendMsg libs keys ctx msgid mt st compressType encryptType data = .ok sent)
    (bufs : sent.bufs = [head, body]) : (header keys.rc4.val head).isValid = true := by
  unfold ClientTcp.sendMsg at ran
  split at ran
  · cases ran
    cases bufs
  next flags =>
    obtain ⟨encd, _, ran⟩ := bind_ok ran
    cases ran
    cases bufs
    rw [header, List.take_of_length_le (by simp), rc4buf_rc4buf, ClientMsg.ofBytes_toBytes]
    have compress : compressType = 0 ∨ compressType = 1 := by omega
    have encrypt : encryptType = 0 ∨ encryptType = 1 := by omega
    rcases compress with rfl | rfl <;> rcases encrypt with rfl | rfl <;> rfl

/-- An empty body of type (0, 3) with the encrypt flag 2. -/
def flagTwo : ClientMsg := { st := 3, mt := 0, compress := 0, encrypt := 2, id := 1, len := 0 }

/-- The frame is decoded and handed to `processMsg`. -/
theorem invalid_flag_processed :
    ¬ ∀ (libs : Libs) (keys : Keys) (sign : CharSign) (rctx : CallCtx)
      (answer : List Delivered → Int) (chunks : List Bytes),
      OnlyValid (StreamReassembly.peer libs keys sign rctx) (StreamReassembly.record answer) []
        chunks := by
  intro claim
  have only := claim StreamReassembly.hiLibs BodyRoundTrip.sampleKeys .signed
    BodyRoundTrip.sampleCtx (fun _ => 0)
    [rc4buf BodyRoundTrip.sampleKeys.rc4.val flagTwo.toBytes]
  have framed := StreamReassembly.nextFrame_encoded BodyRoundTrip.sampleKeys.rc4.val flagTwo [] []
    rfl (by decide)
  have reached := only.reached (flagTwo, []) [] (mem_taken.mpr ⟨_, _, [], .here _ _, framed⟩) rfl
  exact absurd reached.1 (by decide)

end BlmLink.Guarantees.HeaderCheck
