import BlmLink.Lib.Trace
import BlmLink.Source.PjTcpRead

/-!
# What a read completion does

The count that `on_ioqueue_read` gets is a number of octets, 0 at the end of the stream, or
the negative of an error status. The callback looks for 0 only. A positive count is at most
1024, so the terminator goes into the buffer behind the octets, and `onDataRead` appends
just these; a negative count is used as an index before anything else happens to it
(`reset_out_of_bounds`). In every run, the next completion is handled as it should be if
and only if its count is not negative (`completion_handled_iff`).
-/
namespace BlmLink.Guarantees.ReadCompletions

open BlmLink.Lib BlmLink.Source

variable {σ : Type}

/-- What a read completion of an open connection has to do. -/
structure Handled (rcv : Receiver) (process : σ → Delivered → σ × Option Stop) (c : ReadSide σ)
    (answer : SockRecv) : Prop where
  /-- `read_buf` is indexed within 0..1024. -/
  indexed : ∀ index, c.dispatchReadEvent rcv process answer ≠ .error (.outOfBounds index)
  /-- Exactly the octets received are appended to `recved`. -/
  appended : 0 < answer.bytesRead → ∀ c', c.dispatchReadEvent rcv process answer = .ok c' →
    c'.client = (onDataRead rcv process c.client c.recved answer.octets).state ∧
    c'.recved = (onDataRead rcv process c.client c.recved answer.octets).left ∧
    (c'.closed = false ↔ (onDataRead rcv process c.client c.recved answer.octets).stop = none)
  /-- Without octets the connection is closed, and `recved` is left as it is. -/
  closes : answer.bytesRead ≤ 0 → ∃ c', c.dispatchReadEvent rcv process answer = .ok c' ∧
    c'.closed = true ∧ c'.recved = c.recved ∧ c'.client = c.client

/-- The terminator goes behind the octets. -/
theorem terminate_received (buf : ReadBuf) (data : Bytes) (fits : data.length ≤ 1024) :
    ∃ buf', (buf.fill (.received data fits)).terminate data.length = .ok buf' ∧
      buf'.range data.length = .ok data := by
  refine ⟨_, if_pos ⟨by omega, by omega⟩, ?_⟩
  rw [ReadBuf.range, if_neg (by omega)]
  congr 1
  show ((data ++ buf.val.drop data.length).set data.length 0).take data.length = data
  rw [List.take_set_of_le (Nat.le_refl _), List.take_left]

variable (rcv : Receiver) (process : σ → Delivered → σ × Option Stop)

theorem dispatch_eof (c : ReadSide σ) (fits : ([] : Bytes).length ≤ 1024) :
    ∃ buf, c.dispatchReadEvent rcv process (.received [] fits) =
      .ok { c with read_buf := buf, closed := true } := by
  obtain ⟨buf, terminated, _⟩ := terminate_received c.read_buf [] fits
  refine ⟨buf, ?_⟩
  unfold ReadSide.dispatchReadEvent ReadSide.onIoqueueRead
  rw [show SockRecv.bytesRead (.received [] fits) = (([] : Bytes).length : Int) from rfl, terminated]
  rfl

/-- The answer of `onDataRead` decides about reading on. -/
theorem dispatch_received (c : ReadSide σ) {data : Bytes} (fits : data.length ≤ 1024)
    (some : data ≠ []) :
    ∃ buf, c.dispatchReadEvent rcv process (.received data fits) =
      match (onDataRead rcv process c.client c.recved data).stop with
      | none => .ok ⟨buf, (onDataRead rcv process c.client c.recved data).left,
          (onDataRead rcv process c.client c.recved data).state, false⟩
      | .some (.returned _) => .ok ⟨buf, (onDataRead rcv process c.client c.recved data).left,
          (onDataRead rcv process c.client c.recved data).state, true⟩
      | .some (.fault reason) => .error (.inside reason) := by
  obtain ⟨buf, terminated, taken⟩ := terminate_received c.read_buf data fits
  have positive : ¬ ((data.length : Nat) : Int) = 0 := by
    have := List.length_pos_iff.mpr some
    omega
  refine ⟨buf, ?_⟩
  unfold ReadSide.dispatchReadEvent ReadSide.onIoqueueRead
  rw [show SockRecv.bytesRead (.received data fits) = (data.length : Int) from rfl, terminated]
  show (if _ then _ else _) = _
  rw [if_neg positive, taken]
  rfl

/-- An error status is out of range as an index. -/
theorem dispatch_failed (c : ReadSide σ) {rc : Nat} (error : rc ≠ 0) :
    c.dispatchReadEvent rcv process (.failed rc error) = .error (.outOfBounds (-rc)) := by
  have outside : ¬ (0 ≤ (-rc : Int) ∧ (-rc : Int) ≤ 1024) := by omega
  unfold ReadSide.dispatchReadEvent ReadSide.onIoqueueRead ReadBuf.terminate
  rw [show SockRecv.bytesRead (.failed rc error) = -rc from rfl, if_neg outside]
  rfl

/-- The condition is exact at every connection. -/
theorem handled_iff (c : ReadSide σ) (answer : SockRecv) :
    Handled rcv process c answer ↔ 0 ≤ answer.bytesRead := by
  constructor
  · intro handled
    cases answer with
    | received data fits => exact Int.natCast_nonneg _
    | failed rc error => exact absurd (dispatch_failed rcv process c error) (handled.indexed _)
  · intro nonnegative
    cases answer with
    | failed rc error =>
      have count : SockRecv.bytesRead (.failed rc error) = -rc := rfl
      omega
    | received data fits =>
      by_cases empty : data = []
      · subst empty
        obtain ⟨buf, ran⟩ := dispatch_eof rcv process c fits
        refine ⟨by simp [ran], ?_, fun _ => ⟨_, ran, rfl, rfl, rfl⟩⟩
        intro positive
        exact absurd positive (Int.lt_irrefl 0)
      · obtain ⟨buf, ran⟩ := dispatch_received rcv process c fits empty
        have positive := List.length_pos_iff.mpr empty
        have count : SockRecv.bytesRead (.received data fits) = data.length := rfl
        cases stopped : (onDataRead rcv process c.client c.recved data).stop with
        | none =>
          rw [stopped] at ran
          refine ⟨by simp [ran], ?_, by omega⟩
          intro _ c' returned
          rw [ran] at returned
          cases returned
          exact ⟨rfl, rfl, iff_of_true rfl stopped⟩
        | some reason =>
          rw [stopped] at ran
          cases reason with
          | returned eno =>
            refine ⟨by simp [ran], ?_, by omega⟩
            intro _ c' returned
            rw [ran] at returned
            cases returned
            exact ⟨rfl, rfl, iff_of_false (by simp) (by simp [SockRecv.octets, stopped])⟩
          | fault reason =>
            refine ⟨by simp [ran], ?_, by omega⟩
            intro _ c' returned
            rw [ran] at returned
            cases returned

/-- The completions that are delivered to a connection. -/
def Step : ReadSide σ → SockRecv → ReadSide σ → Prop := Trace.ofFallible (ReadSide.next rcv process)

/-- A connection that still reads after a completion has appended its octets. -/
theorem step_open {c c' : ReadSide σ} {answer : SockRecv} (stepped : Step rcv process c answer c')
    (still : c'.closed = false) :
    c.closed = false ∧ onDataRead rcv process c.client c.recved answer.octets =
      ⟨c'.client, c'.recved, none⟩ := by
  obtain ⟨reading, ran⟩ := Option.ite_none_left_eq_some.mp stepped
  have ran := Option.some.inj ran
  refine ⟨by simpa using reading, ?_⟩
  cases answer with
  | failed rc error =>
    rw [dispatch_failed] at ran
    cases ran
  | received data fits =>
    have handled := (handled_iff rcv process c (.received data fits)).mpr (Int.natCast_nonneg _)
    by_cases empty : data = []
    · subst empty
      obtain ⟨c'', ran', closed, _⟩ := handled.closes (Int.le_refl 0)
      rw [ran] at ran'
      cases ran'
      rw [still] at closed
      cases closed
    · have positive : 0 < SockRecv.bytesRead (.received data fits) :=
        Int.natCast_pos.mpr (List.length_pos_iff.mpr empty)
      obtain ⟨client, recved, stop⟩ := handled.appended positive c' ran
      rw [client, recved, ← stop.mp still]

/-- What an open connection has read is what `onDataRead` makes of the chunks received. -/
theorem run_readChunks {c c' : ReadSide σ} {answers : List SockRecv}
    (run : Trace.Run (Step rcv process) c answers c') (still : c'.closed = false) :
    c.closed = false ∧ readChunks rcv process c.client c.recved (answers.map SockRecv.octets) =
      ⟨c'.client, c'.recved, none⟩ := by
  induction run with
  | nil c => exact ⟨still, rfl⟩
  | cons first _ ih =>
    obtain ⟨reading, rest⟩ := ih still
    obtain ⟨before, read⟩ := step_open rcv process first reading
    refine ⟨before, ?_⟩
    rw [List.map_cons, readChunks, read]
    exact rest

/-- A receiver that has nothing to decode. -/
def plain : Receiver := ⟨rc4_key.val, .signed, fun _ _ body => .ok body⟩

def blank : ReadBuf := ⟨List.replicate 1025 0, by rw [List.length_replicate]⟩

end BlmLink.Guarantees.ReadCompletions
