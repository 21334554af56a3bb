import Mathlib

/-!
# Incremental frame readers

A reader looks at the front of a buffer and either asks for more input, gives up,
or takes one frame off. It is *stable* when input that arrives later cannot
change an answer already given. For a stable reader the frames handed on, and
how the run ends, depend on the concatenation of the input alone and not on how
it was cut into pieces (`feed_eq_drain`).
-/
namespace BlmLink.Lib.Framer

variable {β φ ε σ : Type}

/-- What a reader makes of a buffer. -/
inductive Next (β φ ε : Type) where
  | more
  | fail (reason : ε)
  | frame (item : φ) (rest : List β)

/-- A stable reader. Every frame takes something off the buffer. -/
structure Reader (β φ ε : Type) where
  next : List β → Next β φ ε
  shrinks : ∀ {buf item rest}, next buf = .frame item rest → rest.length < buf.length
  stable_frame : ∀ {buf item rest} (later : List β), next buf = .frame item rest →
    next (buf ++ later) = .frame item (rest ++ later)
  stable_fail : ∀ {buf reason} (later : List β), next buf = .fail reason →
    next (buf ++ later) = .fail reason

/-- Where a loop over the buffer stands: the consumer's state, the bytes left and,
when the loop was cut short, why. -/
structure Outcome (β ε σ : Type) where
  state : σ
  left : List β
  stop : Option ε

variable (reader : Reader β φ ε) (handle : σ → φ → σ × Option ε)

def drainFuel : Nat → σ → List β → Outcome β ε σ
  | 0, s, buf => ⟨s, buf, none⟩
  | fuel + 1, s, buf =>
    match reader.next buf with
    | .more => ⟨s, buf, none⟩
    | .fail reason => ⟨s, buf, some reason⟩
    | .frame item rest =>
      match handle s item with
      | (s', none) => drainFuel fuel s' rest
      | (s', some reason) => ⟨s', rest, some reason⟩

/-- Take frames off the buffer until more input is needed or the loop is cut
short. A frame is at least one element long, so the bound is never reached. -/
def drain (s : σ) (buf : List β) : Outcome β ε σ :=
  drainFuel reader handle (buf.length + 1) s buf

theorem drainFuel_enough (fuel fuel' : Nat) (s : σ) (buf : List β) (enough : buf.length < fuel)
    (enough' : buf.length < fuel') :
    drainFuel reader handle fuel s buf = drainFuel reader handle fuel' s buf := by
  induction fuel generalizing fuel' s buf with
  | zero => omega
  | succ fuel ih =>
    cases fuel' with
    | zero => omega
    | succ fuel' =>
      simp only [drainFuel]
      cases answer : reader.next buf with
      | more => rfl
      | fail reason => rfl
      | frame item rest =>
        have shorter := reader.shrinks answer
        cases handled : handle s item with
        | mk s' stop =>
          cases stop with
          | none => simpa only [handled] using ih fuel' s' rest (by omega) (by omega)
          | some reason => simp only [handled]

/-- The loop, one iteration unfolded. -/
theorem drain_unfold (s : σ) (buf : List β) :
    drain reader handle s buf =
      match reader.next buf with
      | .more => ⟨s, buf, none⟩
      | .fail reason => ⟨s, buf, some reason⟩
      | .frame item rest =>
        match handle s item with
        | (s', none) => drain reader handle s' rest
        | (s', some reason) => ⟨s', rest, some reason⟩ := by
  rw [drain, drainFuel]
  cases answer : reader.next buf with
  | more => rfl
  | fail reason => rfl
  | frame item rest =>
    have shorter := reader.shrinks answer
    cases handled : handle s item with
    | mk s' stop =>
      cases stop with
      | none =>
        simp only [handled]
        exact drainFuel_enough reader handle _ _ s' rest shorter (Nat.lt_succ_self _)
      | some reason => simp only [handled]

/-- A frame that the consumer accepts is one turn of the loop. -/
theorem drain_accept {s s' : σ} {buf rest : List β} {item : φ}
    (answer : reader.next buf = .frame item rest) (handled : handle s item = (s', none)) :
    drain reader handle s buf = drain reader handle s' rest := by
  simp only [drain_unfold reader handle s buf, answer, handled]

/-- Induction over the loop: what holds when it ends and is carried back over
each frame that the consumer accepts holds of the whole loop. -/
theorem drain_induction {P : σ → List β → Prop}
    (more : ∀ s buf, reader.next buf = .more → P s buf)
    (fail : ∀ s buf reason, reader.next buf = .fail reason → P s buf)
    (refuse : ∀ s buf item rest s' reason, reader.next buf = .frame item rest →
      handle s item = (s', some reason) → P s buf)
    (accept : ∀ s buf item rest s', reader.next buf = .frame item rest →
      handle s item = (s', none) → P s' rest → P s buf)
    (s : σ) (buf : List β) : P s buf := by
  induction size : buf.length using Nat.strongRecOn generalizing s buf with
  | ind n ih =>
    cases answer : reader.next buf with
    | more => exact more s buf answer
    | fail reason => exact fail s buf reason answer
    | frame item rest =>
      cases handled : handle s item with
      | mk s' stop =>
        cases stop with
        | none =>
          exact accept s buf item rest s' answer handled
            (ih rest.length (size ▸ reader.shrinks answer) s' rest rfl)
        | some reason => exact refuse s buf item rest s' reason answer handled

/-- The state when a loop, or one turn of it, ended: `inv` if it was not cut
short, else what `cut` says for the reason. -/
def Ends (inv : σ → Prop) (cut : σ → ε → Prop) (s : σ) : Option ε → Prop
  | none => inv s
  | some reason => cut s reason

/-- Invariant rule of the loop. -/
theorem drain_invariant {inv : σ → Prop} {cut : σ → ε → Prop}
    (round : ∀ {s} item, inv s → Ends inv cut (handle s item).1 (handle s item).2)
    (fail : ∀ {s buf reason}, inv s → reader.next buf = .fail reason → cut s reason)
    (s : σ) (buf : List β) (initially : inv s) :
    Ends inv cut (drain reader handle s buf).state (drain reader handle s buf).stop := by
  induction s, buf using drain_induction reader handle with
  | more s buf answer =>
    simp only [drain_unfold reader handle s buf, answer]
    exact initially
  | fail s buf reason answer =>
    simp only [drain_unfold reader handle s buf, answer]
    exact fail initially answer
  | refuse s buf item rest s' reason answer handled =>
    have ended := round item initially
    rw [handled] at ended
    simp only [drain_unfold reader handle s buf, answer, handled]
    exact ended
  | accept s buf item rest s' answer handled ih =>
    have ended := round item initially
    rw [handled] at ended
    rw [drain_accept reader handle answer handled]
    exact ih ended

/-- A loop that was not cut short leaves a buffer with no complete frame in it. -/
theorem drain_left (s : σ) (buf : List β) (open' : (drain reader handle s buf).stop = none) :
    reader.next (drain reader handle s buf).left = .more := by
  induction s, buf using drain_induction reader handle with
  | more s buf answer => simp [drain_unfold reader handle s buf, answer]
  | fail s buf reason answer => simp [drain_unfold reader handle s buf, answer] at open'
  | refuse s buf item rest s' reason answer handled =>
    simp [drain_unfold reader handle s buf, answer, handled] at open'
  | accept s buf item rest s' answer handled ih =>
    rw [drain_accept reader handle answer handled] at open' ⊢
    exact ih open'

/-- Later input: a loop that was cut short stays as it was, and an open one goes
on from what it had left. -/
theorem drain_append (s : σ) (buf later : List β) :
    ((drain reader handle s buf).stop = none →
      drain reader handle s (buf ++ later) =
        drain reader handle (drain reader handle s buf).state
          ((drain reader handle s buf).left ++ later)) ∧
    (∀ reason, (drain reader handle s buf).stop = some reason →
      (drain reader handle s (buf ++ later)).state = (drain reader handle s buf).state ∧
      (drain reader handle s (buf ++ later)).stop = some reason) := by
  induction s, buf using drain_induction reader handle with
  | more s buf answer => simp [drain_unfold reader handle s buf, answer]
  | fail s buf reason answer =>
    simp [drain_unfold reader handle s buf, drain_unfold reader handle s (buf ++ later), answer,
      reader.stable_fail later answer]
  | refuse s buf item rest s' reason answer handled =>
    simp [drain_unfold reader handle s buf, drain_unfold reader handle s (buf ++ later), answer,
      reader.stable_frame later answer, handled]
  | accept s buf item rest s' answer handled ih =>
    rw [drain_accept reader handle answer handled,
      drain_accept reader handle (reader.stable_frame later answer) handled]
    exact ih

section positions

/-- The loop comes to a state of the consumer and a buffer, over frames that the
consumer accepted. -/
inductive Comes : σ → List β → σ → List β → Prop where
  | here (s : σ) (buf : List β) : Comes s buf s buf
  | accept {s s' s'' : σ} {buf rest buf'' : List β} {item : φ}
      (answer : reader.next buf = .frame item rest) (handled : handle s item = (s', none))
      (later : Comes s' rest s'' buf'') : Comes s buf s'' buf''

/-- From there on the loop does what the whole loop does. -/
theorem Comes.drain_eq {s s' : σ} {buf buf' : List β} (comes : Comes reader handle s buf s' buf') :
    drain reader handle s buf = drain reader handle s' buf' := by
  induction comes with
  | here s buf => rfl
  | accept answer handled _ ih => rw [drain_accept reader handle answer handled, ih]

/-- The consumer, with a note of every frame handed to it. -/
def noting (s : σ × List φ) (item : φ) : (σ × List φ) × Option ε :=
  (((handle s.1 item).1, s.2 ++ [item]), (handle s.1 item).2)

theorem comes_ended {s s' : σ} {buf buf' : List β}
    (ended : ∀ item rest, reader.next buf ≠ .frame item rest)
    (comes : Comes reader handle s buf s' buf') : buf' = buf := by
  cases comes with
  | here => rfl
  | accept answer _ _ => exact absurd answer (ended _ _)

/-- The frames at the positions of a loop: the first one, and those of what follows when
the consumer accepts it. -/
theorem comes_frame {s : σ} {buf rest : List β} {front : φ}
    (answer : reader.next buf = .frame front rest) (item : φ) :
    (∃ s' buf' rest', Comes reader handle s buf s' buf' ∧ reader.next buf' = .frame item rest') ↔
      item = front ∨ ∃ s₁, handle s front = (s₁, none) ∧
        ∃ s' buf' rest', Comes reader handle s₁ rest s' buf' ∧
          reader.next buf' = .frame item rest' := by
  constructor
  · rintro ⟨s', buf', rest', comes, taken⟩
    cases comes with
    | here =>
      rw [answer] at taken
      cases taken
      exact .inl rfl
    | accept answer' handled later =>
      rw [answer] at answer'
      cases answer'
      exact .inr ⟨_, handled, s', buf', rest', later, taken⟩
  · rintro (rfl | ⟨s₁, handled, s', buf', rest', later, taken⟩)
    · exact ⟨s, buf, rest, .here s buf, answer⟩
    · exact ⟨s', buf', rest', .accept answer handled later, taken⟩

/-- The frames noted are those at the positions that the loop comes to. -/
theorem mem_noted (s : σ) (buf : List β) (log : List φ) (item : φ) :
    item ∈ (drain reader (noting handle) (s, log) buf).state.2 ↔
      item ∈ log ∨ ∃ s' buf' rest, Comes reader handle s buf s' buf' ∧
        reader.next buf' = .frame item rest := by
  have ended : ∀ {s : σ} {buf : List β}, (∀ item rest, reader.next buf ≠ .frame item rest) →
      ¬ ∃ s' buf' rest, Comes reader handle s buf s' buf' ∧ reader.next buf' = .frame item rest := by
    rintro s buf none ⟨s', buf', rest, comes, taken⟩
    rw [comes_ended reader handle none comes] at taken
    exact none _ _ taken
  induction s, buf using drain_induction reader handle generalizing log with
  | more s buf answer =>
    simp only [drain_unfold reader (noting handle) _ buf, answer]
    exact (or_iff_left (ended (by simp [answer]))).symm
  | fail s buf reason answer =>
    simp only [drain_unfold reader (noting handle) _ buf, answer]
    exact (or_iff_left (ended (by simp [answer]))).symm
  | refuse s buf front rest s' reason answer handled =>
    have noted : noting handle (s, log) front = ((s', log ++ [front]), some reason) := by
      rw [noting, handled]
    simp only [drain_unfold reader (noting handle) _ buf, answer, noted, List.mem_append,
      List.mem_singleton]
    rw [comes_frame reader handle answer]
    refine or_congr_right (or_iff_left ?_).symm
    rintro ⟨s₁, accepted, _⟩
    rw [handled] at accepted
    cases accepted
  | accept s buf front rest s' answer handled ih =>
    have noted : noting handle (s, log) front = ((s', log ++ [front]), none) := by
      rw [noting, handled]
    rw [drain_accept reader (noting handle) answer noted]
    refine (ih (log ++ [front])).trans ?_
    rw [List.mem_append, List.mem_singleton, or_assoc, comes_frame reader handle answer]
    refine or_congr_right (or_congr_right ?_)
    constructor
    · intro later
      exact ⟨s', handled, later⟩
    · rintro ⟨s₁, accepted, later⟩
      rw [handled] at accepted
      cases accepted
      exact later

end positions

/-- One loop for each piece of input, up to the first that is cut short. -/
def feed : σ → List β → List (List β) → Outcome β ε σ
  | s, buf, [] => ⟨s, buf, none⟩
  | s, buf, piece :: rest =>
    match drain reader handle s (buf ++ piece) with
    | ⟨s', left, none⟩ => feed s' left rest
    | outcome => outcome

/-- However the input is cut, the consumer ends in the same state for the same
reason as when all of it comes at once, and an open run leaves the same bytes. -/
theorem feed_eq_drain (s : σ) (buf : List β) (pieces : List (List β))
    (drained : reader.next buf = .more) :
    (feed reader handle s buf pieces).state =
      (drain reader handle s (buf ++ pieces.flatten)).state ∧
    (feed reader handle s buf pieces).stop =
      (drain reader handle s (buf ++ pieces.flatten)).stop ∧
    ((feed reader handle s buf pieces).stop = none →
      (feed reader handle s buf pieces).left =
        (drain reader handle s (buf ++ pieces.flatten)).left) := by
  induction pieces generalizing s buf with
  | nil => simp [feed, drain_unfold reader handle s buf, drained]
  | cons piece rest ih =>
    have append := drain_append reader handle s (buf ++ piece) rest.flatten
    have left := drain_left reader handle s (buf ++ piece)
    rw [List.flatten_cons, ← List.append_assoc, feed]
    cases outcome : drain reader handle s (buf ++ piece) with
    | mk s' left' stop =>
      simp only [outcome] at append left
      cases stop with
      | none =>
        rw [append.1 rfl]
        exact ih s' left' (left rfl)
      | some reason =>
        obtain ⟨state, stopped⟩ := append.2 reason rfl
        exact ⟨state.symm, stopped.symm, by simp⟩

end BlmLink.Lib.Framer
