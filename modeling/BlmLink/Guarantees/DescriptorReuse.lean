import BlmLink.Source.PjTcpClose

/-!
# Which descriptor the destructor of `PjTcp` closes

`pj_ioqueue_unregister` closes the descriptor, so its number is free when the destructor
closes it again. If another thread has been handed that number in between, the second close
takes its descriptor away (`reuse_hit`). In every interleaving in which nobody is handed the
number between the two closes, the first close hits the socket and the second one nothing. A
`PjTcp` that got no key closes its socket once. `destructor_closes` has all of it.
-/
namespace BlmLink.Guarantees.DescriptorReuse

open BlmLink.Lib BlmLink.Source PjTcpFds

/-- Every close of the destructor hit the socket. -/
def Own (s : PjTcpFds) : Prop := ∀ hit ∈ s.closes, hit = some s.file

/-- No close of the destructor hit a descriptor that somebody else opened: it hit the socket,
or the number was free. -/
def Safe (s : PjTcpFds) : Prop := ∀ hit ∈ s.closes, hit = some s.file ∨ hit = none

/-- Between the two closes of the destructor nobody is handed the number of the socket. -/
def NotReused (s : PjTcpFds) : Event → Prop
  | .opened fd => s.phase = .unregistered → fd ≠ s.sock
  | _ => True

/-- Files are named once, and the file of the socket is open at most under its own number. -/
structure Named (table : FdTable) (fresh sock file : Nat) : Prop where
  used : ∀ fd other, table fd = some other → other < fresh
  named : file < fresh
  place : ∀ fd, table fd = some file → fd = sock

/-- What the destructor has done. `freed` is what the number may stand for once the key has
closed the socket. -/
def Ledger (freed : Option Nat → Prop) (s : PjTcpFds) : Prop :=
  match s.phase with
  | .alive => s.table s.sock = some s.file ∧ s.closes = []
  | .unregistered =>
    if s.key then freed (s.table s.sock) ∧ s.closes = [some s.file]
    else s.table s.sock = some s.file ∧ s.closes = []
  | .destroyed =>
    if s.key then ∃ hit, freed hit ∧ s.closes = [some s.file, hit] else s.closes = [some s.file]

section table

variable {table : FdTable} {fd n : Nat} {file : Option Nat}

theorem set_same : table.set fd file fd = file := if_pos rfl

theorem set_other (differs : n ≠ fd) : table.set fd file n = table n := if_neg differs

/-- An entry of the table after a change is the new one or an old one. -/
theorem set_eq_some {other : Nat} (entry : table.set fd file n = some other) :
    (n = fd ∧ file = some other) ∨ table n = some other := by
  by_cases same : n = fd
  · rw [same, set_same] at entry
    exact .inl ⟨same, entry⟩
  · rw [set_other same] at entry
    exact .inr entry

end table

section names

variable {table : FdTable} {fresh sock file : Nat}

theorem named_opened (named : Named table fresh sock file) (fd : Nat) :
    Named (table.set fd (some fresh)) (fresh + 1) sock file where
  used := by
    intro n other entry
    rcases set_eq_some entry with ⟨_, same⟩ | old
    · rw [← Option.some.inj same]
      exact Nat.lt_succ_self fresh
    · exact Nat.lt_succ_of_lt (named.used n other old)
  named := Nat.lt_succ_of_lt named.named
  place := by
    intro n entry
    rcases set_eq_some entry with ⟨_, same⟩ | old
    · exact absurd (Option.some.inj same) (Nat.ne_of_gt named.named)
    · exact named.place n old

theorem named_freed (named : Named table fresh sock file) (fd : Nat) :
    Named (table.set fd none) fresh sock file where
  used := by
    intro n other entry
    rcases set_eq_some entry with ⟨_, none⟩ | old
    · cases none
    · exact named.used n other old
  named := named.named
  place := by
    intro n entry
    rcases set_eq_some entry with ⟨_, none⟩ | old
    · cases none
    · exact named.place n old

/-- The file of a new socket is named last. -/
theorem named_construct (used : ∀ fd other, table fd = some other → other < fresh) (fd : Nat) :
    Named (table.set fd (some fresh)) (fresh + 1) fd fresh where
  used := by
    intro n other entry
    rcases set_eq_some entry with ⟨_, same⟩ | old
    · rw [← Option.some.inj same]
      exact Nat.lt_succ_self fresh
    · exact Nat.lt_succ_of_lt (used n other old)
  named := Nat.lt_succ_self fresh
  place := by
    intro n entry
    rcases set_eq_some entry with ⟨same, _⟩ | old
    · exact same
    · exact absurd (used n fresh old) (Nat.lt_irrefl fresh)

end names

section steps

variable {s s' : PjTcpFds} {e : Event}

theorem step_cases (taken : step s e s') :
    (∃ fd, e = .opened fd ∧ s.table fd = none ∧
      s' = { s with table := s.table.set fd (some s.fresh), fresh := s.fresh + 1 }) ∨
    (∃ fd, e = .closed fd ∧ s.table fd ≠ some s.file ∧
      s' = { s with table := s.table.set fd none }) ∨
    (e = .unregister ∧ s.phase = .alive ∧
      s' = { (if s.key then s.closeSock else s) with phase := .unregistered }) ∨
    (e = .close ∧ s.phase = .unregistered ∧ s' = { s.closeSock with phase := .destroyed }) := by
  unfold step Trace.ofOption at taken
  cases e with
  | opened fd =>
    simp only [PjTcpFds.next, Option.ite_none_right_eq_some, Option.some.injEq] at taken
    exact .inl ⟨fd, rfl, taken.1, taken.2.symm⟩
  | closed fd =>
    simp only [PjTcpFds.next, Option.ite_none_right_eq_some, Option.some.injEq] at taken
    exact .inr (.inl ⟨fd, rfl, taken.1.2, taken.2.symm⟩)
  | unregister =>
    simp only [PjTcpFds.next, Option.ite_none_right_eq_some, Option.some.injEq] at taken
    exact .inr (.inr (.inl ⟨rfl, taken.1, taken.2.symm⟩))
  | close =>
    simp only [PjTcpFds.next, Option.ite_none_right_eq_some, Option.some.injEq] at taken
    exact .inr (.inr (.inr ⟨rfl, taken.1, taken.2.symm⟩))

theorem named_step (named : Named s.table s.fresh s.sock s.file) (taken : step s e s') :
    Named s'.table s'.fresh s'.sock s'.file := by
  rcases step_cases taken with ⟨fd, rfl, _, rfl⟩ | ⟨fd, rfl, _, rfl⟩ | ⟨rfl, _, rfl⟩ | ⟨rfl, _, rfl⟩
  · exact named_opened named fd
  · exact named_freed named fd
  · cases s.key with
    | true => exact named_freed named s.sock
    | false => exact named
  · exact named_freed named s.sock

theorem same_step (taken : step s e s') : s'.file = s.file ∧ s'.key = s.key := by
  rcases step_cases taken with ⟨fd, rfl, _, rfl⟩ | ⟨fd, rfl, _, rfl⟩ | ⟨rfl, _, rfl⟩ | ⟨rfl, _, rfl⟩
  · exact ⟨rfl, rfl⟩
  · exact ⟨rfl, rfl⟩
  · split <;> exact ⟨rfl, rfl⟩
  · exact ⟨rfl, rfl⟩

variable {freed : Option Nat → Prop}

/-- What others do to the table concerns the destructor between its two closes only. -/
theorem ledger_other {table : FdTable} {fresh : Nat} (ledger : Ledger freed s)
    (held : s.table s.sock = some s.file → table s.sock = some s.file)
    (between : s.phase = .unregistered → freed (s.table s.sock) → freed (table s.sock)) :
    Ledger freed { s with table := table, fresh := fresh } := by
  unfold Ledger at *
  cases phase : s.phase with
  | alive =>
    simp only [phase] at ledger ⊢
    exact ⟨held ledger.1, ledger.2⟩
  | unregistered =>
    simp only [phase] at ledger ⊢
    split at ledger
    next key =>
      rw [if_pos key]
      exact ⟨between phase ledger.1, ledger.2⟩
    next noKey =>
      rw [if_neg noKey]
      exact ⟨held ledger.1, ledger.2⟩
  | destroyed =>
    simp only [phase] at ledger ⊢
    exact ledger

theorem ledger_unregister (released : freed none) (ledger : Ledger freed s)
    (phase : s.phase = .alive) :
    Ledger freed { (if s.key then s.closeSock else s) with phase := .unregistered } := by
  unfold Ledger at ledger
  simp only [phase] at ledger
  cases key : s.key with
  | true => simp [Ledger, closeSock, key, set_same, released, ledger.1, ledger.2]
  | false => simp [Ledger, key, ledger.1, ledger.2]

theorem ledger_close (ledger : Ledger freed s) (phase : s.phase = .unregistered) :
    Ledger freed { s.closeSock with phase := .destroyed } := by
  unfold Ledger at ledger
  simp only [phase] at ledger
  cases key : s.key with
  | true =>
    simp only [key, if_true] at ledger
    simp [Ledger, closeSock, key, ledger.1, ledger.2]
  | false =>
    simp only [key, Bool.false_eq_true, if_false] at ledger
    simp [Ledger, closeSock, key, ledger.1, ledger.2]

theorem ledger_step (released : freed none) (ledger : Ledger freed s) (taken : step s e s')
    (handed : e = .opened s.sock → s.phase = .unregistered → freed (some s.fresh)) :
    Ledger freed s' := by
  rcases step_cases taken with ⟨fd, rfl, unused, rfl⟩ | ⟨fd, rfl, other, rfl⟩ | ⟨rfl, phase, rfl⟩ |
    ⟨rfl, phase, rfl⟩
  · by_cases same : s.sock = fd
    · subst same
      refine ledger_other ledger (fun held => ?_) fun phase _ => ?_
      · rw [held] at unused
        cases unused
      · rw [set_same]
        exact handed rfl phase
    · refine ledger_other ledger (fun held => ?_) fun _ freed => ?_
      · rwa [set_other same]
      · rwa [set_other same]
  · by_cases same : s.sock = fd
    · subst same
      refine ledger_other ledger (fun held => absurd held other) fun _ _ => ?_
      rwa [set_same]
    · refine ledger_other ledger (fun held => ?_) fun _ freed => ?_
      · rwa [set_other same]
      · rwa [set_other same]
  · exact ledger_unregister released ledger phase
  · exact ledger_close ledger phase

theorem safe_of_ledger (ledger : Ledger (· = none) s) : Safe s := by
  unfold Ledger at ledger
  split at ledger
  · simp [Safe, ledger.2]
  · split at ledger <;> simp [Safe, ledger.2]
  · split at ledger
    · obtain ⟨hit, rfl, closes⟩ := ledger
      simp [Safe, closes]
    · simp [Safe, ledger]

/-- With a key the last close of the destructor never hits the socket. -/
theorem own_iff_of_ledger (ledger : Ledger (· ≠ some s.file) s) :
    Own s ↔ s.key = true → s.phase ≠ .destroyed := by
  unfold Ledger at ledger
  split at ledger
  next phase => simp [Own, ledger.2, phase]
  next phase => split at ledger <;> simp [Own, ledger.2, phase]
  next phase =>
    split at ledger
    next key =>
      obtain ⟨hit, other, closes⟩ := ledger
      simp [Own, closes, other, key, phase]
    next noKey => simp [Own, ledger, noKey]

end steps

section runs

variable {table : FdTable} {fresh fd : Nat} {registered : Bool} {events : List Event}
  {s : PjTcpFds}

theorem ledger_construct (freed : Option Nat → Prop) :
    Ledger freed (construct table fresh fd registered) := by
  simp [Ledger, construct, set_same]

theorem safe_run (run : Trace.Run (Trace.Guarded step NotReused)
    (construct table fresh fd registered) events s) : Safe s := by
  refine safe_of_ledger (run.invariant (ledger_construct _) ?_)
  rintro s e s' ledger ⟨taken, free⟩
  refine ledger_step rfl ledger taken ?_
  rintro rfl phase
  exact absurd rfl (free phase)

theorem named_run (used : ∀ fd other, table fd = some other → other < fresh)
    (run : Trace.Run step (construct table fresh fd registered) events s) :
    Named s.table s.fresh s.sock s.file :=
  run.invariant (P := fun s => Named s.table s.fresh s.sock s.file) (named_construct used fd)
    fun named taken => named_step named taken

theorem own_run (used : ∀ fd other, table fd = some other → other < fresh)
    (run : Trace.Run step (construct table fresh fd registered) events s) :
    Own s ↔ registered = true → s.phase ≠ .destroyed := by
  have tracked : Named s.table s.fresh s.sock s.file ∧ s.key = registered ∧
      Ledger (· ≠ some s.file) s := by
    refine run.invariant (P := fun s => Named s.table s.fresh s.sock s.file ∧
      s.key = registered ∧ Ledger (· ≠ some s.file) s)
      ⟨named_construct used fd, rfl, ledger_construct _⟩ ?_
    rintro s e s' ⟨named, key, ledger⟩ taken
    obtain ⟨sameFile, sameKey⟩ := same_step taken
    refine ⟨named_step named taken, sameKey.trans key, ?_⟩
    rw [sameFile]
    refine ledger_step nofun ledger taken fun _ _ same => ?_
    exact absurd (Option.some.inj same) (Nat.ne_of_gt named.named)
  rw [own_iff_of_ledger tracked.2.2, tracked.2.1]

/-- The number is handed out between the two closes: the second one hits the new descriptor. -/
theorem reuse_hit (named : Named s.table s.fresh s.sock s.file) (phase : s.phase = .unregistered)
    (unused : s.table s.sock = none) :
    ∃ s', Trace.Run step s [.opened s.sock, .close] s' ∧ ¬ Safe s' := by
  let handed : PjTcpFds :=
    { s with table := s.table.set s.sock (some s.fresh), fresh := s.fresh + 1 }
  have first : step s (.opened s.sock) handed := by
    simp [step, Trace.ofOption, PjTcpFds.next, unused, handed]
  have second : step handed .close { handed.closeSock with phase := .destroyed } := by
    simp [step, Trace.ofOption, PjTcpFds.next, phase, handed]
  have hit : handed.table handed.sock = some s.fresh := set_same
  refine ⟨_, .cons first (.cons second (.nil _)), fun safe => ?_⟩
  have among : some s.fresh ∈ handed.closeSock.closes := by
    simp [closeSock, hit]
  rcases safe (some s.fresh) among with own | none
  · exact absurd (Option.some.inj own) (Nat.ne_of_gt named.named)
  · cases none

/-- In every interleaving all closes hit the socket, unless there is a key and the destructor
has closed the socket once more; as long as nobody is handed the number of the socket between
the two closes, no close hits another's descriptor; and whenever the number is free between
them, handing it out makes the second close hit the new descriptor. -/
theorem destructor_closes (table : FdTable) (fresh fd : Nat) (registered : Bool)
    (used : ∀ n file, table n = some file → file < fresh) :
    (∀ events s, Trace.Run step (construct table fresh fd registered) events s →
      (Own s ↔ registered = true → s.phase ≠ .destroyed)) ∧
    (∀ events s, Trace.Run (Trace.Guarded step NotReused) (construct table fresh fd registered)
      events s → Safe s) ∧
    ∀ events s, Trace.Run step (construct table fresh fd registered) events s →
      s.phase = .unregistered → s.table s.sock = none →
        ∃ s', Trace.Run step s [.opened s.sock, .close] s' ∧ ¬ Safe s' :=
  ⟨fun _ _ run => own_run used run, fun _ _ run => safe_run run,
    fun _ _ run phase unused => reuse_hit (named_run used run) phase unused⟩

theorem destructor_closes_other :
    ∃ s, Trace.Run (Trace.Guarded step NotReused) (construct (fun _ => none) 0 3 true)
      [.unregister, .opened 4, .close] s ∧ Safe s := by
  have run : ∃ s, Trace.Run (Trace.Guarded step NotReused) (construct (fun _ => none) 0 3 true)
      [.unregister, .opened 4, .close] s :=
    ⟨_, .cons ⟨rfl, trivial⟩ (.cons ⟨rfl, fun _ => by decide⟩ (.cons ⟨rfl, trivial⟩ (.nil _)))⟩
  obtain ⟨s, run⟩ := run
  exact ⟨s, run, (destructor_closes (fun _ => none) 0 3 true (by simp)).2.1 _ s run⟩

/-- Another thread is handed 3, the number of the socket, before the destructor closes it
again. -/
theorem reused_descriptor :
    ∃ s, Trace.Run step (construct (fun _ => none) 0 3 true) [.unregister, .opened 3, .close] s ∧
      s.file = 0 ∧ s.closes = [some 0, some 1] ∧ ¬ Own s ∧ ¬ Safe s := by
  refine ⟨_, .cons rfl (.cons rfl (.cons rfl (.nil _))), rfl, rfl, ?_, ?_⟩
  · simp [Own, closeSock, construct, set_same]
  · simp [Safe, closeSock, construct, set_same]

end runs

end BlmLink.Guarantees.DescriptorReuse
