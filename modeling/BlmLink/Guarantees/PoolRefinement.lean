import BlmLink.Source.ProConPool
import Mathlib

/-!
# `ProConPool`: one token for a nonempty pool, and a FIFO queue

`available` is a single token. `tokens_exact` says where it is in every reachable
state: with the semaphore or with the one consumer that passed it while there are
items, nowhere while there are none. `fifo_order` is the refinement to the plain
queue. Both follow from one inversion of the step function (`next_change`).
-/
namespace BlmLink.Guarantees.PoolRefinement

open BlmLink.Lib BlmLink.Source BlmLink.Source.ProConPool

variable {ι α : Type}

/-- One token is due while there are items. -/
def due (p : Pool α) : Nat := if p.data = [] then 0 else 1

/-- What `add` and `addAll` do to the pool. -/
structure Puts (p : Pool α) (items : List α) (p' : Pool α) : Prop where
  data : p'.data = p.data ++ items
  sz : p'.sz = p.sz + BitVec.ofNat 32 items.length
  token : p'.available + due p = p.available + due p'

/-- What a consumer that holds the token does to the pool. -/
structure Takes (p : Pool α) (items : List α) (p' : Pool α) : Prop where
  data : p.data = items ++ p'.data
  sz : p.sz = BitVec.ofNat 32 p.data.length → p'.sz = BitVec.ofNat 32 p'.data.length
  token : p'.available = p.available + due p'

theorem puts_add (p : Pool α) (product : α) : Puts p [product] (p.add product) := by
  cases empty : p.data with
  | nil => constructor <;> simp [Pool.add, Pool.post, due, empty]
  | cons => constructor <;> simp [Pool.add, due, empty]

theorem puts_addAll (p : Pool α) (initems : List α) : Puts p initems (p.addAll initems) := by
  cases empty : p.data with
  | nil =>
    cases initems with
    | nil => constructor <;> simp [Pool.addAll, due, empty]
    | cons => constructor <;> simp [Pool.addAll, Pool.post, due, empty]
  | cons => constructor <;> simp [Pool.addAll, due, empty]

theorem takes_takeFront {p p' : Pool α} {ret : α} (took : p.takeFront = .ok (ret, p')) :
    Takes p [ret] p' := by
  unfold Pool.takeFront at took
  split at took
  · cases took
  next front rest split =>
    cases took
    have counted : (BitVec.ofNat 32 (rest.length + 1) - 1 : CInt) = BitVec.ofNat 32 rest.length := by
      rw [BitVec.ofNat_add]
      exact BitVec.add_sub_cancel _ _
    cases rest with
    | nil => constructor <;> simp_all [due]
    | cons => constructor <;> simp_all [due, Pool.post]

theorem takes_takeAll (p : Pool α) : Takes p p.takeAll.1 p.takeAll.2 := by
  constructor <;> simp [Pool.takeAll, due]

theorem wait_some {p p' : Pool α} (passed : p.wait = some p') :
    p'.available + 1 = p.available ∧ p'.data = p.data ∧ p'.sz = p.sz := by
  unfold Pool.wait at passed
  split at passed
  · cases passed
    refine ⟨?_, rfl, rfl⟩
    dsimp only
    omega
  · cases passed

theorem wait_none {p : Pool α} (blocked : p.wait = none) : p.available = 0 := by
  unfold Pool.wait at blocked
  split at blocked
  · cases blocked
  · omega

/-- What a removal that does not wait does to the pool. -/
structure Tries (p : Pool α) (items : Option (List α)) (p' : Pool α) : Prop where
  refused : items = none → p.available = 0 ∧ p' = p
  took : ∀ taken, items = some taken → ∃ q, p.wait = some q ∧ Takes q taken p'

theorem tries_tryRemove {p p' : Pool α} {val : Option α} (returned : p.tryRemove = .ok (val, p')) :
    Tries p (val.map fun val => [val]) p' := by
  cases waited : p.wait with
  | none =>
    simp only [Pool.tryRemove, waited, Except.ok.injEq, Prod.mk.injEq] at returned
    obtain ⟨rfl, rfl⟩ := returned
    exact ⟨fun _ => ⟨wait_none waited, rfl⟩, nofun⟩
  | some q =>
    simp only [Pool.tryRemove, waited] at returned
    obtain ⟨⟨ret, rest⟩, took, returned⟩ := bind_ok returned
    cases returned
    refine ⟨nofun, ?_⟩
    rintro taken ⟨⟩
    exact ⟨q, waited, takes_takeFront took⟩

theorem tries_tryRemoveAll (p : Pool α) : Tries p p.tryRemoveAll.1 p.tryRemoveAll.2 := by
  cases waited : p.wait with
  | none =>
    simp only [Pool.tryRemoveAll, waited]
    exact ⟨fun _ => ⟨wait_none waited, rfl⟩, nofun⟩
  | some q =>
    simp only [Pool.tryRemoveAll, waited]
    refine ⟨nofun, ?_⟩
    rintro taken ⟨⟩
    exact ⟨q, waited, takes_takeAll q⟩

variable [DecidableEq ι]

/-- What one step of the system can do. -/
inductive Change (s : System ι α) : System ι α → Prop where
  | put (items : List α) (p' : Pool α) (puts : Puts s.pool items p') :
      Change s (s.record p' (.put items))
  | refused (nothing : s.pool.available = 0) : Change s s
  | grab (p p' : Pool α) (items : List α) (waited : s.pool.wait = some p)
      (takes : Takes p items p') : Change s (s.record p' (.take items))
  | call (i : ι) (op : Blocking) (idle : s.phase i = .idle) : Change s (s.setPhase i (.waiting op))
  | pass (i : ι) (op : Blocking) (p : Pool α) (waiting : s.phase i = .waiting op)
      (waited : s.pool.wait = some p) : Change s ({ s with pool := p }.setPhase i (.passed op))
  | locked (i : ι) (op : Blocking) (items : List α) (p' : Pool α) (passed : s.phase i = .passed op)
      (takes : Takes s.pool items p') : Change s ((s.record p' (.take items)).setPhase i .idle)

theorem tries_change {s : System ι α} {items : Option (List α)} {pool : Pool α}
    (tries : Tries s.pool items pool) :
    Change s (items.elim { s with pool := pool } fun taken => s.record pool (.take taken)) := by
  cases items with
  | none =>
    obtain ⟨nothing, rfl⟩ := tries.refused rfl
    exact .refused nothing
  | some taken =>
    obtain ⟨q, waited, takes⟩ := tries.took taken rfl
    exact .grab q pool taken waited takes

theorem next_change {s s' : System ι α} {e : Event ι α} (stepped : s.next e = some (.ok s')) :
    Change s s' := by
  cases e with
  | add i product =>
    simp only [System.next, Option.ite_none_right_eq_some, Option.some.injEq,
      Except.ok.injEq] at stepped
    obtain ⟨-, rfl⟩ := stepped
    exact .put _ _ (puts_add _ _)
  | addAll i initems =>
    simp only [System.next, Option.ite_none_right_eq_some, Option.some.injEq,
      Except.ok.injEq] at stepped
    obtain ⟨-, rfl⟩ := stepped
    exact .put _ _ (puts_addAll _ _)
  | tryRemove i =>
    simp only [System.next, Option.ite_none_right_eq_some, Option.some.injEq] at stepped
    obtain ⟨⟨val, pool⟩, returned, same⟩ := map_ok stepped.2
    have change := tries_change (tries_tryRemove returned)
    subst same
    cases val with
    | none => exact change
    | some val => exact change
  | tryRemoveAll i =>
    simp only [System.next, Option.ite_none_right_eq_some, Option.some.injEq,
      Except.ok.injEq] at stepped
    obtain ⟨-, rfl⟩ := stepped
    have change := tries_change (tries_tryRemoveAll s.pool)
    generalize s.pool.tryRemoveAll = outcome at change
    obtain ⟨items, pool⟩ := outcome
    cases items with
    | none => exact change
    | some items => exact change
  | call i op =>
    simp only [System.next, Option.ite_none_right_eq_some, Option.some.injEq,
      Except.ok.injEq] at stepped
    obtain ⟨idle, rfl⟩ := stepped
    exact .call i op idle
  | pass i =>
    simp only [System.next] at stepped
    split at stepped
    next op waiting =>
      cases waited : s.pool.wait with
      | none => simp [waited] at stepped
      | some p =>
        simp only [waited, Option.map_some, Option.some.injEq, Except.ok.injEq] at stepped
        subst stepped
        exact .pass i op p waiting waited
    · cases stepped
  | locked i =>
    simp only [System.next] at stepped
    split at stepped
    next passed =>
      cases took : s.pool.takeFront with
      | error reason => simp [took, Except.map] at stepped
      | ok res =>
        simp only [took, Except.map, Option.some.injEq, Except.ok.injEq] at stepped
        subst stepped
        exact .locked i _ _ _ passed (takes_takeFront took)
    next passed =>
      simp only [Option.some.injEq, Except.ok.injEq] at stepped
      subst stepped
      exact .locked i _ _ _ passed (takes_takeAll _)
    · cases stepped

/-- The system of all threads on one pool. -/
def Step : System ι α → Event ι α → System ι α → Prop := Trace.ofFallible System.next

section tokens
variable [Fintype ι]

def IsPassed (phase : Phase) : Prop := ∃ op, phase = .passed op

instance (phase : Phase) : Decidable (IsPassed phase) :=
  match phase with
  | .idle => isFalse (by rintro ⟨_, h⟩; cases h)
  | .waiting _ => isFalse (by rintro ⟨_, h⟩; cases h)
  | .passed op => isTrue ⟨op, rfl⟩

/-- The number of consumers past `available.wait` and before their locked body. -/
def passed (phase : ι → Phase) : Nat := (Finset.univ.filter fun i => IsPassed (phase i)).card

theorem passed_update (phase : ι → Phase) (i : ι) (now : Phase) :
    passed (Function.update phase i now) + (if IsPassed (phase i) then 1 else 0) =
      passed phase + (if IsPassed now then 1 else 0) := by
  have others : ∀ ph : ι → Phase, passed ph =
      (if IsPassed (ph i) then 1 else 0) +
        ∑ j ∈ Finset.univ.erase i, if IsPassed (ph j) then 1 else 0 := by
    intro ph
    rw [passed, Finset.card_filter]
    exact (Finset.add_sum_erase _ _ (Finset.mem_univ i)).symm
  have same : (∑ j ∈ Finset.univ.erase i,
        if IsPassed (Function.update phase i now j) then 1 else 0) =
      ∑ j ∈ Finset.univ.erase i, if IsPassed (phase j) then 1 else 0 := by
    apply Finset.sum_congr rfl
    intro j other
    rw [Function.update_of_ne (Finset.ne_of_mem_erase other)]
  rw [others, others phase, same, Function.update_self]
  omega

/-- The token is with the semaphore or with a consumer, exactly while it is due. -/
def Tokens (s : System ι α) : Prop := s.pool.available + passed s.phase = due s.pool

theorem due_le_one (p : Pool α) : due p ≤ 1 := by
  unfold due
  split <;> omega

omit [DecidableEq ι] in
theorem tokens_init : Tokens (System.init : System ι α) := by
  simp [Tokens, System.init, Pool.init, due, passed, IsPassed]

theorem tokens_step {s s' : System ι α} {e : Event ι α} (before : Tokens s)
    (stepped : Step s e s') : Tokens s' := by
  unfold Tokens at before
  have most := due_le_one s.pool
  cases next_change stepped with
  | put items p' puts =>
    have token := puts.token
    show p'.available + passed s.phase = due p'
    omega
  | refused => exact before
  | grab p p' items waited takes =>
    -- the token was with the semaphore, so no consumer holds it
    have token := takes.token
    have count := (wait_some waited).1
    show p'.available + passed s.phase = due p'
    omega
  | call i op idle =>
    have count := passed_update s.phase i (.waiting op)
    simp only [idle, IsPassed, reduceCtorEq, exists_false, if_false] at count
    show s.pool.available + passed (Function.update s.phase i (.waiting op)) = due s.pool
    omega
  | pass i op p waiting waited =>
    have count := passed_update s.phase i (.passed op)
    simp only [waiting, IsPassed, reduceCtorEq, exists_false, if_false, Phase.passed.injEq,
      exists_eq', if_true] at count
    obtain ⟨token, data, -⟩ := wait_some waited
    have same : due p = due s.pool := by rw [due, due, data]
    show p.available + passed (Function.update s.phase i (.passed op)) = due p
    omega
  | locked i op items p' held takes =>
    have count := passed_update s.phase i .idle
    simp only [held, IsPassed, reduceCtorEq, exists_false, if_false, Phase.passed.injEq,
      exists_eq', if_true] at count
    have token := takes.token
    show p'.available + passed (Function.update s.phase i .idle) = due p'
    omega

omit [DecidableEq ι] in
theorem passed_pos {phase : ι → Phase} {i : ι} {op : Blocking} (held : phase i = .passed op) :
    0 < passed phase := by
  refine Finset.card_pos.mpr ⟨i, ?_⟩
  rw [Finset.mem_filter]
  exact ⟨Finset.mem_univ i, op, held⟩

theorem takeFront_error {p : Pool α} {reason : Fault} (failed : p.takeFront = .error reason) :
    due p = 0 := by
  unfold Pool.takeFront at failed
  split at failed
  next empty => simp [due, empty]
  · cases failed

theorem next_no_fault {s : System ι α} (tokens : Tokens s) (e : Event ι α) (reason : Fault) :
    s.next e ≠ some (.error reason) := by
  unfold Tokens at tokens
  intro failed
  cases e with
  | add | addAll | tryRemoveAll | call => simp [System.next] at failed
  | tryRemove i =>
    simp only [System.next, Option.ite_none_right_eq_some, Option.some.injEq] at failed
    obtain ⟨-, failed⟩ := failed
    cases waited : s.pool.wait with
    | none => simp [Pool.tryRemove, waited, Except.map] at failed
    | some p =>
      cases took : p.takeFront with
      | ok res => simp [Pool.tryRemove, waited, took, bind, Except.bind, Except.map] at failed
      | error why =>
        -- a token with the semaphore means there is an item
        have empty := takeFront_error took
        obtain ⟨token, data, -⟩ := wait_some waited
        have same : due p = due s.pool := by rw [due, due, data]
        omega
  | pass i =>
    simp only [System.next] at failed
    split at failed
    · cases waited : s.pool.wait <;> simp [waited] at failed
    · cases failed
  | locked i =>
    simp only [System.next] at failed
    split at failed
    next held =>
      cases took : s.pool.takeFront with
      | ok res => simp [took, Except.map] at failed
      | error why =>
        have empty := takeFront_error took
        have holder := passed_pos held
        omega
    · cases failed
    · cases failed

/-- In every reachable state: the token count; no locked body finds `data` empty
where it takes the front; with items and no consumer past the semaphore, every
blocked consumer can go on; a refused `tryRemove` or `tryRemoveAll` leaves the
pool as it was. -/
theorem tokens_exact (events : List (Event ι α)) (s : System ι α)
    (run : Trace.Run Step System.init events s) :
    (s.pool.available + passed s.phase = if s.pool.data = [] then 0 else 1) ∧
    (∀ e reason, s.next e ≠ some (.error reason)) ∧
    (s.pool.data ≠ [] → (∀ i, ¬ IsPassed (s.phase i)) →
      ∀ i op, s.phase i = .waiting op → ∃ s', s.next (.pass i) = some (.ok s')) ∧
    (∀ pool, s.pool.tryRemove = .ok (none, pool) → pool = s.pool) ∧
    (∀ pool, s.pool.tryRemoveAll = (none, pool) → pool = s.pool) := by
  have tokens := run.invariant tokens_init tokens_step
  refine ⟨tokens, next_no_fault tokens, ?_, ?_, ?_⟩
  · intro items free i op waiting
    have nobody : passed s.phase = 0 := by
      simp [passed, free]
    have token : 0 < s.pool.available := by
      simp only [Tokens, due, if_neg items] at tokens
      omega
    refine ⟨{ s with pool := { s.pool with available := s.pool.available - 1 } }.setPhase i
      (.passed op), ?_⟩
    simp only [System.next, waiting, Pool.wait, if_pos token, Option.map_some]
  · intro pool refused
    cases waited : s.pool.wait with
    | none =>
      simp only [Pool.tryRemove, waited, Except.ok.injEq, Prod.mk.injEq, true_and] at refused
      exact refused.symm
    | some p =>
      cases took : p.takeFront <;>
        simp [Pool.tryRemove, waited, took, bind, Except.bind] at refused
  · intro pool refused
    cases waited : s.pool.wait with
    | none =>
      simp only [Pool.tryRemoveAll, waited, Prod.mk.injEq, true_and] at refused
      exact refused.symm
    | some p => simp [Pool.tryRemoveAll, waited] at refused

/-- Thread 1 waits, thread 0 adds two items, thread 1 passes and takes one. -/
def handover : List (Event (Fin 2) Nat) :=
  [.call 1 .remove, .addAll 0 [7, 8], .pass 1, .locked 1]

theorem handover_runs : ∃ s, Trace.Run Step System.init handover s ∧
    s.pool.data = [8] ∧ s.pool.available = 1 ∧ s.history = [.put [7, 8], .take [7]] := by
  refine ⟨_, .cons rfl (.cons rfl (.cons rfl (.cons rfl (.nil _)))), ?_⟩
  decide

theorem tokens_exact_handover : ∃ s, Trace.Run Step System.init handover s ∧
    s.pool.data = [8] ∧ s.pool.available + passed s.phase = 1 := by
  obtain ⟨s, run, data, -, -⟩ := handover_runs
  have tokens := (tokens_exact handover s run).1
  rw [data] at tokens
  exact ⟨s, run, data, tokens⟩

end tokens

/-- The locked bodies so far are a run of the queue, and `sz` counts the items. -/
structure Refines (s : System ι α) : Prop where
  queue : Trace.Run Fifo.Step [] s.history s.pool.data
  sz : s.pool.sz = BitVec.ofNat 32 s.pool.data.length

omit [DecidableEq ι] in
theorem refines_init : Refines (System.init : System ι α) := ⟨.nil _, rfl⟩

theorem refines_step {s s' : System ι α} {e : Event ι α} (before : Refines s)
    (stepped : Step s e s') : Refines s' := by
  cases next_change stepped with
  | put items p' puts =>
    refine ⟨before.queue.snoc puts.data, ?_⟩
    show p'.sz = BitVec.ofNat 32 p'.data.length
    rw [puts.sz, before.sz, puts.data, List.length_append, BitVec.ofNat_add]
  | refused => exact before
  | grab p p' items waited takes =>
    obtain ⟨-, data, sz⟩ := wait_some waited
    have counted : p.sz = BitVec.ofNat 32 p.data.length := by rw [sz, data, before.sz]
    exact ⟨before.queue.snoc (data.symm.trans takes.data), takes.sz counted⟩
  | call => exact ⟨before.queue, before.sz⟩
  | pass i op p waiting waited =>
    obtain ⟨-, data, sz⟩ := wait_some waited
    refine ⟨?_, ?_⟩
    · show Trace.Run Fifo.Step [] s.history p.data
      rw [data]
      exact before.queue
    · show p.sz = BitVec.ofNat 32 p.data.length
      rw [sz, data, before.sz]
  | locked i op items p' held takes =>
    exact ⟨before.queue.snoc takes.data, takes.sz before.sz⟩

/-- For every interleaving of any threads the items taken, in the order of the
locked bodies, followed by `data` are the items added. Between locked bodies `sz`
is the length of `data` as an `int`. -/
theorem fifo_order (events : List (Event ι α)) (s : System ι α)
    (run : Trace.Run Step System.init events s) :
    Fifo.taken s.history ++ s.pool.data = Fifo.added s.history ∧
    s.pool.sz = BitVec.ofNat 32 s.pool.data.length ∧
    (s.pool.data.length < 2 ^ 31 → s.pool.sz.toInt = s.pool.data.length) := by
  have refines := run.invariant refines_init refines_step
  refine ⟨Fifo.taken_append refines.queue, refines.sz, ?_⟩
  intro representable
  rw [refines.sz, BitVec.toInt_ofNat']
  exact Int.bmod_eq_of_le (by omega) (by omega)

theorem fifo_order_handover : ∃ s, Trace.Run Step System.init handover s ∧
    Fifo.taken s.history = [7] ∧ s.pool.data = [8] ∧
    Fifo.taken s.history ++ s.pool.data = Fifo.added s.history := by
  obtain ⟨s, run, data, -, history⟩ := handover_runs
  have order := (fifo_order handover s run).1
  exact ⟨s, run, by rw [history]; rfl, data, order⟩

end BlmLink.Guarantees.PoolRefinement
