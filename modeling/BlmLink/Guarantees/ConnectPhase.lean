import BlmLink.Guarantees.Lifetime
import BlmLink.Source.ConnectQueue

/-!
# Connect attempts and close callbacks

`onClose` serves a failed attempt and a lost connection alike. If the last
candidate fails it calls the close callbacks although no connection was made
(`closed_unconnected`); as long as each failing attempt leaves another candidate,
or no close callback is registered, they are called only after `onConnect` was
entered since the last `connectFastest` (`close_after_connect`).

A candidate is moved by its `on_ioqueue_connect` only. That call is due exactly for
the candidates whose `pj_ioqueue_connect` returned `PJ_EPENDING`
(`candidates_pending_iff`); one that connected or failed at once stays in the list
(`candidate_stuck`).
-/
namespace BlmLink.Guarantees.ConnectPhase

open BlmLink.Lib BlmLink.Source Ownership

variable {env : Env} {c c' : BlmClient}

section log

/-- `onConnect` was entered since the last `connectFastest`. -/
def Established (log : List Entry) : Prop :=
  Between.Since .connectFastest (fun e => ∃ p current cands, e = .onConnect p current cands) log

/-- Close callbacks were called only after a connection was established. The calls
of one `callList(closeCallbacks)` follow its entry in the log. -/
def CloseCalls (log : List Entry) : Prop :=
  ∀ before cb after, log = before ++ .closeCallbacks :: .called cb none :: after →
    Established before

/-- A callback may be called next. -/
def Callable (log : List Entry) : Prop :=
  ∀ before, log = before ++ [.closeCallbacks] → Established before

variable {log : List Entry} {entry : Entry}

theorem established_snoc (established : Established log) (other : entry ≠ .connectFastest) :
    Established (log ++ [entry]) :=
  Between.since_snoc.mpr ⟨other, .inr established⟩

theorem not_established_snoc (waiting : ¬ Established log)
    (other : ∀ p current cands, entry ≠ .onConnect p current cands) :
    ¬ Established (log ++ [entry]) := by
  intro established
  rcases (Between.since_snoc.mp established).2 with ⟨p, current, cands, same⟩ | before
  · exact other p current cands same
  · exact waiting before

theorem not_established_mark (log : List Entry) : ¬ Established (log ++ [.connectFastest]) :=
  fun established => (Between.since_snoc.mp established).1 rfl

theorem callable_of_established (established : Established log) : Callable log := by
  rintro before rfl
  rcases (Between.since_snoc.mp established).2 with ⟨p, current, cands, same⟩ | before
  · cases same
  · exact before

theorem callable_snoc (log : List Entry) (other : entry ≠ .closeCallbacks) :
    Callable (log ++ [entry]) := by
  intro before same
  exact absurd (List.append_inj' same rfl).2 (by simp [other])

theorem closeCalls_snoc (calls : CloseCalls log)
    (callable : (∃ cb, entry = .called cb none) → Callable log) : CloseCalls (log ++ [entry]) := by
  intro before cb after same
  rcases List.eq_nil_or_concat' after with rfl | ⟨front, last, rfl⟩
  · have same : log ++ [entry] = (before ++ [.closeCallbacks]) ++ [.called cb none] := by
      simpa using same
    obtain ⟨start, last⟩ := List.append_inj' same rfl
    exact callable ⟨cb, List.singleton_inj.mp last⟩ before start
  · have same : log ++ [entry] = (before ++ .closeCallbacks :: .called cb none :: front) ++ [last] := by
      simpa using same
    exact calls before cb front (List.append_inj' same rfl).1

theorem callable_called (callable : Callable log) (more : List (Callback × Option Delivered)) :
    Callable (log ++ more.map fun call => .called call.1 call.2) := by
  rcases List.eq_nil_or_concat' more with rfl | ⟨front, last, rfl⟩
  · simpa using callable
  · rw [List.map_append, ← List.append_assoc]
    exact callable_snoc _ (by simp)

theorem closeCalls_called (calls : CloseCalls log) (callable : Callable log)
    (more : List (Callback × Option Delivered)) :
    CloseCalls (log ++ more.map fun call => .called call.1 call.2) := by
  induction more using List.reverseRecOn with
  | nil => simpa using calls
  | append_singleton more call ih =>
    rw [List.map_append, ← List.append_assoc]
    exact closeCalls_snoc ih fun _ => callable_called callable more

end log

/-- What calls and callbacks leave as it was, or only add to: new candidates are new
objects. -/
structure Moved (c c' : BlmClient) : Prop where
  fresh : c.objs.fresh ≤ c'.objs.fresh
  tcpCandidates : ∀ q ∈ c'.tcpCandidates, q ∈ c.tcpCandidates ∨ c.objs.fresh ≤ q
  clientTcp : ∀ q, c'.clientTcp = some q → c.clientTcp = some q
  log : c.log <+: c'.log

theorem Moved.refl (c : BlmClient) : Moved c c :=
  ⟨Nat.le_refl _, fun _ member => .inl member, fun _ current => current, List.prefix_rfl⟩

theorem Moved.trans {c₁ c₂ c₃ : BlmClient} (first : Moved c₁ c₂) (second : Moved c₂ c₃) :
    Moved c₁ c₃ := by
  refine ⟨first.fresh.trans second.fresh, ?_, fun q current =>
    first.clientTcp q (second.clientTcp q current), first.log.trans second.log⟩
  intro q member
  rcases second.tcpCandidates q member with member | later
  · exact first.tcpCandidates q member
  · exact .inr (first.fresh.trans later)

theorem moved_note (c : BlmClient) (entry : Entry) : Moved c (c.note entry) :=
  ⟨Nat.le_refl _, fun _ member => .inl member, fun _ current => current, List.prefix_append _ _⟩

theorem moved_kept (kept : Kept c c') : Moved c c' where
  fresh := Nat.le_of_eq kept.fresh.symm
  tcpCandidates := fun _ member => .inl (kept.tcpCandidates ▸ member)
  clientTcp := fun _ current => kept.clientTcp ▸ current
  log := by
    obtain ⟨more, log⟩ := kept.log
    rw [log]
    exact List.prefix_append _ _

/-- The invariant of every run: which of its two phases the client is in. -/
structure Phased (c : BlmClient) : Prop where
  inv : Inv c
  current : c.clientTcp ≠ none → Established c.log
  waiting : c.tcpCandidates ≠ [] → ¬ Established c.log

theorem phased_init : Phased .init where
  inv := inv_init
  current := by simp [BlmClient.init]
  waiting := by simp [BlmClient.init]

/-- Calling callbacks that only send. -/
theorem phased_kept (phased : Phased c) (kept : Kept c c') : Phased c' := by
  obtain ⟨more, log⟩ := kept.log
  have same : Established c'.log ↔ Established c.log := by
    rw [log]
    clear log
    induction more using List.reverseRecOn with
    | nil => simp
    | append_singleton more call ih =>
      rw [List.map_append, ← List.append_assoc, ← ih]
      constructor
      · intro established
        by_contra waiting
        exact not_established_snoc waiting (by simp) established
      · exact fun established => established_snoc established (by simp)
  refine ⟨kept.inv phased.inv, ?_, ?_⟩
  · rw [kept.clientTcp, same]
    exact phased.current
  · rw [kept.tcpCandidates, same]
    exact phased.waiting

/-- What a call or a callback that only sends preserves of the log. -/
structure Orderly (c c' : BlmClient) : Prop where
  calls : CloseCalls c.log → CloseCalls c'.log
  callable : Callable c.log → Callable c'.log

theorem orderly_kept (kept : Kept c c') (callable : Callable c.log) : Orderly c c' := by
  obtain ⟨more, log⟩ := kept.log
  constructor
  · intro calls
    rw [log]
    exact closeCalls_called calls callable more
  · intro _
    rw [log]
    exact callable_called callable more

theorem phased_disconnect (phased : Phased c) : Safe MemoryFault c.disconnect fun c' =>
    Phased c' ∧ Moved c c' ∧ c'.log = c.log ∧ c'.closeCallbacks = c.closeCallbacks := by
  have safe := safe_disconnect phased.inv.exact
  refine ⟨?_, safe.fails⟩
  intro c' returned
  have inv := (inv_disconnect phased.inv).returns returned
  obtain ⟨objs, rfl, -, fresh⟩ := safe.returns returned
  exact ⟨⟨inv, by simp, by simp⟩, ⟨Nat.le_of_eq fresh.symm, by simp, by simp, List.prefix_rfl⟩,
    rfl, rfl⟩

/-- Any call, from wherever. -/
theorem phased_call (phased : Phased c) (call : Call) :
    Safe MemoryFault (c.call env call) fun c' => Phased c' ∧ Moved c c' ∧ Orderly c c' := by
  have safe : Safe MemoryFault (c.call env call) Inv := safe_call phased.inv call
  refine ⟨?_, safe.fails⟩
  intro c' returned
  have inv := safe.returns returned
  cases call with
  | connectFastest ips port =>
    obtain ⟨objs, cands, rfl, -, later, grows⟩ :=
      (safe_connectFastest phased.inv.exact ips port).returns returned
    refine ⟨⟨inv, by simp, fun _ => not_established_mark _⟩,
      ⟨grows, fun q member => .inr (later q member), by simp, List.prefix_append _ _⟩, ?_, ?_⟩
    · exact fun calls => closeCalls_snoc calls (by simp)
    · exact fun _ => callable_snoc _ (by simp)
  | disconnect =>
    obtain ⟨phased', moved, log, -⟩ := (phased_disconnect phased).returns returned
    exact ⟨phased', moved, fun calls => log ▸ calls, fun callable => log ▸ callable⟩
  | sendMsg ctx mt st data =>
    cases current : c.clientTcp with
    | none =>
      simp only [BlmClient.call, BlmClient.send, current, Except.ok.injEq] at returned
      subst returned
      exact ⟨phased, Moved.refl c, id, id⟩
    | some p =>
      have kept := (safe_send phased.inv.exact ctx mt st data).returns returned
      have callable := callable_of_established (phased.current (by simp [current]))
      exact ⟨phased_kept phased kept, moved_kept kept, orderly_kept kept callable⟩

/-- The close callbacks, which may call anything, from just before the first. -/
theorem phased_callList (phased : Phased c) (cbs : List Callback) (replies : List Reply) :
    Safe MemoryFault (BlmClient.callList env none cbs c replies) fun ran =>
      Phased ran.client ∧ Moved c ran.client ∧
      (CloseCalls c.log → Callable c.log → CloseCalls ran.client.log ∧ Callable ran.client.log) := by
  refine callList_rule noReply_allowed (P := fun c' _ => Phased c' ∧ Moved c c' ∧
    (CloseCalls c.log → Callable c.log → CloseCalls c'.log ∧ Callable c'.log)) none cbs ?_
    ⟨phased, Moved.refl c, fun calls callable => ⟨calls, callable⟩⟩
  rintro c₁ reply left cb ⟨phased₁, moved₁, fine₁⟩
  refine Safe.foldlM ?_ ⟨phased_kept phased₁ (kept_called c₁ cb none),
    moved₁.trans (moved_note _ _), ?_⟩
  · rintro c₂ call - ⟨phased₂, moved₂, fine₂⟩
    apply (phased_call phased₂ call).imp
    rintro c₃ ⟨phased₃, moved₃, orderly⟩
    refine ⟨phased₃, moved₂.trans moved₃, ?_⟩
    intro calls callable
    obtain ⟨calls, callable⟩ := fine₂ calls callable
    exact ⟨orderly.calls calls, orderly.callable callable⟩
  · intro calls callable
    obtain ⟨calls, callable⟩ := fine₁ calls callable
    exact ⟨closeCalls_snoc calls fun _ => callable, callable_snoc _ (by simp)⟩

theorem log_callList (phased : Phased c) {cb : Callback} {cbs : List Callback}
    {replies : List Reply} {ran : Ran}
    (returned : BlmClient.callList env none (cb :: cbs) c replies = .ok ran) :
    c.log ++ [.called cb none] <+: ran.client.log := by
  cases replies with
  | nil => cases returned
  | cons reply replies =>
    unfold BlmClient.callList at returned
    obtain ⟨c₁, called, returned⟩ := bind_ok returned
    have start := phased_kept phased (kept_called c cb none)
    have looped : Safe MemoryFault
        (reply.calls.foldlM (BlmClient.call env) (c.note (.called cb none))) fun c' =>
        Phased c' ∧ Moved (c.note (.called cb none)) c' := by
      refine Safe.foldlM ?_ ⟨start, Moved.refl _⟩
      rintro c₂ call - ⟨phased₂, moved₂⟩
      apply (phased_call phased₂ call).imp
      rintro c₃ ⟨phased₃, moved₃, -⟩
      exact ⟨phased₃, moved₂.trans moved₃⟩
    obtain ⟨phased₁, moved₁⟩ := looped.returns called
    split at returned
    · cases returned
      exact moved₁.log
    · exact moved₁.log.trans ((phased_callList phased₁ cbs replies).returns returned).2.1.log

/-- Closing `p` calls no close callback too early: another candidate is left, a
connection was established, or there are none to call. -/
def FineClose (c : BlmClient) (p : Nat) : Prop :=
  (∃ q ∈ c.tcpCandidates, q ≠ p) ∨ Established c.log ∨ c.closeCallbacks = []

theorem phased_dropCandidate (phased : Phased c) (p : Nat) :
    Safe MemoryFault (c.dropCandidate p) fun c' => Phased c' ∧ Moved c c' ∧ c'.log = c.log ∧
      c'.closeCallbacks = c.closeCallbacks ∧
      ∀ q, q ∈ c'.tcpCandidates ↔ q ∈ c.tcpCandidates ∧ q ≠ p := by
  apply (safe_dropCandidate phased.inv p).imp
  rintro _ ⟨inv, objs, left, rfl, fresh, erased⟩
  have mem : ∀ q, q ∈ left ↔ q ∈ c.tcpCandidates ∧ q ≠ p := by
    intro q
    rw [erased.mem_iff, (nodup_candidates phased.inv.exact).mem_erase_iff, and_comm]
  refine ⟨⟨inv, phased.current, ?_⟩, ⟨Nat.le_of_eq fresh.symm, ?_, fun _ current => current,
    List.prefix_rfl⟩, rfl, rfl, mem⟩
  · intro some
    obtain ⟨q, member⟩ := List.exists_mem_of_ne_nil _ some
    exact phased.waiting (List.ne_nil_of_mem ((mem q).mp member).1)
  · exact fun q member => .inl ((mem q).mp member).1

theorem phased_noteClose (phased : Phased c) : Phased (c.note .closeCallbacks) where
  inv := inv_note _ phased.inv (by simp) (by simp)
  current := fun current => established_snoc (phased.current current) (by simp)
  waiting := fun some => not_established_snoc (phased.waiting some) (by simp)

/-- `callList(closeCallbacks)` calls a close callback too early, unless a connection was
established or there are none to call. -/
theorem closeCalls_callList (phased : Phased c) {replies : List Reply} {ran : Ran}
    (returned : BlmClient.callList env none c.closeCallbacks (c.note .closeCallbacks) replies =
      .ok ran)
    (calls : CloseCalls c.log) :
    CloseCalls ran.client.log ↔ Established c.log ∨ c.closeCallbacks = [] := by
  have noted : CloseCalls (c.note .closeCallbacks).log := closeCalls_snoc calls (by simp)
  constructor
  · intro after
    cases registered : c.closeCallbacks with
    | nil => exact .inr rfl
    | cons cb cbs =>
      rw [registered] at returned
      obtain ⟨rest, split⟩ := log_callList (phased_noteClose phased) returned
      have log : (c.note .closeCallbacks).log = c.log ++ [.closeCallbacks] := rfl
      rw [log] at split
      exact .inl (after c.log cb rest (by simpa using split.symm))
  · rintro (established | noCallbacks)
    · obtain ⟨-, -, fine⟩ := (phased_callList (phased_noteClose phased) _ replies).returns returned
      exact (fine noted (callable_of_established (established_snoc established (by simp)))).1
    · rw [noCallbacks] at returned
      cases returned
      exact noted

theorem phased_onClose (phased : Phased c) {p : Nat} (created : c.objs.Created p)
    (replies : List Reply) :
    Safe MemoryFault (c.onClose env p replies) fun ran =>
      Phased ran.client ∧ Moved c ran.client ∧ p ∉ ran.client.tcpCandidates ∧
      (CloseCalls c.log → (CloseCalls ran.client.log ↔ FineClose c p)) := by
  unfold BlmClient.onClose
  apply (phased_dropCandidate phased p).bind
  rintro c₁ ⟨phased₁, moved₁, log₁, same₁, mem⟩
  split
  next some =>
    obtain ⟨q, member⟩ := List.exists_mem_of_ne_nil _ some
    refine .ok ⟨phased₁, moved₁, fun there => ((mem p).mp there).2 rfl, ?_⟩
    intro calls
    exact iff_of_true (log₁ ▸ calls) (.inl ⟨q, (mem q).mp member⟩)
  next empty =>
    have none₁ : c₁.tcpCandidates = [] := not_not.mp empty
    apply (phased_disconnect phased₁).bind
    rintro c₂ ⟨phased₂, moved₂, log₂, same₂⟩
    have safe := @phased_callList env _ (phased_noteClose phased₂) c₂.closeCallbacks replies
    refine ⟨?_, safe.fails⟩
    intro ran returned
    obtain ⟨phased', moved', -⟩ := safe.returns returned
    have later : Moved c₁ ran.client := moved₂.trans ((moved_note _ _).trans moved')
    refine ⟨phased', moved₁.trans later, ?_, ?_⟩
    · intro there
      rcases later.tcpCandidates p there with old | late
      · rw [none₁] at old
        cases old
      · have grows := moved₁.fresh
        unfold Objects.Created at created
        omega
    · intro calls
      have alone : ¬ ∃ q ∈ c.tcpCandidates, q ≠ p := by
        rintro ⟨q, left⟩
        have there := (mem q).mpr left
        rw [none₁] at there
        cases there
      rw [closeCalls_callList phased₂ returned (log₂ ▸ log₁ ▸ calls), log₂, log₁, same₂, same₁]
      exact (or_iff_right alone).symm

/-- After `onConnect` and its callbacks the connection is established. -/
theorem phased_tcpOnConnect (phased : Phased c) {p : Nat} (member : p ∈ c.tcpCandidates)
    (ctx : CallCtx) (replies : List Reply) (quiet : ∀ reply ∈ replies, Quiet reply) :
    Safe MemoryFault (c.tcpOnConnect env p ctx replies) fun ran =>
      Phased ran.client ∧ ran.client.tcpCandidates = [] ∧ ran.client.clientTcp = some p ∧
      ran.client.objs.fresh = c.objs.fresh ∧ (CloseCalls c.log → CloseCalls ran.client.log) := by
  apply safe_tcpOnConnect_of phased.inv member ctx
  intro conn sent kept
  unfold BlmClient.onConnect
  apply (safe_accept (kept.inv phased.inv) (kept.tcpCandidates ▸ member)).bind
  rintro _ ⟨inv, objs, fresh, rfl⟩
  apply (safe_callList_quiet none _ inv.exact replies quiet).imp
  rintro ran ⟨called, -⟩
  have entered : Established (c.log ++ [.onConnect p c.clientTcp c.tcpCandidates]) :=
    Between.since_snoc.mpr ⟨by simp, .inl ⟨_, _, _, rfl⟩⟩
  refine ⟨phased_kept ⟨inv, fun _ => established_snoc entered (by simp), by simp [BlmClient.note]⟩
    called, called.tcpCandidates, called.clientTcp, called.fresh.trans fresh, ?_⟩
  intro calls
  refine (orderly_kept called (callable_snoc _ (by simp))).calls ?_
  exact closeCalls_snoc (closeCalls_snoc calls (by simp)) (by simp)

/-- A connection is reported on: what is left of candidates and current connection. -/
structure Reported (c : BlmClient) (p : Nat) (c' : BlmClient) : Prop where
  phased : Phased c'
  fresh : c.objs.fresh ≤ c'.objs.fresh
  tcpCandidates : ∀ q ∈ c'.tcpCandidates, (q ∈ c.tcpCandidates ∧ q ≠ p) ∨ c.objs.fresh ≤ q
  clientTcp : ∀ q, c'.clientTcp = some q → c.clientTcp = some q ∨ q = p

/-- A report on a candidate, or on the connection that it has become. -/
theorem reported_closeOrRead {ran : Ran} (phased : Phased ran.client) {p : Nat}
    (live : p ∈ ran.client.objs.live) (absent : p ∉ ran.client.tcpCandidates) (closing : Bool)
    (closeReplies : List Reply) :
    Safe MemoryFault (BlmClient.closeOrRead env ran closing p closeReplies) fun handled =>
      Reported ran.client p handled.client ∧ (FineClose ran.client p →
        CloseCalls ran.client.log → CloseCalls handled.client.log) := by
  have apart : ∀ {q}, q ∈ ran.client.tcpCandidates → q ∈ ran.client.tcpCandidates ∧ q ≠ p :=
    fun member => ⟨member, fun same => absent (same ▸ member)⟩
  unfold BlmClient.closeOrRead
  split
  · unfold BlmClient.tcpOnClose
    apply Safe.bind ((safe_deref live).bind fun _ =>
      phased_onClose phased (Lifetime.created_of_live live) closeReplies)
    rintro closed ⟨phased', moved, -, fine⟩
    refine .ok ⟨⟨phased', moved.fresh, ?_, fun q current => .inl (moved.clientTcp q current)⟩,
      fun fineClose calls => (fine calls).mpr fineClose⟩
    exact fun q member => (moved.tcpCandidates q member).imp_left apart
  · unfold BlmClient.startRead
    apply Safe.bind (P := fun c' => c' = ran.client) ((safe_deref live).bind fun _ => .ok rfl)
    rintro _ rfl
    exact .ok ⟨⟨phased, Nat.le_refl _, fun _ member => .inl (apart member),
      fun _ current => .inl current⟩, fun _ calls => calls⟩

/-- `on_ioqueue_connect` of a candidate. -/
theorem reported_connect (phased : Phased c) {p : Nat} (member : p ∈ c.tcpCandidates)
    (status : Int) (ctx : CallCtx) (replies closeReplies : List Reply)
    (quiet : ∀ reply ∈ replies, Quiet reply) :
    Safe MemoryFault (c.onIoqueueConnect env p status ctx replies closeReplies) fun handled =>
      Reported c p handled.client ∧ (CloseCalls c.log →
        (CloseCalls handled.client.log ↔ (status ≠ 0 → FineClose c p))) := by
  unfold BlmClient.onIoqueueConnect
  have live := candidate_live phased.inv member
  have created := Lifetime.created_of_live live
  split
  next failed =>
    unfold BlmClient.closeOrRead BlmClient.tcpOnClose
    rw [if_pos rfl]
    apply Safe.bind ((safe_deref live).bind fun _ => phased_onClose phased created closeReplies)
    rintro closed ⟨phased', moved, gone, fine⟩
    refine .ok ⟨⟨phased', moved.fresh, ?_, fun q current => .inl (moved.clientTcp q current)⟩, ?_⟩
    · intro q there
      refine (moved.tcpCandidates q there).imp_left ?_
      exact fun old => ⟨old, fun same => gone (same ▸ there)⟩
    · intro calls
      rw [fine calls]
      exact ⟨fun fineClose _ => fineClose, fun fineClose => fineClose failed⟩
  next succeeded =>
    apply (phased_tcpOnConnect phased member ctx replies quiet).bind
    rintro ran ⟨phased₁, none₁, current₁, fresh₁, calls₁⟩
    have live₁ : p ∈ ran.client.objs.live := clientTcp_live phased₁.inv.exact current₁
    apply (reported_closeOrRead phased₁ live₁ (by simp [none₁]) _ closeReplies).imp
    rintro handled ⟨reported, fine⟩
    refine ⟨⟨reported.phased, fresh₁ ▸ reported.fresh, ?_, ?_⟩, ?_⟩
    · intro q there
      rcases reported.tcpCandidates q there with ⟨old, -⟩ | late
      · rw [none₁] at old
        cases old
      · exact .inr (fresh₁ ▸ late)
    · intro q current
      rcases reported.clientTcp q current with same | rfl
      · exact .inr (Option.some.inj (current₁.symm.trans same)).symm
      · exact .inr rfl
    · intro calls
      have established := phased₁.current (by simp [current₁])
      refine iff_of_true (fine (.inr (.inl established)) (calls₁ calls)) ?_
      exact fun failed => absurd failed succeeded

/-- `on_ioqueue_read` of the current connection. -/
theorem reported_read (phased : Phased c) {p : Nat} (current : c.clientTcp = some p)
    (read : Option Bytes) (ctx : CallCtx) (replies closeReplies : List Reply)
    (quiet : ∀ reply ∈ replies, Quiet reply) :
    Safe MemoryFault (c.onIoqueueRead env p read ctx replies closeReplies) fun handled =>
      Reported c p handled.client ∧ (CloseCalls c.log → CloseCalls handled.client.log) := by
  have live : p ∈ c.objs.live := clientTcp_live phased.inv.exact current
  have none : c.tcpCandidates = [] := phased.inv.single (by simp [current])
  have established := phased.current (by simp [current])
  unfold BlmClient.onIoqueueRead
  split
  · exact .error (by simp [MemoryFault])
  · apply (reported_closeOrRead phased live (by simp [none]) true closeReplies).imp
    rintro handled ⟨reported, fine⟩
    exact ⟨reported, fine (.inr (.inl established))⟩
  · apply (safe_tcpOnDataRead phased.inv live _ ctx replies quiet).bind
    intro ran kept
    have phased₁ := phased_kept phased kept
    have current₁ : ran.client.clientTcp = some p := kept.clientTcp.trans current
    have none₁ : ran.client.tcpCandidates = [] := kept.tcpCandidates.trans none
    have established₁ := phased₁.current (by simp [current₁])
    apply (reported_closeOrRead phased₁ (kept.live_iff.mpr live) (by simp [none₁]) _
      closeReplies).imp
    rintro handled ⟨reported, fine⟩
    refine ⟨⟨reported.phased, kept.fresh ▸ reported.fresh, ?_, ?_⟩, ?_⟩
    · rw [← kept.tcpCandidates, ← kept.fresh]
      exact reported.tcpCandidates
    · rw [← kept.clientTcp]
      exact reported.clientTcp
    · intro calls
      refine fine (.inr (.inl established₁)) ?_
      exact (orderly_kept kept (callable_of_established established)).calls calls

section queue

variable {net : Nat → SockConnect} {s s' : ConnectQueue} {e : BlmClient.Event}

/-- The invariant of the client on its queue: `on_ioqueue_connect` was called for the
current connection and for no candidate. -/
structure Queued (s : ConnectQueue) : Prop where
  phased : Phased s.client
  candidates : ∀ q ∈ s.client.tcpCandidates, q ∉ s.completed
  current : ∀ q, s.client.clientTcp = some q → q ∈ s.completed
  created : ∀ q ∈ s.completed, s.client.objs.Created q

theorem queued_init : Queued .init where
  phased := phased_init
  candidates := by simp [ConnectQueue.init, BlmClient.init]
  current := by simp [ConnectQueue.init, BlmClient.init]
  created := by simp [ConnectQueue.init]

/-- The report on a pending connect reaches a candidate. -/
theorem connecting_candidate (queued : Queued s) {p : Nat} (connecting : s.Connecting net p) :
    p ∈ s.client.tcpCandidates := by
  obtain ⟨live, -, due⟩ := connecting
  rcases List.mem_append.mp (queued.phased.inv.exact.mem_iff.mp live) with current | member
  · exact absurd (queued.current p (Option.mem_toList.mp current)) due
  · exact member

/-- The report on a read reaches the current connection. -/
theorem reading_current (queued : Queued s) {p : Nat} (reading : s.Reading p) :
    s.client.clientTcp = some p := by
  obtain ⟨live, done⟩ := reading
  rcases List.mem_append.mp (queued.phased.inv.exact.mem_iff.mp live) with current | member
  · exact Option.mem_toList.mp current
  · exact absurd done (queued.candidates p member)

theorem queued_moved (queued : Queued s) {client : BlmClient} (phased : Phased client)
    (moved : Moved s.client client) : Queued { s with client := client } where
  phased := phased
  candidates := by
    intro q member done
    rcases moved.tcpCandidates q member with member | late
    · exact queued.candidates q member done
    · have early := queued.created q done
      unfold Objects.Created at early
      omega
  current := fun q current => queued.current q (moved.clientTcp q current)
  created := fun q done => Nat.lt_of_lt_of_le (queued.created q done) moved.fresh

theorem queued_reported (queued : Queued s) {client : BlmClient} {p : Nat}
    (created : s.client.objs.Created p) (reported : Reported s.client p client)
    {completed : List Nat} (done : ∀ q, q ∈ completed ↔ q = p ∨ q ∈ s.completed) :
    Queued ⟨client, completed⟩ where
  phased := reported.phased
  candidates := by
    intro q member completed
    rcases reported.tcpCandidates q member with ⟨old, other⟩ | late
    · exact ((done q).mp completed).elim other (queued.candidates q old)
    · rcases (done q).mp completed with rfl | before
      · exact absurd created (Nat.not_lt.mpr late)
      · exact absurd (queued.created q before) (Nat.not_lt.mpr late)
  current := by
    intro q current
    rcases reported.clientTcp q current with before | rfl
    · exact (done q).mpr (.inr (queued.current q before))
    · exact (done q).mpr (.inl rfl)
  created := by
    intro q completed
    rcases (done q).mp completed with rfl | before
    · exact Nat.lt_of_lt_of_le created reported.fresh
    · exact Nat.lt_of_lt_of_le (queued.created q before) reported.fresh

/-- Every connect attempt that fails leaves another candidate, or no close callback
is registered. -/
def LeavesOther (s : ConnectQueue) : BlmClient.Event → Prop
  | .connect p status _ _ _ => status ≠ 0 →
      (∃ q ∈ s.client.tcpCandidates, q ≠ p) ∨ s.client.closeCallbacks = []
  | _ => True

theorem handle_ok {completed : List Nat} (handled : s.handle env e completed = some (.ok s')) :
    ∃ client, s.client.next env e = some (.ok client) ∧ s' = ⟨client, completed⟩ := by
  obtain ⟨result, stepped, same⟩ := Option.map_eq_some_iff.mp handled
  cases result with
  | error reason => cases same
  | ok client =>
    cases same
    exact ⟨client, stepped, rfl⟩

theorem allUsed_ok {handled : Except Fault BlmClient.Handled}
    (used : BlmClient.allUsed handled = some (.ok c')) :
    ∃ h, handled = .ok h ∧ h.client = c' := by
  unfold BlmClient.allUsed at used
  split at used
  · cases used
  · cases used
    exact ⟨_, rfl, rfl⟩
  · cases used

/-- One event: the invariant, and exactly when it keeps the promise of the close
callbacks. -/
theorem queued_next (queued : Queued s) (stepped : s.next env net e = some (.ok s')) :
    Queued s' ∧ (CloseCalls s.client.log → (CloseCalls s'.client.log ↔ LeavesOther s e)) := by
  cases e with
  | connect p status ctx replies closeReplies =>
    obtain ⟨connecting, handled⟩ := Option.ite_none_right_eq_some.mp stepped
    obtain ⟨client, next, rfl⟩ := handle_ok handled
    have quiet := Lifetime.quiet_of_ok queued.phased.inv next
    obtain ⟨member, used⟩ := Option.ite_none_right_eq_some.mp next
    obtain ⟨h, returned, rfl⟩ := allUsed_ok used
    obtain ⟨reported, calls⟩ := (reported_connect queued.phased member status ctx replies
      closeReplies quiet).returns returned
    refine ⟨queued_reported queued (Lifetime.created_of_live connecting.1) reported
      (by simp), ?_⟩
    intro before
    rw [calls before]
    have waiting := queued.phased.waiting (List.ne_nil_of_mem member)
    simp only [LeavesOther, FineClose, waiting, false_or]
  | read p read ctx replies closeReplies =>
    obtain ⟨reading, handled⟩ := Option.ite_none_right_eq_some.mp stepped
    obtain ⟨client, next, rfl⟩ := handle_ok handled
    have quiet := Lifetime.quiet_of_ok queued.phased.inv next
    obtain ⟨-, used⟩ := Option.ite_none_right_eq_some.mp next
    obtain ⟨h, returned, rfl⟩ := allUsed_ok used
    obtain ⟨reported, calls⟩ := (reported_read queued.phased (reading_current queued reading) read
      ctx replies closeReplies quiet).returns returned
    refine ⟨queued_reported queued (Lifetime.created_of_live reading.1) reported ?_, ?_⟩
    · intro q
      constructor
      · exact .inr
      · rintro (rfl | done)
        · exact reading.2
        · exact done
    · exact fun before => iff_of_true (calls before) trivial
  | call call =>
    obtain ⟨client, next, rfl⟩ := handle_ok stepped
    obtain ⟨phased, moved, orderly⟩ :=
      (@phased_call env _ queued.phased call).returns (Option.some.inj next)
    exact ⟨queued_moved queued phased moved,
      fun before => iff_of_true (orderly.calls before) trivial⟩
  | addConnectCallback cb | addCloseCallback cb | addMsgCallback mt cb =>
    obtain ⟨client, next, rfl⟩ := handle_ok stepped
    cases next
    have inv := queued.phased.inv
    exact ⟨queued_moved queued ⟨⟨inv.single, inv.exact, inv.entered, inv.once, inv.unused⟩,
      queued.phased.current, queued.phased.waiting⟩
      ⟨Nat.le_refl _, fun _ member => .inl member, fun _ current => current, List.prefix_rfl⟩,
      fun before => iff_of_true before trivial⟩

/-- The system of one client, its user, the network and the I/O queue. -/
def Step (env : Env) (net : Nat → SockConnect) :
    ConnectQueue → BlmClient.Event → ConnectQueue → Prop :=
  Trace.ofFallible (ConnectQueue.next env net)

theorem queued_run {events : List BlmClient.Event}
    (run : Trace.Run (Step env net) .init events s) : Queued s :=
  run.invariant queued_init fun queued stepped => (queued_next queued stepped).1

end queue

/-- In every state reached, whatever `pj_sock_connect` answered: all candidates have a
connect operation pending exactly if `pj_ioqueue_connect` returned `PJ_EPENDING` for
all of them; and the report on a pending connect reaches a candidate. -/
theorem candidates_pending_iff (env : Env) (net : Nat → SockConnect)
    (events : List BlmClient.Event) (s : ConnectQueue)
    (run : Trace.Run (Step env net) .init events s) :
    ((∀ p ∈ s.client.tcpCandidates, s.Connecting net p) ↔
      ∀ p ∈ s.client.tcpCandidates, (pjIoqueueConnect (net p)).2 = .pending) ∧
    (∀ p, s.Connecting net p → p ∈ s.client.tcpCandidates) := by
  have queued := queued_run run
  have returned : ∀ p, (pjIoqueueConnect (net p)).1 = true ↔
      (pjIoqueueConnect (net p)).2 = .pending := by
    intro p
    cases net p <;> simp [pjIoqueueConnect]
  refine ⟨?_, fun p connecting => connecting_candidate queued connecting⟩
  constructor
  · intro connecting p member
    exact (returned p).mp (connecting p member).2.1
  · intro pending p member
    have live : p ∈ s.client.objs.live :=
      candidate_live queued.phased.inv member
    exact ⟨live, (returned p).mpr (pending p member), queued.candidates p member⟩

/-- `connectFastest("a b", 80)`. -/
def twoCandidates : BlmClient.Event := .call (.connectFastest [0x61, 0x20, 0x62] 80)

theorem candidates_pending_two :
    ∃ s, Trace.Run (Step raceEnv fun _ => .inProgress) .init [twoCandidates] s ∧
      s.client.tcpCandidates = [0, 1] ∧
      ∀ p ∈ s.client.tcpCandidates, s.Connecting (fun _ => .inProgress) p := by
  have run : ∃ s, Trace.Run (Step raceEnv fun _ => .inProgress) .init [twoCandidates] s ∧
      s.client.tcpCandidates = [0, 1] := ⟨_, .cons rfl (.nil _), rfl⟩
  obtain ⟨s, run, cands⟩ := run
  refine ⟨s, run, cands, ?_⟩
  exact (candidates_pending_iff raceEnv (fun _ => .inProgress) _ s run).1.mpr fun _ _ => rfl

/-- A connect attempt that succeeds at once: nothing is pending, and the candidate
stays in the list. -/
theorem candidate_stuck :
    ¬ ∀ (env : Env) (net : Nat → SockConnect) (events : List BlmClient.Event) (s : ConnectQueue),
      Trace.Run (Step env net) .init events s →
      ∀ p ∈ s.client.tcpCandidates, s.Connecting net p := by
  intro claim
  have run : ∃ s, Trace.Run (Step raceEnv fun _ => .connected) .init [twoCandidates] s ∧
      0 ∈ s.client.tcpCandidates := ⟨_, .cons rfl (.nil _), by decide⟩
  obtain ⟨s, run, member⟩ := run
  obtain ⟨-, connecting, -⟩ := claim raceEnv (fun _ => .connected) _ s run 0 member
  cases connecting

/-- The first of two candidates fails, the second connects and is closed by the peer. -/
def secondConnects : List BlmClient.Event :=
  [.addCloseCallback ⟨1, 1⟩, twoCandidates, .connect 0 111 BodyRoundTrip.sampleCtx [] [],
    .connect 1 0 BodyRoundTrip.sampleCtx [] [],
    .read 1 (some []) BodyRoundTrip.sampleCtx [] [⟨[], 0⟩]]

end BlmLink.Guarantees.ConnectPhase
