import BlmLink.Guarantees.BodyRoundTrip
import BlmLink.Lib.Between
import BlmLink.Lib.Hoare
import BlmLink.Lib.Trace
import BlmLink.Source.BlmClient

/-!
# Who owns a connection

Every live `ClientTcp` is referenced exactly once, by `clientTcp` or by a slot of
`tcpCandidates`, and not by both kinds at a time (`Owned`). Each function of the
client is given one rule saying what it leaves; the step lemma and the theorem
about runs follow. The rules cover connect and message callbacks that send
messages and close callbacks that do anything; calls that drop the connection
from inside a connect or message callback are the subject of `Lifetime`.
-/
namespace BlmLink.Guarantees.Ownership

open BlmLink.Lib BlmLink.Source

/-- Uses of an object after its release. -/
def MemoryFault (reason : Fault) : Prop := reason = .useAfterFree ∨ reason = .doubleFree

/-- No failure is excluded: what is said then is said of the calls that return. -/
def Unasked (_ : Fault) : Prop := False

theorem noReply_allowed : ¬ MemoryFault .noReply := by simp [MemoryFault]

section codec

theorem safe_growLoop (call : Nat → ZRet) (fuel start : Nat) :
    Safe MemoryFault (Zlib.growLoop call fuel start) fun _ => True := by
  induction fuel generalizing start with
  | zero => exact .error (by simp [MemoryFault])
  | succ fuel ih =>
    unfold Zlib.growLoop
    split
    · exact ih _
    · exact .ok trivial

theorem safe_doAES128 (aes : AesEcb) (key : Block) (mem : FreshMem) (input : Bytes)
    (encrypt : Bool) : Safe MemoryFault (doAES128 aes key mem input encrypt) fun _ => True := by
  unfold doAES128
  split
  · exact .ok trivial
  · split
    · exact .ok trivial
    · dsimp only
      split
      · exact .error (by simp [MemoryFault])
      · exact .ok trivial

theorem safe_encodeBody (libs : Libs) (keys : Keys) (ctx : CallCtx)
    (mt st compressType encryptType : Int) (data : Bytes) :
    Safe MemoryFault (ClientTcp.encodeBody libs keys ctx mt st compressType encryptType data)
      fun _ => True := by
  unfold ClientTcp.encodeBody
  refine .bind (P := fun _ => True) ?_ ?_
  · split
    · exact .ok trivial
    · exact (safe_growLoop _ _ _).map
  · intro comd _
    split
    · exact .ok trivial
    · exact safe_doAES128 _ _ _ _ _

theorem safe_tcpSendMsg (libs : Libs) (keys : Keys) (ctx : CallCtx) (msgid : CInt)
    (mt st compressType encryptType : Int) (data : Bytes) :
    Safe MemoryFault (ClientTcp.sendMsg libs keys ctx msgid mt st compressType encryptType data)
      fun _ => True := by
  unfold ClientTcp.sendMsg
  split
  · exact .ok trivial
  · exact .bind (safe_encodeBody _ _ _ _ _ _ _ _) fun _ => .ok trivial

theorem safe_decodeMsg (libs : Libs) (keys : Keys) (ctx : CallCtx) (compress encrypt : Byte)
    (data : Bytes) :
    Safe MemoryFault (ClientTcp.decodeMsg libs keys ctx compress encrypt data) fun _ => True := by
  unfold ClientTcp.decodeMsg
  refine .bind (P := fun _ => True) ?_ ?_
  · split
    · exact .ok trivial
    · exact (safe_growLoop _ _ _).map
  · intro comd _
    split
    · exact .ok trivial
    · exact safe_doAES128 _ _ _ _ _

end codec

section objects

variable {env : Env} {c : BlmClient}

/-- Exactly the live connections are referenced, each once. -/
def Exact (c : BlmClient) : Prop :=
  c.objs.live.keys.Perm (c.clientTcp.toList ++ c.tcpCandidates)

theorem deleteAll_eq (c : BlmClient) (ps : List Nat) :
    c.deleteAll ps = match c.objs.deleteAll ps with
      | some objs => .ok { c with objs := objs }
      | none => .error .doubleFree := by
  induction ps generalizing c with
  | nil => rfl
  | cons p ps ih =>
    simp only [BlmClient.deleteAll, Objects.deleteAll, List.foldlM_cons, BlmClient.delete]
    cases c.objs.delete p with
    | none => rfl
    | some objs => exact ih { c with objs := objs }

theorem deref_returns (c : BlmClient) (p : Nat) :
    Safe Unasked (c.deref p) fun conn => c.objs.live.lookup p = some conn := by
  unfold BlmClient.deref
  split
  next conn found => exact .ok found
  · exact .error id

theorem delete_returns (c : BlmClient) (p : Nat) :
    Safe Unasked (c.delete p) fun c' => ∃ objs, c' = { c with objs := objs } ∧
      objs.Below c.objs := by
  unfold BlmClient.delete
  split
  next objs deleted => exact .ok ⟨objs, rfl, Objects.delete_below deleted⟩
  · exact .error id

theorem deleteAll_returns (c : BlmClient) (ps : List Nat) :
    Safe Unasked (c.deleteAll ps) fun c' => ∃ objs, c' = { c with objs := objs } ∧
      objs.Below c.objs := by
  rw [deleteAll_eq]
  split
  next objs deleted => exact .ok ⟨objs, rfl, Objects.deleteAll_below deleted⟩
  · exact .error id

theorem disconnect_returns (c : BlmClient) :
    Safe Unasked c.disconnect fun c' => ∃ objs,
      c' = { c with objs := objs, clientTcp := none, tcpCandidates := [] } ∧
      objs.Below c.objs := by
  unfold BlmClient.disconnect
  refine .bind (P := fun c' => ∃ objs, c' = { c with objs := objs, clientTcp := none } ∧
    objs.Below c.objs) ?_ ?_
  · unfold BlmClient.deleteClientTcp
    split
    next idle => exact .ok ⟨c.objs, by rw [← idle], Objects.Below.refl _⟩
    next p current =>
      apply (delete_returns c p).bind
      rintro _ ⟨objs, rfl, below⟩
      exact .ok ⟨objs, rfl, below⟩
  · rintro _ ⟨objs, rfl, below⟩
    apply (deleteAll_returns _ _).bind
    rintro _ ⟨objs', rfl, below'⟩
    exact .ok ⟨objs', rfl, below'.trans below⟩

theorem safe_deleteAll {c : BlmClient} {ps : List Nat} (rest : List Nat)
    (live : c.objs.live.keys.Perm (ps ++ rest)) :
    Safe MemoryFault (c.deleteAll ps) fun c' => ∃ objs, c' = { c with objs := objs } ∧
      objs.live.keys.Perm rest ∧ objs.fresh = c.objs.fresh := by
  obtain ⟨objs, deleted, left, fresh⟩ := c.objs.deleteAll_part ps rest live
  rw [deleteAll_eq, deleted]
  exact .ok ⟨objs, rfl, left, fresh⟩

theorem safe_delete {c : BlmClient} {p : Nat} (live : p ∈ c.objs.live) :
    Safe MemoryFault (c.delete p) fun c' => ∃ objs, c' = { c with objs := objs } ∧
      objs.live.keys = c.objs.live.keys.erase p ∧ objs.fresh = c.objs.fresh := by
  obtain ⟨objs, deleted, keys, fresh⟩ := c.objs.delete_live live
  unfold BlmClient.delete
  rw [deleted]
  exact .ok ⟨objs, rfl, keys, fresh⟩

theorem safe_deref {c : BlmClient} {p : Nat} (live : p ∈ c.objs.live) :
    Safe MemoryFault (c.deref p) fun _ => True := by
  unfold BlmClient.deref
  cases found : c.objs.live.lookup p with
  | some conn => exact .ok trivial
  | none => exact absurd live (AList.lookup_eq_none.mp found)

/-- `disconnect` deletes every live connection and nothing twice. -/
theorem safe_disconnect {c : BlmClient} (exact : Exact c) :
    Safe MemoryFault c.disconnect fun c' => ∃ objs,
      c' = { c with objs := objs, clientTcp := none, tcpCandidates := [] } ∧
      objs.live.keys = [] ∧ objs.fresh = c.objs.fresh := by
  unfold BlmClient.disconnect
  refine .bind (P := fun c' => ∃ objs, c' = { c with objs := objs, clientTcp := none } ∧
    objs.live.keys.Perm c.tcpCandidates ∧ objs.fresh = c.objs.fresh) ?_ ?_
  · unfold BlmClient.deleteClientTcp
    unfold Exact at exact
    cases current : c.clientTcp with
    | none =>
      rw [current] at exact
      refine .ok ⟨c.objs, ?_, exact, rfl⟩
      rw [← current]
    | some p =>
      rw [current] at exact
      have live : p ∈ c.objs.live := exact.symm.mem_iff.mp (by simp)
      apply (safe_delete live).bind
      rintro _ ⟨objs, rfl, keys, fresh⟩
      refine .ok ⟨objs, rfl, ?_, fresh⟩
      rw [keys]
      simpa using exact.erase p
  · rintro _ ⟨objs, rfl, keys, fresh⟩
    apply Safe.bind (safe_deleteAll [] (by simpa using keys))
    rintro _ ⟨objs', rfl, left, fresh'⟩
    exact .ok ⟨objs', rfl, List.perm_nil.mp left, fresh'.trans fresh⟩

/-- `new ClientTcp` for each piece: the new objects are the candidates. -/
theorem addCandidates (port : BitVec 16) (ips : List Bytes) (c : BlmClient) :
    ∃ objs cands, ips.foldl (fun c ip => c.addCandidate env port ip) c =
        { c with objs := objs, tcpCandidates := c.tcpCandidates ++ cands } ∧
      objs.live.keys.Perm (cands ++ c.objs.live.keys) ∧
      (∀ p ∈ cands, c.objs.fresh ≤ p) ∧ c.objs.fresh ≤ objs.fresh := by
  induction ips generalizing c with
  | nil => exact ⟨c.objs, [], by simp, by simp, by simp, Nat.le_refl _⟩
  | cons ip ips ih =>
    obtain ⟨objs, cands, folded, keys, later, grows⟩ := ih (c.addCandidate env port ip)
    have new := c.objs.keys_new
      { ip := ip, port := port, keys := ⟨rc4_key, env.randomKey c.objs.fresh⟩, recved := [], sent := [] }
    refine ⟨objs, c.objs.fresh :: cands, ?_, ?_, ?_, ?_⟩
    · rw [List.foldl_cons, folded]
      simp [BlmClient.addCandidate]
    · apply keys.trans
      show (cands ++ (c.objs.new _).live.keys).Perm _
      rw [new]
      exact List.perm_middle
    · intro p member
      rcases List.mem_cons.mp member with rfl | member
      · exact Nat.le_refl _
      · exact Nat.le_of_succ_le (later p member)
    · exact Nat.le_of_succ_le grows

theorem safe_connectFastest {c : BlmClient} (exact : Exact c) (ips : Bytes) (port : BitVec 16) :
    Safe MemoryFault (c.connectFastest env ips port) fun c' => ∃ objs cands,
      c' = { c with
        objs := objs, clientTcp := none, tcpCandidates := cands
        log := c.log ++ [.connectFastest] } ∧
      objs.live.keys.Perm cands ∧ (∀ p ∈ cands, c.objs.fresh ≤ p) ∧
      c.objs.fresh ≤ objs.fresh := by
  unfold BlmClient.connectFastest
  refine .bind (P := fun c' => ∃ objs, c' = { c with
      objs := objs, clientTcp := none, tcpCandidates := []
      log := c.log ++ [.connectFastest] } ∧ objs.live.keys = [] ∧ objs.fresh = c.objs.fresh) ?_ ?_
  · split
    · exact safe_disconnect (c := c.note .connectFastest) exact
    next idle =>
      simp only [BlmClient.note, not_or, not_not, Nat.not_lt, Nat.le_zero,
        List.length_eq_zero_iff] at idle
      have empty : c.objs.live.keys = [] := by
        simpa [Exact, idle] using exact
      refine .ok ⟨c.objs, ?_, empty, rfl⟩
      simp [BlmClient.note, idle]
  · rintro _ ⟨objs, rfl, empty, fresh⟩
    obtain ⟨objs', cands, folded, keys, later, grows⟩ := addCandidates port (splitString ips 0x20)
      { c with
        objs := objs, clientTcp := none, tcpCandidates := [], log := c.log ++ [.connectFastest] }
    rw [folded]
    refine .ok ⟨objs', cands, by simp, by simpa [empty] using keys, ?_, fresh ▸ grows⟩
    simpa [fresh] using later

end objects

/-- The invariant of every run: ownership, and what the log says about
`onConnect` and the connect callbacks. -/
structure Inv (c : BlmClient) : Prop where
  single : c.clientTcp ≠ none → c.tcpCandidates = []
  exact : Exact c
  entered : ∀ p current cands, .onConnect p current cands ∈ c.log → current = none ∧ p ∈ cands
  once : Between.AtMostOnce .connectFastest .connCallbacks c.log
  unused : c.tcpCandidates ≠ [] → Between.NoneSince .connectFastest .connCallbacks c.log

theorem inv_init : Inv .init where
  single := by simp [BlmClient.init]
  exact := by simp [Exact, BlmClient.init, Objects.init]
  entered := by simp [BlmClient.init]
  once := by
    intro stretch inside
    simp only [BlmClient.init, List.infix_nil] at inside
    simp [inside]
  unused := by simp [BlmClient.init]

section callbacks

variable {env : Env} {c c' : BlmClient}

theorem inv_note (entry : Entry) (inv : Inv c) (other : entry ≠ .connCallbacks)
    (found : ∀ p current cands, entry = .onConnect p current cands → current = none ∧ p ∈ cands) :
    Inv (c.note entry) where
  single := inv.single
  exact := inv.exact
  entered := by
    intro p current cands member
    rcases List.mem_append.mp member with member | member
    · exact inv.entered p current cands member
    · exact found p current cands (List.mem_singleton.mp member).symm
  once := Between.atMostOnce_snoc inv.once fun same => absurd same other
  unused := fun some => Between.noneSince_snoc (inv.unused some) other

/-- What sending and calling well-behaved callbacks leave as it was: only members
of live connections change, and the log gets the calls. -/
structure Kept (c c' : BlmClient) : Prop where
  keys : c'.objs.live.keys = c.objs.live.keys
  fresh : c'.objs.fresh = c.objs.fresh
  clientTcp : c'.clientTcp = c.clientTcp
  tcpCandidates : c'.tcpCandidates = c.tcpCandidates
  log : ∃ calls : List (Callback × Option Delivered),
    c'.log = c.log ++ calls.map fun call => .called call.1 call.2

theorem Kept.refl (c : BlmClient) : Kept c c := ⟨rfl, rfl, rfl, rfl, [], by simp⟩

theorem Kept.trans {c₁ c₂ c₃ : BlmClient} (first : Kept c₁ c₂) (second : Kept c₂ c₃) :
    Kept c₁ c₃ := by
  obtain ⟨calls, log⟩ := first.log
  obtain ⟨calls', log'⟩ := second.log
  refine ⟨second.keys.trans first.keys, second.fresh.trans first.fresh,
    second.clientTcp.trans first.clientTcp,
    second.tcpCandidates.trans first.tcpCandidates, calls ++ calls', ?_⟩
  rw [log', log, List.map_append, List.append_assoc]

theorem Kept.exact (kept : Kept c c') (exact : Exact c) : Exact c' := by
  unfold Exact
  rw [kept.keys, kept.clientTcp, kept.tcpCandidates]
  exact exact

theorem Kept.live_iff (kept : Kept c c') {p : Nat} : p ∈ c'.objs.live ↔ p ∈ c.objs.live := by
  rw [AList.mem_keys, kept.keys, AList.mem_keys]

theorem Kept.inv (kept : Kept c c') (inv : Inv c) : Inv c' := by
  obtain ⟨calls, log⟩ := kept.log
  have noted : Inv { c with log := c'.log } := by
    rw [log]
    clear log
    induction calls using List.reverseRecOn with
    | nil => simpa using inv
    | append_singleton calls call ih =>
      rw [List.map_append, ← List.append_assoc]
      exact inv_note _ ih (by simp) (by simp)
  exact ⟨by simpa only [kept.clientTcp, kept.tcpCandidates] using noted.single, kept.exact inv.exact,
    noted.entered, noted.once, by simpa only [kept.tcpCandidates] using noted.unused⟩

theorem kept_set (c : BlmClient) (p : Nat) (conn : Conn) (msgid : CInt) :
    Kept c { c with msgid := msgid, objs := c.objs.set p conn } :=
  ⟨Objects.keys_set _ _ _, rfl, rfl, rfl, [], by simp⟩

/-- The calls that drop the current connection. -/
def Drops : Call → Prop
  | .connectFastest _ _ => True
  | .disconnect => True
  | .sendMsg _ _ _ _ => False

/-- The callback only sends messages. -/
def Quiet (reply : Reply) : Prop := ∀ call ∈ reply.calls, ¬ Drops call

theorem clientTcp_live (exact : Exact c) {p : Nat} (current : c.clientTcp = some p) :
    p ∈ c.objs.live :=
  exact.symm.mem_iff.mp (by simp [current])

theorem safe_send (exact : Exact c) (ctx : CallCtx) (mt st : Int) (data : Bytes) :
    Safe MemoryFault (c.send env ctx mt st data) (Kept c) := by
  unfold BlmClient.send
  split
  · exact .ok (Kept.refl c)
  next p current =>
    apply (safe_deref (clientTcp_live exact current)).bind
    intro conn _
    apply (safe_tcpSendMsg _ _ _ _ _ _ _ _ _).bind
    intro sent _
    exact .ok (kept_set c p _ _)

theorem safe_call_quiet (exact : Exact c) {call : Call} (quiet : ¬ Drops call) :
    Safe MemoryFault (c.call env call) (Kept c) := by
  cases call with
  | connectFastest => exact absurd trivial quiet
  | disconnect => exact absurd trivial quiet
  | sendMsg ctx mt st data => exact safe_send exact ctx mt st data

theorem inv_disconnect (inv : Inv c) : Safe MemoryFault c.disconnect Inv := by
  apply (safe_disconnect inv.exact).imp
  rintro _ ⟨objs, rfl, empty, -⟩
  exact ⟨by simp, by simp [Exact, empty], inv.entered, inv.once, by simp⟩

/-- Any call from outside the callbacks, or from a close callback. -/
theorem safe_call (inv : Inv c) (call : Call) : Safe MemoryFault (c.call env call) Inv := by
  cases call with
  | connectFastest ips port =>
    apply (safe_connectFastest inv.exact ips port).imp
    rintro _ ⟨objs, cands, rfl, keys, -⟩
    have noted := inv_note .connectFastest inv (by simp) (by simp)
    exact ⟨by simp, by simpa [Exact] using keys, noted.entered, noted.once,
      fun _ => Between.noneSince_mark _⟩
  | disconnect => exact inv_disconnect inv
  | sendMsg ctx mt st data =>
    exact (safe_send inv.exact ctx mt st data).imp fun kept => kept.inv inv

theorem kept_called (c : BlmClient) (cb : Callback) (msg : Option Delivered) :
    Kept c (c.note (.called cb msg)) :=
  ⟨rfl, rfl, rfl, rfl, [(cb, msg)], rfl⟩

/-- Rule for calling a list of callbacks: what each of them preserves of the client
and of the replies to come. -/
theorem callList_rule {bad : Fault → Prop} (unanswered : ¬ bad .noReply)
    {P : BlmClient → List Reply → Prop} (msg : Option Delivered) (cbs : List Callback)
    (replied : ∀ {c reply replies} (cb : Callback), P c (reply :: replies) →
      Safe bad (reply.calls.foldlM (BlmClient.call env) (c.note (.called cb msg)))
        fun c' => P c' replies)
    {replies : List Reply} (initially : P c replies) :
    Safe bad (BlmClient.callList env msg cbs c replies) fun ran =>
      P ran.client ran.replies := by
  induction cbs generalizing c replies with
  | nil => exact .ok initially
  | cons cb cbs ih =>
    cases replies with
    | nil => exact .error unanswered
    | cons reply replies =>
      unfold BlmClient.callList
      apply (replied cb initially).bind
      intro c' after
      split
      · exact .ok after
      · exact ih after

theorem safe_callList_quiet (msg : Option Delivered) (cbs : List Callback) (exact : Exact c)
    (replies : List Reply) (quiet : ∀ reply ∈ replies, Quiet reply) :
    Safe MemoryFault (BlmClient.callList env msg cbs c replies) fun ran =>
      Kept c ran.client ∧ ran.replies <:+ replies := by
  refine callList_rule noReply_allowed (P := fun c' left => Kept c c' ∧ left <:+ replies) msg cbs ?_
    ⟨Kept.refl c, List.suffix_refl _⟩
  rintro c₁ reply left cb ⟨kept, isEnd⟩
  have calls := quiet reply (isEnd.subset List.mem_cons_self)
  have looped : Safe MemoryFault
      (reply.calls.foldlM (BlmClient.call env) (c₁.note (.called cb msg))) (Kept c) := by
    refine Safe.foldlM ?_ (kept.trans (kept_called c₁ cb msg))
    intro s call member kept
    exact (safe_call_quiet (kept.exact exact) (calls call member)).imp kept.trans
  exact looped.imp fun kept => ⟨kept, (List.suffix_cons _ _).trans isEnd⟩

theorem safe_callList (msg : Option Delivered) (cbs : List Callback) (inv : Inv c)
    (replies : List Reply) :
    Safe MemoryFault (BlmClient.callList env msg cbs c replies) fun ran => Inv ran.client := by
  refine callList_rule noReply_allowed (P := fun c' _ => Inv c') msg cbs ?_ inv
  intro c₁ reply left cb inv₁
  exact Safe.foldlM (fun _ inv => safe_call inv _) ((kept_called c₁ cb msg).inv inv₁)

end callbacks

section events

variable {env : Env} {c : BlmClient}

theorem nodup_candidates (exact : Exact c) : c.tcpCandidates.Nodup :=
  ((exact.nodup_iff.mp c.objs.live.keys_nodup).sublist (List.sublist_append_right _ _))

/-- With candidates there is no current connection. -/
theorem clientTcp_none (inv : Inv c) {p : Nat} (member : p ∈ c.tcpCandidates) :
    c.clientTcp = none := by
  by_contra current
  rw [inv.single current] at member
  cases member

theorem keys_perm_candidates (inv : Inv c) {p : Nat} (member : p ∈ c.tcpCandidates) :
    c.objs.live.keys.Perm c.tcpCandidates := by
  have exact := inv.exact
  unfold Exact at exact
  rwa [clientTcp_none inv member] at exact

theorem candidate_live (inv : Inv c) {p : Nat} (member : p ∈ c.tcpCandidates) : p ∈ c.objs.live :=
  (keys_perm_candidates inv member).symm.mem_iff.mp member

/-- `onConnect` deletes all candidates but the one that connected. The connect
callbacks are about to be called. -/
theorem safe_accept (inv : Inv c) {p : Nat} (member : p ∈ c.tcpCandidates) :
    Safe MemoryFault (c.accept p) fun c' => Inv (c'.note .connCallbacks) ∧ ∃ objs,
      objs.fresh = c.objs.fresh ∧ c' = { c.note (.onConnect p c.clientTcp c.tcpCandidates) with
        objs := objs, tcpCandidates := [], clientTcp := some p } := by
  unfold BlmClient.accept
  have noted := inv_note (.onConnect p c.clientTcp c.tcpCandidates) inv (by simp) (by
    rintro _ _ _ ⟨⟩
    exact ⟨clientTcp_none inv member, member⟩)
  have split : (c.tcpCandidates.filter (· ≠ p) ++ [p]).Perm c.tcpCandidates := by
    have others : c.tcpCandidates.filter (· ≠ p) = c.tcpCandidates.erase p := by
      rw [(nodup_candidates inv.exact).erase_eq_filter p]
      apply List.filter_congr
      intro q _
      by_cases same : q = p <;> simp [same]
    rw [others]
    exact (List.perm_append_singleton p _).trans (List.perm_cons_erase member).symm
  have keys := (keys_perm_candidates inv member).trans split.symm
  apply (safe_deleteAll (c := c.note (.onConnect p c.clientTcp c.tcpCandidates)) [p] keys).bind
  rintro _ ⟨objs, rfl, left, fresh⟩
  refine .ok ⟨⟨fun _ => rfl, left, ?_, ?_, ?_⟩, objs, fresh, rfl⟩
  · intro q current cands entered
    rcases List.mem_append.mp entered with entered | entered
    · exact noted.entered q current cands entered
    · cases List.mem_singleton.mp entered
  · exact Between.atMostOnce_snoc noted.once fun _ => noted.unused (List.ne_nil_of_mem member)
  · intro some
    exact absurd rfl some

theorem safe_onConnect (inv : Inv c) {p : Nat} (member : p ∈ c.tcpCandidates)
    (replies : List Reply) (quiet : ∀ reply ∈ replies, Quiet reply) :
    Safe MemoryFault (c.onConnect env p replies) fun ran =>
      Inv ran.client ∧ p ∈ ran.client.objs.live ∧ ran.replies <:+ replies := by
  unfold BlmClient.onConnect
  apply (safe_accept inv member).bind
  rintro _ ⟨accepted, objs, -, rfl⟩
  apply (safe_callList_quiet none _ accepted.exact replies quiet).imp
  rintro ran ⟨kept, left⟩
  exact ⟨kept.inv accepted, kept.live_iff.mpr (clientTcp_live accepted.exact rfl), left⟩

/-- The candidate is deleted and its slot is filled with the last one. -/
theorem safe_dropCandidate (inv : Inv c) (p : Nat) :
    Safe MemoryFault (c.dropCandidate p) fun c' => Inv c' ∧ ∃ objs left,
      c' = { c with objs := objs, tcpCandidates := left } ∧ objs.fresh = c.objs.fresh ∧
      left.Perm (c.tcpCandidates.erase p) := by
  unfold BlmClient.dropCandidate
  cases found : c.tcpCandidates.idxOf? p with
  | none =>
    have absent : p ∉ c.tcpCandidates := List.idxOf?_eq_none_iff.mp found
    refine .ok ⟨inv, c.objs, c.tcpCandidates, rfl, rfl, ?_⟩
    rw [List.erase_of_not_mem absent]
  | some i =>
    have removed := swapRemove_found found
    have member : p ∈ c.tcpCandidates := removed.mem_iff.mp List.mem_cons_self
    have keys := keys_perm_candidates inv member
    have live : p ∈ c.objs.live := keys.symm.mem_iff.mp member
    apply (safe_delete live).bind
    rintro _ ⟨objs, rfl, left, fresh⟩
    refine .ok ⟨⟨?_, ?_, inv.entered, inv.once, ?_⟩, objs, _, rfl, fresh, ?_⟩
    · intro current
      exact absurd (clientTcp_none inv member) current
    · show objs.live.keys.Perm (c.clientTcp.toList ++ swapRemove c.tcpCandidates i)
      rw [clientTcp_none inv member, left]
      simpa using (keys.trans removed.symm).erase p
    · intro _
      exact inv.unused (List.ne_nil_of_mem member)
    · simpa using removed.erase p

theorem safe_onClose (inv : Inv c) (p : Nat) (replies : List Reply) :
    Safe MemoryFault (c.onClose env p replies) fun ran => Inv ran.client := by
  unfold BlmClient.onClose
  apply (safe_dropCandidate inv p).bind
  rintro c' ⟨inv', -⟩
  split
  · exact .ok inv'
  · apply (inv_disconnect inv').bind
    intro c'' inv''
    exact safe_callList none _ (inv_note .closeCallbacks inv'' (by simp) (by simp)) replies

theorem safe_tcpOnClose (inv : Inv c) {p : Nat} (live : p ∈ c.objs.live) (replies : List Reply) :
    Safe MemoryFault (c.tcpOnClose env p replies) fun ran => Inv ran.client := by
  unfold BlmClient.tcpOnClose
  apply (safe_deref live).bind
  intro _ _
  exact safe_onClose inv p replies

/-- `ClientTcp::onConnect` sends the keys, which touches no pointer of the client, and calls
`onConnect` of the client. -/
theorem safe_tcpOnConnect_of (inv : Inv c) {p : Nat} (member : p ∈ c.tcpCandidates) (ctx : CallCtx)
    {replies : List Reply} {Q : Ran → Prop}
    (entered : ∀ conn sent, Kept c (c.store p conn sent) →
      Safe MemoryFault ((c.store p conn sent).onConnect env p replies) Q) :
    Safe MemoryFault (c.tcpOnConnect env p ctx replies) Q := by
  unfold BlmClient.tcpOnConnect
  apply (safe_deref (candidate_live inv member)).bind
  intro conn _
  apply (safe_tcpSendMsg _ _ _ _ _ _ _ _ _).bind
  intro sent _
  exact entered conn sent (kept_set c p _ _)

theorem safe_tcpOnConnect (inv : Inv c) {p : Nat} (member : p ∈ c.tcpCandidates) (ctx : CallCtx)
    (replies : List Reply) (quiet : ∀ reply ∈ replies, Quiet reply) :
    Safe MemoryFault (c.tcpOnConnect env p ctx replies) fun ran =>
      Inv ran.client ∧ p ∈ ran.client.objs.live ∧ ran.replies <:+ replies := by
  apply safe_tcpOnConnect_of inv member ctx
  intro conn sent kept
  exact safe_onConnect (kept.inv inv) (kept.tcpCandidates ▸ member) replies quiet

/-- Where the frame loop of a read stands, the read having begun at `c`. -/
def Going (c : BlmClient) (replies : List Reply) (s : BlmClient × List Reply) : Prop :=
  Kept c s.1 ∧ s.2 <:+ replies

/-- How the frame loop may be cut short. -/
def Cut (c : BlmClient) (replies : List Reply) (s : BlmClient × List Reply) : Stop → Prop
  | .returned _ => Going c replies s
  | .fault reason => ¬ MemoryFault reason

/-- The connection is still there when the loop reads on. -/
theorem process_quiet (exact : Exact c) {p : Nat} (live : p ∈ c.objs.live) {replies : List Reply}
    (quiet : ∀ reply ∈ replies, Quiet reply) {s : BlmClient × List Reply}
    (going : Going c replies s) (msg : Delivered) :
    Framer.Ends (Going c replies) (Cut c replies) (BlmClient.process env p s msg).1
      (BlmClient.process env p s msg).2 := by
  obtain ⟨kept, left⟩ := going
  have safe : Safe MemoryFault (s.1.processMsg env msg s.2) fun ran =>
      Kept c ran.client ∧ ran.replies <:+ replies := by
    unfold BlmClient.processMsg
    split
    · exact .ok ⟨kept, left⟩
    · refine (safe_callList_quiet _ _ (kept.exact exact) s.2 ?_).imp ?_
      · exact fun reply member => quiet reply (left.subset member)
      · exact fun ⟨kept', left'⟩ => ⟨kept.trans kept', left'.trans left⟩
  unfold BlmClient.process
  cases result : s.1.processMsg env msg s.2 with
  | error reason => exact safe.fails result
  | ok ran =>
    obtain ⟨kept', left'⟩ := safe.returns result
    dsimp only
    split
    · exact ⟨kept', left'⟩
    · cases used : ran.client.deref p with
      | error reason => exact (safe_deref (kept'.live_iff.mpr live)).fails used
      | ok conn => exact ⟨kept', left'⟩

theorem onDataRead_quiet (exact : Exact c) {p : Nat} (live : p ∈ c.objs.live)
    {replies : List Reply} (quiet : ∀ reply ∈ replies, Quiet reply) (conn : Conn) (ctx : CallCtx)
    (data : Bytes) {outcome : Framer.Outcome Byte Stop (BlmClient × List Reply)}
    (ran : onDataRead (BlmClient.receiver env conn ctx) (BlmClient.process env p) (c, replies)
      conn.recved data = outcome) :
    Framer.Ends (Going c replies) (Cut c replies) outcome.state outcome.stop := by
  subst ran
  refine onDataRead_invariant _ _ (fun msg going => process_quiet exact live quiet going msg) ?_
    (fun going => going) _ _ _ ⟨Kept.refl c, List.suffix_refl _⟩
  intro s compress encrypt body reason _ failed
  exact (safe_decodeMsg env.libs conn.keys ctx compress encrypt body).fails failed

/-- The end of `tcpOnDataRead`: the connection, where it is still there, keeps the octets
that are left. -/
def storeLeft (c : BlmClient) (p : Nat) (left : Bytes) : BlmClient :=
  match c.objs.live.lookup p with
  | some conn => { c with objs := c.objs.set p { conn with recved := left } }
  | none => c

theorem kept_storeLeft (c : BlmClient) (p : Nat) (left : Bytes) : Kept c (storeLeft c p left) := by
  unfold storeLeft
  split
  · exact kept_set c p _ c.msgid
  · exact Kept.refl c

theorem safe_tcpOnDataRead (inv : Inv c) {p : Nat} (live : p ∈ c.objs.live) (data : Bytes)
    (ctx : CallCtx) (replies : List Reply) (quiet : ∀ reply ∈ replies, Quiet reply) :
    Safe MemoryFault (c.tcpOnDataRead env p data ctx replies) fun ran => Kept c ran.client := by
  unfold BlmClient.tcpOnDataRead
  apply (safe_deref live).bind
  intro conn _
  cases read : onDataRead (BlmClient.receiver env conn ctx) (BlmClient.process env p) (c, replies)
      conn.recved data with
  | mk state left stop =>
    have ended := onDataRead_quiet inv.exact live quiet conn ctx data read
    have stored : ∀ {s : BlmClient × List Reply}, Going c replies s →
        Kept c (storeLeft s.1 p left) := by
      rintro s ⟨kept, -⟩
      exact kept.trans (kept_storeLeft s.1 p left)
    cases stop with
    | none => exact .ok (stored ended)
    | some stop =>
      cases stop with
      | fault reason => exact .error ended
      | returned eno => exact .ok (stored ended)

theorem safe_closeOrRead {ran : Ran} (inv : Inv ran.client) {p : Nat}
    (live : p ∈ ran.client.objs.live) (closing : Bool) (closeReplies : List Reply) :
    Safe MemoryFault (BlmClient.closeOrRead env ran closing p closeReplies) fun handled =>
      Inv handled.client := by
  unfold BlmClient.closeOrRead
  split
  · apply (safe_tcpOnClose inv live closeReplies).bind
    exact fun closed => .ok closed
  · unfold BlmClient.startRead
    apply Safe.bind (P := Inv) ((safe_deref live).bind fun _ => .ok inv)
    exact fun inv' => .ok inv'

/-- The connect and message callbacks called during the event only send. Nothing
is asked of the close callbacks. -/
def QuietEvent : BlmClient.Event → Prop
  | .connect _ _ _ replies _ => ∀ reply ∈ replies, Quiet reply
  | .read _ _ _ replies _ => ∀ reply ∈ replies, Quiet reply
  | _ => True

theorem safe_onIoqueueConnect (inv : Inv c) {p : Nat} (member : p ∈ c.tcpCandidates) (status : Int)
    (ctx : CallCtx) (replies closeReplies : List Reply) (quiet : ∀ reply ∈ replies, Quiet reply) :
    Safe MemoryFault (c.onIoqueueConnect env p status ctx replies closeReplies) fun handled =>
      Inv handled.client := by
  unfold BlmClient.onIoqueueConnect
  have live := candidate_live inv member
  split
  · exact safe_closeOrRead inv live true closeReplies
  · apply (safe_tcpOnConnect inv member ctx replies quiet).bind
    rintro ran ⟨inv', live', -⟩
    exact safe_closeOrRead inv' live' _ closeReplies

theorem safe_onIoqueueRead (inv : Inv c) {p : Nat} (live : p ∈ c.objs.live) (read : Option Bytes)
    (ctx : CallCtx) (replies closeReplies : List Reply) (quiet : ∀ reply ∈ replies, Quiet reply) :
    Safe MemoryFault (c.onIoqueueRead env p read ctx replies closeReplies) fun handled =>
      Inv handled.client := by
  unfold BlmClient.onIoqueueRead
  split
  · exact .error (by simp [MemoryFault])
  · exact safe_closeOrRead inv live true closeReplies
  · apply (safe_tcpOnDataRead inv live _ ctx replies quiet).bind
    intro ran kept
    exact safe_closeOrRead (kept.inv inv) (kept.live_iff.mpr live) _ closeReplies

theorem safe_allUsed {handled : Except Fault BlmClient.Handled} {result : Except Fault BlmClient}
    (safe : Safe MemoryFault handled fun handled => Inv handled.client)
    (used : BlmClient.allUsed handled = some result) : Safe MemoryFault result Inv := by
  unfold BlmClient.allUsed at used
  split at used
  · cases used
    exact .error (safe.fails rfl)
  · cases used
    exact .ok (safe.returns rfl)
  · cases used

/-- One event: no object is used or deleted after its release, and the invariant
holds afterwards. -/
theorem safe_next (inv : Inv c) {e : BlmClient.Event} (quiet : QuietEvent e)
    {result : Except Fault BlmClient} (stepped : c.next env e = some result) :
    Safe MemoryFault result Inv := by
  cases e with
  | call call =>
    cases stepped
    exact safe_call inv call
  | addConnectCallback cb | addCloseCallback cb | addMsgCallback mt cb =>
    cases stepped
    exact .ok ⟨inv.single, inv.exact, inv.entered, inv.once, inv.unused⟩
  | connect p status ctx replies closeReplies =>
    obtain ⟨member, used⟩ := Option.ite_none_right_eq_some.mp stepped
    exact safe_allUsed (safe_onIoqueueConnect inv member status ctx replies closeReplies quiet) used
  | read p read ctx replies closeReplies =>
    obtain ⟨live, used⟩ := Option.ite_none_right_eq_some.mp stepped
    exact safe_allUsed (safe_onIoqueueRead inv live read ctx replies closeReplies quiet) used

/-- The system of one client, the calls of its user and the I/O events. -/
def Step (env : Env) : BlmClient → BlmClient.Event → BlmClient → Prop :=
  Trace.ofFallible (BlmClient.next env)

theorem inv_step {c' : BlmClient} {e : BlmClient.Event} (inv : Inv c)
    (stepped : Trace.Guarded (Step env) (fun _ => QuietEvent) c e c') : Inv c' :=
  (safe_next inv stepped.2 stepped.1).returns rfl

end events

/-- No callback called during the event calls the client. -/
def Silent : BlmClient.Event → Prop
  | .connect _ _ _ replies closeReplies => ∀ reply ∈ replies ++ closeReplies, reply.calls = []
  | .read _ _ _ replies closeReplies => ∀ reply ∈ replies ++ closeReplies, reply.calls = []
  | _ => True

theorem quiet_of_silent {e : BlmClient.Event} (silent : Silent e) : QuietEvent e := by
  cases e with
  | connect p status ctx replies closeReplies =>
    intro reply member call called
    rw [silent reply (List.mem_append_left _ member)] at called
    cases called
  | read p read ctx replies closeReplies =>
    intro reply member call called
    rw [silent reply (List.mem_append_left _ member)] at called
    cases called
  | _ => trivial

/-- In every run with callbacks that do not call the client: `clientTcp` excludes
candidates; a connection created and not released is referenced exactly once, and
no other is; none is released twice; `onConnect` finds `clientTcp` NULL and its
argument among the candidates; between two `connectFastest` the connect callbacks
are called at most once; and no further event uses or deletes a released one. -/
theorem ownership_exact (env : Env) (events : List BlmClient.Event) (c : BlmClient)
    (run : Trace.Run (Trace.Guarded (Step env) fun _ => Silent) .init events c) :
    (c.clientTcp ≠ none → c.tcpCandidates = []) ∧
    (∀ p, (c.clientTcp.toList ++ c.tcpCandidates).count p =
      if c.objs.Created p ∧ p ∉ c.objs.released then 1 else 0) ∧
    c.objs.released.Nodup ∧
    (∀ p current cands, .onConnect p current cands ∈ c.log → current = none ∧ p ∈ cands) ∧
    (∀ stretch, stretch <:+: c.log → .connectFastest ∉ stretch →
      stretch.count .connCallbacks ≤ 1) ∧
    (∀ e, Silent e → c.next env e ≠ some (.error .doubleFree) ∧
      c.next env e ≠ some (.error .useAfterFree)) := by
  have inv : Inv c := run.invariant inv_init fun inv stepped =>
    inv_step inv ⟨stepped.1, quiet_of_silent stepped.2⟩
  refine ⟨inv.single, c.objs.count_of_perm inv.exact.symm, c.objs.released_nodup, inv.entered,
    inv.once, ?_⟩
  intro e silent
  constructor
  · exact fun failed => (safe_next inv (quiet_of_silent silent) failed).fails rfl (.inr rfl)
  · exact fun failed => (safe_next inv (quiet_of_silent silent) failed).fails rfl (.inl rfl)

/-- Two candidates, `"a b"`; the second one connects first. -/
def race : List BlmClient.Event :=
  [.addConnectCallback ⟨1, 1⟩, .call (.connectFastest [0x61, 0x20, 0x62] 80),
    .connect 1 0 BodyRoundTrip.sampleCtx [⟨[], 0⟩] []]

def raceEnv : Env := ⟨BodyRoundTrip.sampleLibs, .signed, fun _ => BodyRoundTrip.aesKey⟩

theorem ownership_exact_race :
    ∃ c, Trace.Run (Trace.Guarded (Step raceEnv) fun _ => Silent) .init race c ∧
      c.clientTcp = some 1 ∧ c.objs.released = [0] ∧ c.tcpCandidates = [] := by
  have run : ∃ c, Trace.Run (Trace.Guarded (Step raceEnv) fun _ => Silent) .init race c ∧
      c.clientTcp = some 1 ∧ c.objs.released = [0] := by
    refine ⟨_, .cons ⟨rfl, trivial⟩ (.cons ⟨rfl, trivial⟩ (.cons ⟨rfl, ?_⟩ (.nil _))), rfl, rfl⟩
    intro reply member
    rw [List.mem_singleton.mp member]
  obtain ⟨c, run, current, released⟩ := run
  have single := (ownership_exact raceEnv race c run).1
  exact ⟨c, run, current, released, single (by simp [current])⟩

end BlmLink.Guarantees.Ownership
