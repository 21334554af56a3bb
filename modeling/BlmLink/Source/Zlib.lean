import BlmLink.Source.Bytes

/-!
# `Zlib::compress` and `Zlib::uncompress`

blmutil.cpp:17-52. zlib itself is linked in and not part of the repository
(include/zlib holds only its headers): `ZlibLib` is what the two wrappers see of
it. The wrappers double the output block while zlib answers `Z_BUF_ERROR`; any
other failure is only logged, and the result is then as many octets of the
untouched output block as it has.
-/
namespace BlmLink.Source

/-- The answer of `::compress` or `::uncompress` for one capacity. Only `Z_OK`
writes the output and sets the length. -/
inductive ZRet where
  | ok (out : Bytes)
  | bufError
  | error (code : Int)
  deriving DecidableEq, Repr

structure ZlibLib where
  compress : (capacity : Nat) → Bytes → ZRet
  uncompress : (capacity : Nat) → Bytes → ZRet

namespace Zlib

/-- `while (ret == Z_BUF_ERROR)`: the capacity of the last block and the answer for it. -/
def growLoop (call : Nat → ZRet) : (fuel reslen : Nat) → Except Fault (Nat × ZRet)
  | 0, _ => .error .outOfFuel
  | fuel + 1, reslen =>
    match call reslen with
    | .bufError => growLoop call fuel (reslen * 2)
    | ret => .ok (reslen, ret)

/-- `return string(pres, reslen)`; `mem` is what the last block held at first. -/
def takeResult (mem : FreshMem) : Nat × ZRet → Bytes
  | (_, .ok out) => out
  | (reslen, _) => mem.bytes reslen

def compress (zlib : ZlibLib) (fuel : Nat) (mem : FreshMem) (data : Bytes) : Except Fault Bytes :=
  (growLoop (zlib.compress · data) fuel data.length).map (takeResult mem)

def uncompress (zlib : ZlibLib) (fuel : Nat) (mem : FreshMem) (data : Bytes) : Except Fault Bytes :=
  (growLoop (zlib.uncompress · data) fuel (data.length * 3)).map (takeResult mem)

/-- What the loop ends with is the library's answer for a capacity that the
starting one was doubled to. -/
theorem growLoop_ok (call : Nat → ZRet) (fuel start reslen : Nat) (ret : ZRet)
    (ended : growLoop call fuel start = .ok (reslen, ret)) :
    call reslen = ret ∧ ret ≠ .bufError ∧ ∃ k, reslen = start * 2 ^ k := by
  induction fuel generalizing start with
  | zero => cases ended
  | succ fuel ih =>
    unfold growLoop at ended
    cases answer : call start with
    | bufError =>
      rw [answer] at ended
      obtain ⟨last, settled, k, grown⟩ := ih _ ended
      refine ⟨last, settled, k + 1, ?_⟩
      rw [grown, Nat.pow_succ, Nat.mul_assoc, Nat.mul_comm 2]
    | ok out =>
      rw [answer] at ended
      cases ended
      exact ⟨answer, by simp, 0, by simp⟩
    | error code =>
      rw [answer] at ended
      cases ended
      exact ⟨answer, by simp, 0, by simp⟩

/-- The answer does not depend on how many iterations the model allows. -/
theorem growLoop_unique (call : Nat → ZRet) (fuel fuel' start : Nat) (result result' : Nat × ZRet)
    (ended : growLoop call fuel start = .ok result)
    (ended' : growLoop call fuel' start = .ok result') : result = result' := by
  induction fuel generalizing fuel' start with
  | zero => cases ended
  | succ fuel ih =>
    cases fuel' with
    | zero => cases ended'
    | succ fuel' =>
      unfold growLoop at ended ended'
      cases answer : call start with
      | bufError =>
        rw [answer] at ended ended'
        exact ih _ _ ended ended'
      | ok out =>
        rw [answer] at ended ended'
        cases ended
        cases ended'
        rfl
      | error code =>
        rw [answer] at ended ended'
        cases ended
        cases ended'
        rfl

/-- A library that answers `Z_BUF_ERROR` exactly below the needed size is reached
by doubling from any positive capacity. -/
theorem growLoop_reaches (call : Nat → ZRet) (need : Nat) (out : Bytes)
    (answers : ∀ capacity, call capacity = if need ≤ capacity then .ok out else .bufError)
    (k start : Nat) (enough : need ≤ start * 2 ^ k) :
    ∃ reslen, growLoop call (k + 1) start = .ok (reslen, .ok out) := by
  induction k generalizing start with
  | zero =>
    rw [Nat.pow_zero, Nat.mul_one] at enough
    exact ⟨start, by simp [growLoop, answers, enough]⟩
  | succ k ih =>
    by_cases fits : need ≤ start
    · exact ⟨start, by simp [growLoop, answers, fits]⟩
    · obtain ⟨reslen, ended⟩ := ih (start * 2) (by
        rw [Nat.mul_assoc, Nat.mul_comm 2, ← Nat.pow_succ]
        exact enough)
      exact ⟨reslen, by rw [growLoop, answers, if_neg fits]; exact ended⟩

/-- `Zlib::uncompress` undoes `Zlib::compress`, whatever the fresh blocks held. -/
def Undoes (zlib : ZlibLib) : Prop :=
  ∀ fuel mem x stream, compress zlib fuel mem x = .ok stream →
    ∀ mem', ∃ fuel', uncompress zlib fuel' mem' stream = .ok x

/-- What `Zlib::compress` returns is a zlib stream. -/
def Produces (zlib : ZlibLib) (IsStream : Bytes → Prop) : Prop :=
  ∀ fuel mem x stream, compress zlib fuel mem x = .ok stream → IsStream stream

/-- Octets that are no zlib stream are never decompressed. -/
def Rejects (zlib : ZlibLib) (IsStream : Bytes → Prop) : Prop :=
  ∀ data, ¬ IsStream data → ∀ capacity out, zlib.uncompress capacity data ≠ .ok out

/-- What a failed decompression returns: octets of the fresh block, at least
three for each octet of the input, and as many in every run. -/
theorem uncompress_rejected (zlib : ZlibLib) (IsStream : Bytes → Prop)
    (rejects : Rejects zlib IsStream) (data : Bytes) (foreign : ¬ IsStream data)
    (ended : ∃ fuel mem out, uncompress zlib fuel mem data = .ok out) :
    ∃ k, ∀ fuel mem out, uncompress zlib fuel mem data = .ok out →
      out = mem.bytes (data.length * 3 * 2 ^ k) := by
  obtain ⟨fuel, mem, out, ended⟩ := ended
  unfold uncompress at ended ⊢
  cases first : growLoop (zlib.uncompress · data) fuel (data.length * 3) with
  | error reason =>
    rw [first] at ended
    cases ended
  | ok result =>
    obtain ⟨reslen, ret⟩ := result
    obtain ⟨last, settled, k, grown⟩ := growLoop_ok _ _ _ _ _ first
    refine ⟨k, ?_⟩
    intro fuel' mem' out' ended'
    cases second : growLoop (zlib.uncompress · data) fuel' (data.length * 3) with
    | error reason =>
      rw [second] at ended'
      cases ended'
    | ok result' =>
      rw [second, ← growLoop_unique _ _ _ _ _ _ first second] at ended'
      cases ret with
      | ok bytes => exact absurd last (rejects data foreign _ _)
      | bufError => exact absurd rfl settled
      | error code =>
        cases ended'
        rw [takeResult, grown]
        simp

end Zlib

/-- zlib as its documentation describes it: one stream for each text, `Z_BUF_ERROR`
exactly when the output does not fit, and no output for foreign octets. -/
structure ZlibSpec (zlib : ZlibLib) where
  stream : Bytes → Bytes
  content : Bytes → Option Bytes
  stream_ne_nil : ∀ x, stream x ≠ []
  content_stream : ∀ x, content (stream x) = some x
  compress_eq : ∀ capacity x, zlib.compress capacity x =
    if (stream x).length ≤ capacity then .ok (stream x) else .bufError
  uncompress_content : ∀ {data x}, content data = some x → ∀ capacity,
    zlib.uncompress capacity data = if x.length ≤ capacity then .ok x else .bufError
  uncompress_foreign : ∀ {data}, content data = none → ∀ capacity out,
    zlib.uncompress capacity data ≠ .ok out

namespace ZlibSpec

variable {zlib : ZlibLib} (spec : ZlibSpec zlib)
include spec

theorem compress_ok (fuel : Nat) (mem : FreshMem) (x out : Bytes)
    (compressed : Zlib.compress zlib fuel mem x = .ok out) : out = spec.stream x := by
  unfold Zlib.compress at compressed
  cases ended : Zlib.growLoop (zlib.compress · x) fuel x.length with
  | error f =>
    rw [ended] at compressed
    cases compressed
  | ok result =>
    obtain ⟨reslen, ret⟩ := result
    rw [ended] at compressed
    obtain ⟨last, settled, _⟩ := Zlib.growLoop_ok _ _ _ _ _ ended
    rw [spec.compress_eq] at last
    split at last
    · subst last
      cases compressed
      rfl
    · exact absurd last.symm settled

theorem undoes : Zlib.Undoes zlib := by
  intro fuel mem x stream compressed mem'
  rw [spec.compress_ok fuel mem x stream compressed]
  have positive : 0 < (spec.stream x).length := List.length_pos_iff.mpr (spec.stream_ne_nil x)
  have enough : x.length ≤ (spec.stream x).length * 3 * 2 ^ x.length :=
    calc x.length ≤ 2 ^ x.length := Nat.le_of_lt Nat.lt_two_pow_self
      _ ≤ (spec.stream x).length * 3 * 2 ^ x.length := Nat.le_mul_of_pos_left _ (by omega)
  obtain ⟨reslen, ended⟩ := Zlib.growLoop_reaches _ x.length x
    (spec.uncompress_content (spec.content_stream x)) x.length _ enough
  exact ⟨_, by rw [Zlib.uncompress, ended]; rfl⟩

theorem produces : Zlib.Produces zlib (fun data => (spec.content data).isSome) := by
  intro fuel mem x stream compressed
  rw [spec.compress_ok fuel mem x stream compressed, spec.content_stream]
  rfl

theorem rejects : Zlib.Rejects zlib (fun data => (spec.content data).isSome) := by
  intro data foreign
  exact spec.uncompress_foreign (by simpa using foreign)

end ZlibSpec

end BlmLink.Source
