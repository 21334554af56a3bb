import Mathlib

/-!
# Objects on the heap

Objects made with `new` and released with `delete`, named by the order of their
creation, so no name is used again. The structure keeps the account: an object
was created, and it is either live or was released once.
-/
namespace BlmLink.Lib

structure Objects (ο : Type) where
  live : AList fun _ : Nat => ο
  /-- The name of the next object. -/
  fresh : Nat
  /-- The objects released, in order. -/
  released : List Nat
  released_nodup : released.Nodup
  mem_released : ∀ p, p ∈ released ↔ p < fresh ∧ p ∉ live
  live_lt : ∀ p ∈ live, p < fresh

namespace Objects

variable {ο : Type}

def init : Objects ο where
  live := ∅
  fresh := 0
  released := []
  released_nodup := List.nodup_nil
  mem_released := by simp
  live_lt := by simp

def Created (h : Objects ο) (p : Nat) : Prop := p < h.fresh

instance (h : Objects ο) (p : Nat) : Decidable (h.Created p) :=
  inferInstanceAs (Decidable (p < h.fresh))

theorem fresh_not_live (h : Objects ο) : h.fresh ∉ h.live := by
  intro live
  exact absurd (h.live_lt _ live) (Nat.lt_irrefl _)

theorem lookup_live {h : Objects ο} {p : Nat} (live : p ∈ h.live) :
    ∃ o, h.live.lookup p = some o :=
  Option.isSome_iff_exists.mp (AList.lookup_isSome.mpr live)

theorem live_of_lookup {h : Objects ο} {p : Nat} {o : ο} (found : h.live.lookup p = some o) :
    p ∈ h.live :=
  AList.lookup_isSome.mp (Option.isSome_iff_exists.mpr ⟨o, found⟩)

/-- `new`: the object gets the name `fresh`. -/
def new (h : Objects ο) (o : ο) : Objects ο where
  live := h.live.insert h.fresh o
  fresh := h.fresh + 1
  released := h.released
  released_nodup := h.released_nodup
  mem_released := by
    intro p
    rw [h.mem_released, AList.mem_insert]
    have fresh := h.fresh_not_live
    constructor
    · rintro ⟨created, dead⟩
      exact ⟨by omega, by simp only [not_or]; exact ⟨by omega, dead⟩⟩
    · rintro ⟨created, dead⟩
      simp only [not_or] at dead
      exact ⟨by omega, dead.2⟩
  live_lt := by
    intro p live
    rw [AList.mem_insert] at live
    rcases live with rfl | live
    · omega
    · have := h.live_lt p live
      omega

/-- `delete`; `none` when the object is not live. -/
def delete (h : Objects ο) (p : Nat) : Option (Objects ο) :=
  if live : p ∈ h.live then
    some {
      live := h.live.erase p
      fresh := h.fresh
      released := h.released ++ [p]
      released_nodup := by
        refine List.nodup_append.mpr ⟨h.released_nodup, List.nodup_singleton p, ?_⟩
        rintro q before _ last rfl
        rw [List.mem_singleton] at last
        subst last
        exact ((h.mem_released q).mp before).2 live
      mem_released := by
        intro q
        rw [List.mem_append, h.mem_released, List.mem_singleton, AList.mem_erase]
        have created := h.live_lt p live
        constructor
        · rintro (⟨made, dead⟩ | rfl)
          · exact ⟨made, fun still => dead still.2⟩
          · exact ⟨created, fun still => still.1 rfl⟩
        · rintro ⟨made, dead⟩
          by_cases same : q = p
          · exact .inr same
          · exact .inl ⟨made, fun still => dead ⟨same, still⟩⟩
      live_lt := by
        intro q still
        exact h.live_lt q (AList.mem_erase.mp still).2 }
  else none

/-- An assignment to the members of an object; nothing when it is not live. -/
def set (h : Objects ο) (p : Nat) (o : ο) : Objects ο where
  live := h.live.replace p o
  fresh := h.fresh
  released := h.released
  released_nodup := h.released_nodup
  mem_released := by simpa using h.mem_released
  live_lt := by simpa using h.live_lt

/-- `delete` of each object of a list. -/
def deleteAll (h : Objects ο) (ps : List Nat) : Option (Objects ο) := ps.foldlM delete h

@[simp] theorem keys_set (h : Objects ο) (p : Nat) (o : ο) : (h.set p o).live.keys = h.live.keys :=
  AList.keys_replace _ _ _

theorem keys_new (h : Objects ο) (o : ο) : (h.new o).live.keys = h.fresh :: h.live.keys := by
  show (h.live.insert h.fresh o).keys = _
  rw [AList.keys_insert, List.erase_of_not_mem]
  exact h.fresh_not_live

theorem delete_live (h : Objects ο) {p : Nat} (live : p ∈ h.live) :
    ∃ h', h.delete p = some h' ∧ h'.live.keys = h.live.keys.erase p ∧ h'.fresh = h.fresh := by
  refine ⟨_, dif_pos live, ?_, rfl⟩
  exact AList.keys_erase _ _

theorem delete_fresh {h h' : Objects ο} {p : Nat} (deleted : h.delete p = some h') :
    h'.fresh = h.fresh := by
  unfold delete at deleted
  split at deleted
  · cases deleted
    rfl
  · cases deleted

theorem lookup_delete {h h' : Objects ο} {p q : Nat} (deleted : h.delete p = some h')
    (other : q ≠ p) : h'.live.lookup q = h.live.lookup q := by
  unfold delete at deleted
  split at deleted
  · cases deleted
    exact AList.lookup_erase_ne other
  · cases deleted

/-- The objects of `h` are objects of `h'`, with the same members. -/
structure Below (h h' : Objects ο) : Prop where
  lookup : ∀ {p o}, h.live.lookup p = some o → h'.live.lookup p = some o

theorem Below.refl (h : Objects ο) : Below h h := ⟨fun found => found⟩

theorem Below.trans {h₁ h₂ h₃ : Objects ο} (first : Below h₁ h₂) (second : Below h₂ h₃) :
    Below h₁ h₃ :=
  ⟨fun found => second.lookup (first.lookup found)⟩

theorem delete_below {h h' : Objects ο} {p : Nat} (deleted : h.delete p = some h') :
    Below h' h := by
  constructor
  intro q o found
  unfold delete at deleted
  split at deleted
  · cases deleted
    by_cases same : q = p
    · subst same
      rw [AList.lookup_erase] at found
      cases found
    · rwa [AList.lookup_erase_ne same] at found
  · cases deleted

theorem deleteAll_below {h h' : Objects ο} {ps : List Nat} (deleted : h.deleteAll ps = some h') :
    Below h' h := by
  induction ps generalizing h with
  | nil =>
    cases deleted
    exact Below.refl h'
  | cons p ps ih =>
    rw [deleteAll, List.foldlM_cons] at deleted
    obtain ⟨h₁, first, rest⟩ := Option.bind_eq_some_iff.mp deleted
    exact (ih rest).trans (delete_below first)

theorem lookup_new (h : Objects ο) (o : ο) {q : Nat} (live : q ∈ h.live) :
    (h.new o).live.lookup q = h.live.lookup q := by
  apply AList.lookup_insert_ne
  rintro rfl
  exact h.fresh_not_live live

theorem dlookup_kreplace (p q : Nat) (o : ο) (l : List (Sigma fun _ : Nat => ο)) :
    List.dlookup q (List.kreplace p o l) =
      if q = p then (List.dlookup q l).map fun _ => o else List.dlookup q l := by
  induction l with
  | nil => simp [List.kreplace]
  | cons entry l ih =>
    obtain ⟨key, value⟩ := entry
    unfold List.kreplace at ih ⊢
    by_cases here : p = key
    · subst here
      rw [List.lookmap_cons_some _ l (if_pos rfl)]
      by_cases same : q = p
      · subst same
        simp
      · simp [same]
    · rw [List.lookmap_cons_none _ _ (by simp [here])]
      by_cases same : q = key
      · subst same
        have different : q ≠ p := fun equal => here equal.symm
        simp [different]
      · rw [List.dlookup_cons_ne _ _ same, ih, List.dlookup_cons_ne _ _ same]

theorem lookup_set {h : Objects ο} {p : Nat} {o old : ο} (live : h.live.lookup p = some old) :
    (h.set p o).live.lookup p = some o := by
  apply (dlookup_kreplace p p o h.live.entries).trans
  rw [if_pos rfl, show List.dlookup p h.live.entries = some old from live]
  rfl

theorem lookup_set_ne {h : Objects ο} {p q : Nat} {o : ο} (other : q ≠ p) :
    (h.set p o).live.lookup q = h.live.lookup q :=
  (dlookup_kreplace p q o h.live.entries).trans (if_neg other)

/-- Deleting part of the live objects, each once, leaves the others. -/
theorem deleteAll_part (h : Objects ο) (ps rest : List Nat)
    (live : h.live.keys.Perm (ps ++ rest)) :
    ∃ h', h.deleteAll ps = some h' ∧ h'.live.keys.Perm rest ∧ h'.fresh = h.fresh := by
  induction ps generalizing h with
  | nil => exact ⟨h, rfl, live, rfl⟩
  | cons p ps ih =>
    have first : p ∈ h.live := live.symm.mem_iff.mp (by simp)
    obtain ⟨h₁, deleted, keys, fresh⟩ := h.delete_live first
    have others : h₁.live.keys.Perm (ps ++ rest) := by
      rw [keys]
      simpa using live.erase p
    obtain ⟨h₂, allDeleted, left, same⟩ := ih h₁ others
    refine ⟨h₂, ?_, left, same.trans fresh⟩
    rw [deleteAll, List.foldlM_cons, deleted]
    exact allDeleted

/-- References that are the live objects, each once: an object created and not
released is referenced exactly once, and no other is. -/
theorem count_of_perm (h : Objects ο) {refs : List Nat} (exact : refs.Perm h.live.keys) (p : Nat) :
    refs.count p = if h.Created p ∧ p ∉ h.released then 1 else 0 := by
  have account := h.mem_released p
  have created := h.live_lt p
  rw [exact.count_eq, h.live.keys_nodup.count]
  unfold Created
  by_cases live : p ∈ h.live
  · rw [if_pos (AList.mem_keys.mp live),
      if_pos ⟨created live, fun gone => (account.mp gone).2 live⟩]
  · rw [if_neg (fun key => live (AList.mem_keys.mpr key)),
      if_neg (fun kept => kept.2 (account.mpr ⟨kept.1, live⟩))]

end Objects

end BlmLink.Lib
