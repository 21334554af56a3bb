import BlmLink.Source.JsonObjects

/-!
# Who owns a tree

As long as no `Json` that owns a tree is copied, no text of its own tree is parsed by it, and
no item is used whose tree is gone (`Careful`), every tree has exactly one owner and is released
with it: nothing is released twice, used after its release or left behind. Each of the three
conditions is needed: without it the next step fails or a tree has two owners, and the second
one to go releases it again (`single_owners`).
-/
namespace BlmLink.Guarantees.JsonOwners

open BlmLink.Lib BlmLink.Source JsonObjects

variable {D : Type}

/-- The object `v` owns the tree `t`. -/
def Owns (w : JsonObjects D) (v t : Nat) : Prop :=
  ∃ j, w.objs v = some j ∧ j.isowned = true ∧ j.json = some ⟨t, []⟩

/-- Every tree has exactly one owner. -/
def SingleOwners (w : JsonObjects D) : Prop := ∀ t ∈ w.trees.live, ∃! v, Owns w v t

/-- The object `u` points to an item of a tree that is there. -/
def Readable (w : JsonObjects D) (u : Nat) : Prop :=
  ∃ j p, w.objs u = some j ∧ j.json = some p ∧ p.tree ∈ w.trees.live

/-- No owner is copied, no text parsed by the owner of its tree, and no item used that is gone. -/
def Careful (w : JsonObjects D) : Event → Prop
  | .copy _ u => ∀ t, ¬ Owns w u t
  | .parse v _ (some p) => p.tree ∈ w.trees.live ∧ ¬ Owns w v p.tree
  | .get _ u _ | .getAt _ u _ | .read u => Readable w u
  | _ => True

/-- What holds of the objects and trees of a careful program. -/
structure Sound (w : JsonObjects D) : Prop where
  /-- What is owned is the root of a tree that is there. -/
  root : ∀ {v j p}, w.objs v = some j → j.isowned = true → j.json = some p →
    p.path = [] ∧ p.tree ∈ w.trees.live
  single : SingleOwners w
  /-- An item is in its tree as long as that is there. -/
  inside : ∀ {v j p tree}, w.objs v = some j → j.json = some p →
    w.trees.live.lookup p.tree = some tree → (itemAt tree p.path).isSome = true
  /-- No pointer is to a tree that is made later. -/
  made : ∀ {v j p}, w.objs v = some j → j.json = some p → p.tree < w.trees.fresh

theorem sound_init : Sound (init : JsonObjects D) where
  root := by simp [init]
  single := by
    intro t live
    cases live
  inside := by simp [init]
  made := by simp [init]

section changes

variable {w : JsonObjects D} {v u t : Nat} {j : JsonObject}

theorem Sound.owns_live (sound : Sound w) (owns : Owns w v t) : t ∈ w.trees.live := by
  obtain ⟨j, found, owned, points⟩ := owns
  exact (sound.root found owned points).2

theorem Sound.owner_unique (sound : Sound w) (first : Owns w u t) (second : Owns w v t) : u = v :=
  (sound.single t (sound.owns_live first)).unique first second

theorem set_same (w : JsonObjects D) (v : Nat) (j : JsonObject) : (w.set v j).objs v = some j := by
  simp [JsonObjects.set]

theorem set_other (w : JsonObjects D) (j : JsonObject) (other : u ≠ v) :
    (w.set v j).objs u = w.objs u := by
  simp [JsonObjects.set, other]

theorem set_trees (w : JsonObjects D) (v : Nat) (j : JsonObject) : (w.set v j).trees = w.trees := rfl

theorem set_cases {j' : JsonObject} (found : (w.set v j).objs u = some j') :
    (u = v ∧ j' = j) ∨ (u ≠ v ∧ w.objs u = some j') := by
  by_cases same : u = v
  · rw [same, set_same] at found
    exact .inl ⟨same, (Option.some.inj found).symm⟩
  · rw [set_other w j same] at found
    exact .inr ⟨same, found⟩

theorem owns_set : Owns (w.set v j) u t ↔
    (u = v ∧ j.isowned = true ∧ j.json = some ⟨t, []⟩) ∨ (u ≠ v ∧ Owns w u t) := by
  constructor
  · rintro ⟨j', found, owned, points⟩
    rcases set_cases found with ⟨rfl, rfl⟩ | ⟨other, found⟩
    · exact .inl ⟨rfl, owned, points⟩
    · exact .inr ⟨other, j', found, owned, points⟩
  · rintro (⟨rfl, owned, points⟩ | ⟨other, j', found, owned, points⟩)
    · exact ⟨j, set_same w u j, owned, points⟩
    · exact ⟨j', (set_other w j other).trans found, owned, points⟩

/-- A name that is free owns nothing. -/
theorem not_owns_of_free (free : w.objs v = none) (t : Nat) : ¬ Owns w v t := by
  rintro ⟨j, found, _⟩
  rw [free] at found
  cases found

/-- A name that gets an object without a tree of its own. -/
theorem sound_set (sound : Sound w) (free : w.objs v = none)
    (unowned : ∀ p, j.json = some p → j.isowned = false)
    (inside : ∀ p tree, j.json = some p → w.trees.live.lookup p.tree = some tree →
      (itemAt tree p.path).isSome = true)
    (made : ∀ p, j.json = some p → p.tree < w.trees.fresh) : Sound (w.set v j) := by
  have owns_iff : ∀ u t, Owns (w.set v j) u t ↔ Owns w u t := by
    intro u t
    rw [owns_set]
    constructor
    · rintro (⟨rfl, owned, points⟩ | ⟨_, owns⟩)
      · rw [unowned _ points] at owned
        cases owned
      · exact owns
    · intro owns
      refine .inr ⟨?_, owns⟩
      rintro rfl
      exact not_owns_of_free free t owns
  constructor
  · intro u j' p found owned points
    rcases set_cases found with ⟨rfl, rfl⟩ | ⟨_, found⟩
    · rw [unowned p points] at owned
      cases owned
    · exact sound.root found owned points
  · intro t live
    simp only [owns_iff]
    exact sound.single t live
  · intro u j' p tree found points lookup
    rcases set_cases found with ⟨rfl, rfl⟩ | ⟨_, found⟩
    · exact inside p tree points lookup
    · exact sound.inside found points lookup
  · intro u j' p found points
    rcases set_cases found with ⟨rfl, rfl⟩ | ⟨_, found⟩
    · exact made p points
    · exact sound.made found points

/-- A name that gets the owner of a new tree. -/
theorem sound_own (sound : Sound w) (free : w.objs v = none) (tree : Item D) :
    Sound ({ w with trees := w.trees.new tree }.set v ⟨true, some ⟨w.trees.fresh, []⟩⟩) := by
  have mem_new : ∀ t, t ∈ (w.trees.new tree).live ↔ t = w.trees.fresh ∨ t ∈ w.trees.live :=
    fun t => AList.mem_insert _
  constructor
  · intro u j' p found owned points
    rcases set_cases found with ⟨rfl, rfl⟩ | ⟨_, found⟩
    · obtain rfl := Option.some.inj points
      exact ⟨rfl, (mem_new _).mpr (.inl rfl)⟩
    · obtain ⟨root, live⟩ := sound.root found owned points
      exact ⟨root, (mem_new _).mpr (.inr live)⟩
  · intro t live
    simp only [owns_set]
    rcases (mem_new t).mp live with rfl | live
    · refine ⟨v, .inl ⟨rfl, trivial, rfl⟩, ?_⟩
      rintro u (⟨rfl, _⟩ | ⟨_, owns⟩)
      · rfl
      · exact absurd (sound.owns_live owns) w.trees.fresh_not_live
    · obtain ⟨u, owns, only⟩ := sound.single t live
      have other : u ≠ v := by
        rintro rfl
        exact not_owns_of_free free t owns
      refine ⟨u, .inr ⟨other, owns⟩, ?_⟩
      rintro u' (⟨_, _, points⟩ | ⟨_, owns⟩)
      · obtain rfl := congrArg ItemPtr.tree (Option.some.inj points)
        exact absurd live w.trees.fresh_not_live
      · exact only u' owns
  · intro u j' p root found points lookup
    rcases set_cases found with ⟨rfl, rfl⟩ | ⟨_, found⟩
    · obtain rfl := Option.some.inj points
      rfl
    · have before := sound.made found points
      have kept : (w.trees.new tree).live.lookup p.tree = w.trees.live.lookup p.tree :=
        AList.lookup_insert_ne (Nat.ne_of_lt before)
      exact sound.inside found points (kept ▸ lookup)
  · intro u j' p found points
    show p.tree < w.trees.fresh + 1
    rcases set_cases found with ⟨rfl, rfl⟩ | ⟨_, found⟩
    · obtain rfl := Option.some.inj points
      exact Nat.lt_succ_self _
    · exact Nat.lt_succ_of_lt (sound.made found points)

theorem mem_delete {trees trees' : Objects (Item D)} (deleted : trees.delete t = some trees') (q : Nat) :
    q ∈ trees'.live ↔ q ≠ t ∧ q ∈ trees.live := by
  unfold Objects.delete at deleted
  split at deleted
  · cases deleted
    exact AList.mem_erase
  · cases deleted

theorem sound_without (sound : Sound w) {trees : Objects (Item D)} (below : Objects.Below trees w.trees)
    (fresh : trees.fresh = w.trees.fresh)
    (left : ∀ t, t ∈ trees.live ↔ t ∈ w.trees.live ∧ ¬ Owns w v t) :
    Sound ⟨trees, Function.update w.objs v none⟩ := by
  have others : ∀ {u j}, Function.update w.objs v none u = some j → u ≠ v ∧ w.objs u = some j := by
    intro u j found
    by_cases same : u = v
    · simp [same] at found
    · exact ⟨same, by simpa [same] using found⟩
  have owns_iff : ∀ u t, Owns ⟨trees, Function.update w.objs v none⟩ u t ↔ u ≠ v ∧ Owns w u t := by
    intro u t
    constructor
    · rintro ⟨j, found, owned, points⟩
      obtain ⟨other, found⟩ := others found
      exact ⟨other, j, found, owned, points⟩
    · rintro ⟨other, j, found, owned, points⟩
      exact ⟨j, by simpa [other] using found, owned, points⟩
  constructor
  · intro u j p found owned points
    obtain ⟨other, found⟩ := others found
    obtain ⟨root, live⟩ := sound.root found owned points
    refine ⟨root, (left _).mpr ⟨live, fun owns => other ?_⟩⟩
    exact sound.owner_unique ⟨j, found, owned, by rw [points, ← root]⟩ owns
  · intro t live
    obtain ⟨present, unowned⟩ := (left t).mp live
    obtain ⟨u, owns, only⟩ := sound.single t present
    have other : u ≠ v := by
      rintro rfl
      exact unowned owns
    refine ⟨u, (owns_iff u t).mpr ⟨other, owns⟩, fun u' owns => ?_⟩
    exact only u' ((owns_iff u' t).mp owns).2
  · intro u j p tree found points lookup
    exact sound.inside (others found).2 points (below.lookup lookup)
  · intro u j p found points
    show p.tree < trees.fresh
    rw [fresh]
    exact sound.made (others found).2 points

/-- A name that goes, with the tree it owns, if it owns one. -/
theorem sound_release (sound : Sound w) (found : w.objs v = some j) :
    ∃ trees, w.deleteOwned j = .ok trees ∧ Sound ⟨trees, Function.update w.objs v none⟩ ∧
      Objects.Below trees w.trees ∧ ∀ t, t ∈ trees.live ↔ t ∈ w.trees.live ∧ ¬ Owns w v t := by
  have nothing : (∀ p, j.json = some p → j.isowned = false) → ∀ t, ¬ Owns w v t := by
    rintro unowned t ⟨j', given, owned, points⟩
    obtain rfl := Option.some.inj (found.symm.trans given)
    rw [unowned _ points] at owned
    cases owned
  have kept : (∀ t, ¬ Owns w v t) → w.deleteOwned j = .ok w.trees →
      ∃ trees, w.deleteOwned j = .ok trees ∧ Sound ⟨trees, Function.update w.objs v none⟩ ∧
        Objects.Below trees w.trees ∧ ∀ t, t ∈ trees.live ↔ t ∈ w.trees.live ∧ ¬ Owns w v t := by
    intro unowned done
    have left : ∀ t, t ∈ w.trees.live ↔ t ∈ w.trees.live ∧ ¬ Owns w v t :=
      fun t => ⟨fun live => ⟨live, unowned t⟩, And.left⟩
    exact ⟨w.trees, done, sound_without sound (.refl _) rfl left, .refl _, left⟩
  cases points : j.json with
  | none =>
    refine kept (nothing (by simp [points])) ?_
    simp [deleteOwned, points]
  | some p =>
    cases owned : j.isowned with
    | false =>
      refine kept (nothing (by simp [owned])) ?_
      simp [deleteOwned, points, owned]
    | true =>
      obtain ⟨root, live⟩ := sound.root found owned points
      obtain ⟨trees, deleted, _, fresh⟩ := w.trees.delete_live live
      have left : ∀ t, t ∈ trees.live ↔ t ∈ w.trees.live ∧ ¬ Owns w v t := by
        intro t
        rw [mem_delete deleted t, and_comm]
        refine and_congr_right fun _ => not_congr ?_
        constructor
        · rintro rfl
          exact ⟨j, found, owned, by rw [points, ← root]⟩
        · rintro ⟨j', given, _, points'⟩
          obtain rfl := Option.some.inj (found.symm.trans given)
          rw [points] at points'
          exact (congrArg ItemPtr.tree (Option.some.inj points')).symm
      refine ⟨trees, ?_, sound_without sound (Objects.delete_below deleted) fresh left,
        Objects.delete_below deleted, left⟩
      simp [deleteOwned, points, owned, deleted]

end changes

section lookups

variable {w : JsonObjects D} {u v : Nat} {j : JsonObject}

theorem itemAt_append (item : Item D) (path : List Nat) (i : Nat) :
    itemAt item (path ++ [i]) = (itemAt item path).bind fun parent => parent.child[i]? := by
  induction path generalizing item with
  | nil => simp [itemAt]
  | cons k path ih =>
    simp only [List.cons_append, itemAt]
    cases item.child[k]? with
    | none => rfl
    | some child => exact ih child

/-- What a lookup returns is a child of the item. -/
def Finds (find : Item D → ItemPtr → Option ItemPtr) : Prop :=
  ∀ item p q, find item p = some q → ∃ i, i < item.child.length ∧ q = p.child i

theorem finds_member (name : Bytes) : Finds fun (item : Item D) p => cJSON_GetObjectItem item p name := by
  intro item p q found
  obtain ⟨i, at_, rfl⟩ := Option.map_eq_some_iff.mp found
  exact ⟨i, (List.findIdx?_eq_some_iff_getElem.mp at_).1, rfl⟩

theorem finds_index (index : Int) : Finds fun (item : Item D) p => cJSON_GetArrayItem item p index := by
  intro item p q found
  simp only [cJSON_GetArrayItem, Option.ite_none_right_eq_some, Option.some.injEq] at found
  exact ⟨_, found.1, found.2.symm⟩

/-- An item is there exactly if the object is readable. -/
theorem item_cases (sound : Sound w) (found : w.objs u = some j) :
    (Readable w u ∧ ∃ p tree item, j.json = some p ∧ w.trees.live.lookup p.tree = some tree ∧
      itemAt tree p.path = some item ∧ w.item j = .ok (p, item)) ∨
    (¬ Readable w u ∧ ∃ fault, w.item j = .error fault) := by
  cases points : j.json with
  | none =>
    refine .inr ⟨?_, .nullPointer, by simp [JsonObjects.item, points]⟩
    rintro ⟨j', p, given, points', _⟩
    obtain rfl := Option.some.inj (found.symm.trans given)
    rw [points] at points'
    cases points'
  | some p =>
    cases lookup : w.trees.live.lookup p.tree with
    | none =>
      refine .inr ⟨?_, .useAfterFree, by simp [JsonObjects.item, points, lookup]⟩
      rintro ⟨j', p', given, points', live⟩
      obtain rfl := Option.some.inj (found.symm.trans given)
      obtain rfl := Option.some.inj (points.symm.trans points')
      obtain ⟨tree, there⟩ := Objects.lookup_live live
      rw [lookup] at there
      cases there
    | some tree =>
      obtain ⟨item, at_⟩ := Option.isSome_iff_exists.mp (sound.inside found points lookup)
      refine .inl ⟨⟨j, p, found, points, Objects.live_of_lookup lookup⟩, p, tree, item, rfl, lookup,
        at_, ?_⟩
      simp [JsonObjects.item, points, lookup, at_]

theorem lookup_cases (sound : Sound w) (found : w.objs u = some j) (free : w.objs v = none)
    {find : Item D → ItemPtr → Option ItemPtr} (finds : Finds find) :
    (Readable w u ∧ ∃ w', w.lookup v j find = .ok w' ∧ Sound w') ∨
    (¬ Readable w u ∧ ∃ fault, w.lookup v j find = .error fault) := by
  rcases item_cases sound found with
    ⟨readable, p, tree, item, points, lookup, at_, reads⟩ | ⟨unreadable, fault, reads⟩
  · refine .inl ⟨readable, w.set v ⟨false, find item p⟩, by simp [JsonObjects.lookup, reads], ?_⟩
    refine sound_set sound free (fun _ _ => rfl) ?_ ?_
    · intro q tree' got lookup'
      obtain ⟨i, within, rfl⟩ := finds item p q got
      obtain rfl := Option.some.inj (lookup.symm.trans lookup')
      simp [ItemPtr.child, itemAt_append, at_, within]
    · intro q got
      obtain ⟨i, _, rfl⟩ := finds item p q got
      show p.tree < w.trees.fresh
      exact sound.made found points
  · exact .inr ⟨unreadable, fault, by simp [JsonObjects.lookup, reads]⟩

end lookups

section steps

variable {parser : Bytes → Option (Item D)} {w w' : JsonObjects D} {e : Event} {u v t : Nat}
  {j : JsonObject}

/-- An object that gets another value. -/
theorem set_without (trees : Objects (Item D)) (j : JsonObject) :
    { w with trees := trees }.set v j =
      JsonObjects.set ⟨trees, Function.update w.objs v none⟩ v j := by
  simp [JsonObjects.set]

theorem parse_cases (parser : Bytes → Option (Item D)) (sound : Sound w)
    (found : w.objs v = some j) (str : Bytes) (storage : Option ItemPtr) :
    (Careful w (.parse v str storage) ∧ ∃ w', w.parse parser v j str storage = .ok w' ∧ Sound w') ∨
    (¬ Careful w (.parse v str storage) ∧ ∃ fault, w.parse parser v j str storage = .error fault) := by
  obtain ⟨trees, deleted, rest, _, left⟩ := sound_release sound found
  have free : Function.update w.objs v none v = none := by simp
  have readable : Careful w (.parse v str storage) ↔
      (storage.all fun p => (trees.live.lookup p.tree).isSome) = true := by
    cases storage with
    | none => simp [Careful]
    | some p => simp only [Careful, Option.all_some, AList.lookup_isSome, left]
  by_cases careful : Careful w (.parse v str storage)
  · refine .inl ⟨careful, ?_⟩
    simp only [JsonObjects.parse, deleted, if_pos (readable.mp careful), set_without]
    cases parser str with
    | none => exact ⟨_, rfl, sound_set rest free (by simp) (by simp) (by simp)⟩
    | some tree => exact ⟨_, rfl, by simpa [JsonObjects.set] using sound_own rest free tree⟩
  · refine .inr ⟨careful, .useAfterFree, ?_⟩
    simp only [JsonObjects.parse, deleted, if_neg (mt readable.mpr careful)]

theorem copy_cases (sound : Sound w) (found : w.objs u = some j) (free : w.objs v = none) :
    (Careful w (.copy v u) ∧ Sound (w.set v j)) ∨
    (¬ Careful w (.copy v u) ∧ ¬ SingleOwners (w.set v j)) := by
  by_cases careful : Careful w (.copy v u)
  · refine .inl ⟨careful, sound_set sound free ?_ ?_ ?_⟩
    · intro p points
      cases owned : j.isowned with
      | false => rfl
      | true =>
        obtain ⟨root, _⟩ := sound.root found owned points
        exact absurd ⟨j, found, owned, by rw [points, ← root]⟩ (careful p.tree)
    · exact fun p tree points lookup => sound.inside found points lookup
    · exact fun p points => sound.made found points
  · refine .inr ⟨careful, fun single => ?_⟩
    simp only [Careful, not_forall, not_not] at careful
    obtain ⟨t, owns⟩ := careful
    have live := sound.owns_live owns
    obtain ⟨j', given, owned, points⟩ := owns
    obtain rfl := Option.some.inj (found.symm.trans given)
    have other : u ≠ v := by
      rintro rfl
      rw [free] at found
      cases found
    have original : Owns (w.set v j) u t := owns_set.mpr (.inr ⟨other, j, found, owned, points⟩)
    have copied : Owns (w.set v j) v t := owns_set.mpr (.inl ⟨rfl, owned, points⟩)
    exact other ((single t live).unique original copied)

/-- A step that fails leaves nothing. -/
theorem failing {result : Except JsonFault (JsonObjects D)}
    (outcome : (Careful w e ∧ ∃ w', result = .ok w' ∧ Sound w') ∨
      (¬ Careful w e ∧ ∃ fault, result = .error fault)) :
    (Careful w e ∧ ∃ w', result = .ok w' ∧ Sound w') ∨
    (¬ Careful w e ∧ ∀ w', result = .ok w' → ¬ SingleOwners w') := by
  refine outcome.imp_right ?_
  rintro ⟨careless, fault, failed⟩
  refine ⟨careless, fun w' same => ?_⟩
  rw [failed] at same
  cases same

/-- A careful step succeeds and keeps the trees in order; another one fails, or leaves a tree
with two owners. -/
theorem step_cases {result : Except JsonFault (JsonObjects D)} (sound : Sound w)
    (taken : JsonObjects.next parser w e = some result) :
    (Careful w e ∧ ∃ w', result = .ok w' ∧ Sound w') ∨
    (¬ Careful w e ∧ ∀ w', result = .ok w' → ¬ SingleOwners w') := by
  cases e with
  | construct v =>
    simp only [JsonObjects.next, Option.ite_none_right_eq_some, Option.some.injEq] at taken
    obtain ⟨free, rfl⟩ := taken
    exact .inl ⟨trivial, _, rfl, sound_set sound free (by simp) (by simp) (by simp)⟩
  | copy v u =>
    simp only [JsonObjects.next, Option.ite_none_right_eq_some, Option.map_eq_some_iff] at taken
    obtain ⟨free, j, found, rfl⟩ := taken
    rcases copy_cases sound found free with ⟨careful, sound⟩ | ⟨careless, shared⟩
    · exact .inl ⟨careful, _, rfl, sound⟩
    · refine .inr ⟨careless, fun w' same => ?_⟩
      cases same
      exact shared
  | destroy v =>
    obtain ⟨j, found, rfl⟩ := Option.map_eq_some_iff.mp taken
    obtain ⟨trees, deleted, rest, _⟩ := sound_release sound found
    exact .inl ⟨trivial, _, by rw [deleted]; rfl, rest⟩
  | parse v str storage =>
    obtain ⟨j, found, rfl⟩ := Option.map_eq_some_iff.mp taken
    exact failing (parse_cases parser sound found str storage)
  | get v u name =>
    simp only [JsonObjects.next, Option.ite_none_right_eq_some, Option.map_eq_some_iff] at taken
    obtain ⟨free, j, found, rfl⟩ := taken
    exact failing (lookup_cases sound found free (finds_member name))
  | getAt v u index =>
    simp only [JsonObjects.next, Option.ite_none_right_eq_some, Option.map_eq_some_iff] at taken
    obtain ⟨free, j, found, rfl⟩ := taken
    exact failing (lookup_cases sound found free (finds_index index))
  | read u =>
    obtain ⟨j, found, rfl⟩ := Option.map_eq_some_iff.mp taken
    refine failing ((item_cases sound found).imp ?_ ?_)
    · rintro ⟨readable, p, tree, item, _, _, _, reads⟩
      exact ⟨readable, w, by rw [reads]; rfl, sound⟩
    · rintro ⟨unreadable, fault, reads⟩
      exact ⟨unreadable, fault, by rw [reads]; rfl⟩

/-- The second owner of a tree to go releases it again. -/
theorem copied_owner (sound : Sound w) (owns : Owns w u t)
    (copied : JsonObjects.next parser w (.copy v u) = some (.ok w')) :
    ∃ w₂, JsonObjects.next parser w' (.destroy v) = some (.ok w₂) ∧
      JsonObjects.next parser w₂ (.destroy u) = some (.error .doubleFree) := by
  have live := sound.owns_live owns
  obtain ⟨j, found, owned, points⟩ := owns
  simp only [JsonObjects.next, Option.ite_none_right_eq_some, Option.map_eq_some_iff, Except.ok.injEq] at copied
  obtain ⟨free, j', given, rfl⟩ := copied
  obtain rfl := Option.some.inj (found.symm.trans given)
  have other : u ≠ v := by
    rintro rfl
    rw [free] at found
    cases found
  obtain ⟨trees, deleted, _, _⟩ := w.trees.delete_live live
  have gone : trees.delete t = none := by
    rw [Objects.delete, dif_neg]
    exact fun still => ((mem_delete deleted t).mp still).1 rfl
  refine ⟨⟨trees, Function.update (w.set v j).objs v none⟩, ?_, ?_⟩
  · simp only [JsonObjects.next, set_same, Option.map_some, deleteOwned, points, owned, if_true,
      set_trees, deleted]
    rfl
  · have still : Function.update (w.set v j).objs v none u = some j := by
      rw [Function.update_of_ne other, set_other w j other, found]
    simp only [JsonObjects.next, still, Option.map_some, deleteOwned, points, owned, if_true, gone]
    rfl

end steps

section runs

variable {w : JsonObjects D} {es : List Event}

theorem sound_run {parser : Bytes → Option (Item D)}
    (run : Trace.Run (Trace.Guarded (Trace.ofFallible (JsonObjects.next parser)) Careful) init es w) :
    Sound w := by
  refine run.invariant sound_init ?_
  rintro w e w' sound ⟨taken, careful⟩
  rcases step_cases sound taken with ⟨_, w'', same, sound⟩ | ⟨careless, _⟩
  · cases same
    exact sound
  · exact absurd careful careless

/-- In a careful run every tree has exactly one owner, and none is left when no object is. A step
that is possible then succeeds and keeps it so exactly if it is careful; and when an owner is
copied, the copy and the original go with a second release. -/
theorem single_owners (parser : Bytes → Option (Item D))
    (run : Trace.Run (Trace.Guarded (Trace.ofFallible (JsonObjects.next parser)) Careful) init es w) :
    SingleOwners w ∧ ((∀ v, w.objs v = none) → ∀ t, t ∉ w.trees.live) ∧
    (∀ e result, JsonObjects.next parser w e = some result →
      ((∃ w', result = .ok w' ∧ SingleOwners w') ↔ Careful w e)) ∧
    (∀ u v t w', Owns w u t → JsonObjects.next parser w (.copy v u) = some (.ok w') →
      ∃ w₂, JsonObjects.next parser w' (.destroy v) = some (.ok w₂) ∧
        JsonObjects.next parser w₂ (.destroy u) = some (.error .doubleFree)) := by
  have sound := sound_run run
  refine ⟨sound.single, ?_, ?_, fun u v t w' owns copied => copied_owner sound owns copied⟩
  · intro none t live
    obtain ⟨v, ⟨j, found, _⟩, _⟩ := sound.single t live
    rw [none v] at found
    cases found
  · intro e result taken
    rcases step_cases sound taken with ⟨careful, w', same, after⟩ | ⟨careless, shared⟩
    · exact iff_of_true ⟨w', same, after.single⟩ careful
    · refine iff_of_false ?_ careless
      rintro ⟨w', same, single⟩
      exact shared w' same single

/-- An object with one member. -/
def sampleTree : Item Unit :=
  ⟨.cJSON_Object, none, 0, (), none, [⟨.cJSON_True, none, 1, (), some [chr 'a'], []⟩]⟩

/-- A tree is parsed and a member looked up; then the owner parses another text. -/
def sampleCalls : List Event :=
  [.construct 0, .parse 0 [] none, .get 1 0 [chr 'A'], .read 1, .parse 0 [] none]

theorem single_owners_sample :
    ∃ w, Trace.Run (Trace.Guarded (Trace.ofFallible (JsonObjects.next fun _ => some sampleTree)) Careful)
        init sampleCalls w ∧ SingleOwners w ∧ ¬ Careful w (.read 1) := by
  obtain ⟨w, run, dangling⟩ : ∃ w,
      Trace.Run (Trace.Guarded (Trace.ofFallible (JsonObjects.next fun _ => some sampleTree)) Careful)
        init sampleCalls w ∧
      JsonObjects.next (fun _ => some sampleTree) w (.read 1) = some (.error .useAfterFree) :=
    ⟨_, .cons ⟨rfl, trivial⟩ (.cons ⟨rfl, trivial⟩
      (.cons ⟨rfl, _, _, rfl, rfl, Objects.live_of_lookup (o := sampleTree) rfl⟩
        (.cons ⟨rfl, _, _, rfl, rfl, Objects.live_of_lookup (o := sampleTree) rfl⟩
          (.cons ⟨rfl, trivial⟩ (.nil _))))), rfl⟩
  obtain ⟨single, _, exact_, _⟩ := single_owners _ run
  refine ⟨w, run, single, fun careful => ?_⟩
  obtain ⟨w', same, _⟩ := (exact_ _ _ dangling).mpr careful
  cases same

end runs

end BlmLink.Guarantees.JsonOwners
