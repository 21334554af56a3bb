import Mathlib

/-!
# Parsers that take a value off the front of a list

A parser returns a value and what remains of the text, or stops. The rules below say
how sequencing carries over what a development needs of its parsers: that one returns
whatever another returns (`Extends`), that what remains is an end of the text (`Trims`),
that the value does not depend on the text behind it (`Reads`), and that a run is a
call at some place of the text followed by a continuation of its result (`Calls`).
How far the text behind a value may change is a relation of the development's own that
a common front preserves (`Likeness`).
-/
namespace BlmLink.Lib.Parsing

variable {ε α β γ δ : Type}

abbrev Parser (ε α β : Type) := List α → Except ε (β × List α)

def andThen (f : Parser ε α β) (g : β → Parser ε α γ) : Parser ε α γ :=
  fun text => f text >>= fun result => g result.1 result.2

/-- Takes nothing. -/
def done (value : β) : Parser ε α β := fun rest => .ok (value, rest)

theorem andThen_ok {f : Parser ε α β} {g : β → Parser ε α γ} {text : List α}
    {result : γ × List α} (h : andThen f g text = .ok result) :
    ∃ value middle, f text = .ok (value, middle) ∧ g value middle = .ok result := by
  unfold andThen at h
  cases first : f text with
  | error reason =>
    rw [first] at h
    cases h
  | ok read =>
    rw [first] at h
    exact ⟨read.1, read.2, rfl, h⟩

theorem andThen_eq {f : Parser ε α β} {g : β → Parser ε α γ} {text middle : List α} {value : β}
    (first : f text = .ok (value, middle)) : andThen f g text = g value middle := by
  unfold andThen
  rw [first]
  rfl

theorem andThen_congr {f f' : Parser ε α β} {g g' : β → Parser ε α γ} {text : List α}
    (first : f text = f' text)
    (second : ∀ value middle, f' text = .ok (value, middle) → g value middle = g' value middle) :
    andThen f g text = andThen f' g' text := by
  unfold andThen
  rw [first]
  cases read : f' text with
  | error reason => rfl
  | ok result => exact second result.1 result.2 read

theorem andThen_ne {f : Parser ε α β} {g : β → Parser ε α γ} {text : List α} {reason : ε}
    (first : f text ≠ .error reason)
    (second : ∀ value middle, f text = .ok (value, middle) → g value middle ≠ .error reason) :
    andThen f g text ≠ .error reason := by
  cases read : f text with
  | error other =>
    unfold andThen
    rw [read] at first ⊢
    intro same
    cases same
    exact first rfl
  | ok result =>
    rw [andThen_eq read]
    exact second result.1 result.2 read

/-- `g` returns whatever `f` returns. -/
def Extends (f g : Parser ε α β) : Prop :=
  ∀ ⦃text result⦄, f text = .ok result → g text = .ok result

theorem Extends.refl (f : Parser ε α β) : Extends f f := fun _ _ h => h

theorem Extends.andThen {f f' : Parser ε α β} {g g' : β → Parser ε α γ}
    (first : Extends f f') (second : ∀ value, Extends (g value) (g' value)) :
    Extends (andThen f g) (andThen f' g') := by
  intro text result h
  obtain ⟨value, middle, read, next⟩ := andThen_ok h
  rw [andThen_eq (first read)]
  exact second value next

/-- What remains is an end of the text. -/
def Trims (f : Parser ε α β) : Prop :=
  ∀ ⦃text value rest⦄, f text = .ok (value, rest) → rest <:+ text

theorem Trims.andThen {f : Parser ε α β} {g : β → Parser ε α γ} (first : Trims f)
    (second : ∀ value, Trims (g value)) : Trims (andThen f g) := by
  intro text result rest h
  obtain ⟨value, middle, read, next⟩ := andThen_ok h
  exact (second value next).trans (first read)

theorem trims_done (value : β) : Trims (done value : Parser ε α β) := by
  intro text result rest h
  cases h
  exact List.suffix_rfl

/-- Which texts a parser need not tell apart behind what it reads. -/
structure Likeness (α : Type) where
  like : List α → List α → Prop
  prepend : ∀ (front : List α) {rest other}, like rest other → like (front ++ rest) (front ++ other)

/-- `f` takes `value` off `text` up to `rest`, and does so before any text like `rest`. -/
def Reads (near : Likeness α) (f : Parser ε α β) (text : List α) (value : β) (rest : List α) :
    Prop :=
  ∃ front, text = front ++ rest ∧
    ∀ other, near.like rest other → f (front ++ other) = .ok (value, other)

theorem Reads.andThen {near : Likeness α} {f : Parser ε α β} {g : β → Parser ε α γ}
    {text middle rest : List α} {value : β} {result : γ} (first : Reads near f text value middle)
    (second : Reads near (g value) middle result rest) :
    Reads near (andThen f g) text result rest := by
  obtain ⟨front, rfl, read⟩ := first
  obtain ⟨more, rfl, next⟩ := second
  apply Exists.intro (front ++ more)
  apply And.intro (List.append_assoc ..).symm
  intro other like
  rw [List.append_assoc, andThen_eq (read _ (near.prepend more like))]
  exact next other like

/-- `f` reads whatever it returns before a rest that meets `stop`. -/
def Frames (near : Likeness α) (stop : List α → Prop) (f : Parser ε α β) : Prop :=
  ∀ ⦃text value rest⦄, f text = .ok (value, rest) → stop rest → Reads near f text value rest

theorem frames_done (near : Likeness α) (stop : List α → Prop) (value : β) :
    Frames near stop (done value : Parser ε α β) := by
  intro text result rest h _
  cases h
  exact ⟨[], rfl, fun _ _ => rfl⟩

theorem Frames.andThen {near : Likeness α} {stop stop' : List α → Prop} {f : Parser ε α β}
    {g : β → Parser ε α γ} (first : Frames near stop f)
    (second : ∀ value, Frames near stop' (g value))
    (between : ∀ {value middle result rest}, g value middle = .ok (result, rest) →
      stop' rest → stop middle) :
    Frames near stop' (andThen f g) := by
  intro text result rest h stopped
  obtain ⟨value, middle, read, next⟩ := andThen_ok h
  exact (first read (between next stopped)).andThen (second value next stopped)

/-- On a text that begins with `front`, `f` calls `g` behind it and continues with the
result, whatever is there in place of `site`. -/
def Calls (swap : List α → List α → Prop) (f : Parser ε α β) (front : List α) (g : Parser ε α γ)
    (site : List α) (next : γ × List α → Except ε (β × List α)) : Prop :=
  ∀ other, swap site other → f (front ++ other) = g other >>= next

theorem Calls.trans {swap : List α → List α → Prop} {f : Parser ε α β} {g : Parser ε α γ}
    {h : Parser ε α δ} {front more site : List α} {next : γ × List α → Except ε (β × List α)}
    {next' : δ × List α → Except ε (γ × List α)} (outer : Calls swap f front g (more ++ site) next)
    (inner : Calls swap g more h site next')
    (prepend : ∀ other, swap site other → swap (more ++ site) (more ++ other)) :
    Calls swap f (front ++ more) h site fun read => next' read >>= next := by
  intro other swapped
  rw [List.append_assoc, outer _ (prepend other swapped), inner other swapped]
  exact bind_assoc ..

/-- Behind a value that does not depend on the site. -/
theorem Calls.andThen {near : Likeness α} {swap : List α → List α → Prop} {f : Parser ε α β}
    {g : β → Parser ε α γ} {h : Parser ε α δ} {front more site : List α} {value : β}
    {next : δ × List α → Except ε (γ × List α)}
    (first : ∀ other, near.like (more ++ site) other → f (front ++ other) = .ok (value, other))
    (second : Calls swap (g value) more h site next)
    (prepend : ∀ other, swap site other → near.like (more ++ site) (more ++ other)) :
    Calls swap (andThen f g) (front ++ more) h site next := by
  intro other swapped
  rw [List.append_assoc, andThen_eq (first _ (prepend other swapped))]
  exact second other swapped

/-- A continuation that returns has found `ends` behind what was read. -/
def Ends (ends : List α → Prop) (next : γ × List α → Except ε (β × List α)) : Prop :=
  ∀ ⦃value rest result⦄, next (value, rest) = .ok result → ends rest

theorem Ends.bind {ends : List α → Prop} {next : δ × List α → Except ε (γ × List α)}
    (h : Ends ends next) (more : γ × List α → Except ε (β × List α)) :
    Ends ends fun read => next read >>= more := by
  intro value rest result returned
  change (next (value, rest) >>= more) = _ at returned
  cases continued : next (value, rest) with
  | error reason =>
    rw [continued] at returned
    cases returned
  | ok read => exact h continued

end BlmLink.Lib.Parsing
