import AgentEngine.Lib.Loops

/-!
Parsers as programs that read on in an input and may throw, and readers that say what such a
parser is to read.

A reader of type `Noting` keeps notes of what it meets on its way. `Implements sound held x y`
says that the parser `y` reads what the reader `x` reads as long as the notes are sound, and
throws where they are not; the states of the two are tied together by `held`. `Implements.bind`
and `Implements.loop` carry it along a program.

* `Implements.of_finished`: what becomes of a reader that has come to an end.
* `Noting.within_loop`: a loop whose rounds use up input comes to an end.
-/

namespace AgentEngine.Lib

/-- Why there is no result: something was thrown, or the steps at hand were used up. -/
inductive Stop (ε : Type) where
  | thrown (e : ε)
  | unfinished
deriving DecidableEq

/-- What was thrown does not matter. -/
def Stop.forget {ε : Type} : Stop ε → Stop Unit
  | .thrown _ => .thrown ()
  | .unfinished => .unfinished

/-! ### Parsers -/

/-- Programs over an input of type `σ` that may throw. -/
abbrev Parser (σ ε : Type) := StateT σ (Except (Stop ε))

namespace Parser

variable {σ ε ε' α β : Type}

def fail (e : ε) : Parser σ ε α := fun _ => .error (.thrown e)

def unfinished : Parser σ ε α := fun _ => .error .unfinished

/-- Another exception in the place of the one that is thrown. -/
def rethrow (f : ε → ε') (x : Parser σ ε α) : Parser σ ε' α := fun s =>
  match x s with
  | .ok r => .ok r
  | .error (.thrown e) => .error (.thrown (f e))
  | .error .unfinished => .error .unfinished

/-- A loop of more rounds than there is input left. -/
def loop (left : σ → Nat) (body : β → Parser σ ε (Round β α)) (b : β) : Parser σ ε α := fun s =>
  rounds unfinished body (left s + 1) b s

theorem bind_ok {x : Parser σ ε α} {s s' : σ} {a : α} (f : α → Parser σ ε β)
    (h : x s = .ok (a, s')) : (x >>= f) s = f a s' := by
  change Except.bind (x s) (fun r => f r.1 r.2) = _
  rw [h]
  rfl

theorem bind_error {x : Parser σ ε α} {s : σ} {stop : Stop ε} (f : α → Parser σ ε β)
    (h : x s = .error stop) : (x >>= f) s = .error stop := by
  change Except.bind (x s) (fun r => f r.1 r.2) = _
  rw [h]
  rfl

section Rounds

variable {body : β → Parser σ ε (Round β α)} {b : β} {s : σ} {n : Nat}

theorem rounds_again {b' : β} {s' : σ} (h : body b s = .ok (.again b', s')) :
    rounds unfinished body (n + 1) b s = rounds unfinished body n b' s' := by
  rw [rounds, bind_ok _ h]

theorem rounds_leave {a : α} {s' : σ} (h : body b s = .ok (.leave a, s')) :
    rounds unfinished body (n + 1) b s = .ok (a, s') := by
  rw [rounds, bind_ok _ h]
  rfl

theorem rounds_error {stop : Stop ε} (h : body b s = .error stop) :
    rounds unfinished body (n + 1) b s = .error stop := by
  rw [rounds, bind_error _ h]

end Rounds

end Parser

/-! ### Readers -/

/-- Readers with notes of type `ν`. -/
def Noting (ν σ α : Type) := σ → Except (Stop Unit) (α × List ν × σ)

namespace Noting

variable {ν σ ε α β : Type}

/-- What was noted before goes in front. -/
def noted (notes : List ν) :
    Except (Stop Unit) (α × List ν × σ) → Except (Stop Unit) (α × List ν × σ)
  | .error stop => .error stop
  | .ok (a, notes', s) => .ok (a, notes ++ notes', s)

theorem noted_nil (r : Except (Stop Unit) (α × List ν × σ)) : noted [] r = r := by
  rcases r with stop | ⟨a, notes, s⟩ <;> rfl

instance : Monad (Noting ν σ) where
  pure a := fun s => .ok (a, [], s)
  bind x f := fun s =>
    match x s with
    | .error stop => .error stop
    | .ok (a, notes, s) => noted notes (f a s)

variable (f : α → Noting ν σ β)

theorem bind_error {x : Noting ν σ α} {s : σ} {stop : Stop Unit}
    (h : x s = .error stop) : (x >>= f) s = .error stop := by
  simp only [bind, h]

theorem bind_ok {x : Noting ν σ α} {s s' : σ} {a : α} {notes : List ν}
    (h : x s = .ok (a, notes, s')) : (x >>= f) s = noted notes (f a s') := by
  simp only [bind, h]

/-- After a step without notes the reader is where the rest of it begins. -/
theorem bind_silent {x : Noting ν σ α} {s s' : σ} {a : α}
    (h : x s = .ok (a, [], s')) : (x >>= f) s = f a s' := by
  rw [bind_ok f h, noted_nil]

def fail : Noting ν σ α := fun _ => .error (.thrown ())

def unfinished : Noting ν σ α := fun _ => .error .unfinished

/-- A parser taken as a reader that notes nothing. -/
def ofParser (x : Parser σ ε α) : Noting ν σ α := fun s =>
  match x s with
  | .ok (a, s) => .ok (a, [], s)
  | .error stop => .error stop.forget

theorem ofParser_ok {x : Parser σ ε α} {s s' : σ} {a : α} (h : x s = .ok (a, s')) :
    (ofParser x : Noting ν σ α) s = .ok (a, [], s') := by
  simp only [ofParser, h]

theorem ofParser_error {x : Parser σ ε α} {s : σ} {stop : Stop ε} (h : x s = .error stop) :
    (ofParser x : Noting ν σ α) s = .error stop.forget := by
  simp only [ofParser, h]

def loop (left : σ → Nat) (body : β → Noting ν σ (Round β α)) (b : β) : Noting ν σ α := fun s =>
  rounds unfinished body (left s + 1) b s

/-- The reader never has a result. -/
def Barren (x : Noting ν σ α) : Prop := ∀ s r, x s ≠ .ok r

theorem barren_fail : (fail : Noting ν σ α).Barren := nofun

theorem barren_bind {x : Noting ν σ α} {f : α → Noting ν σ β} (h : ∀ a, (f a).Barren) :
    (x >>= f).Barren := by
  intro s r
  cases hr : x s with
  | error stop =>
    rw [bind_error f hr]
    exact nofun
  | ok r' =>
    obtain ⟨a, notes, s'⟩ := r'
    have nothing := h a s'
    rw [bind_ok f hr]
    generalize f a s' = r' at nothing
    rcases r' with stop | r'
    · exact nofun
    · exact absurd rfl (nothing r')

theorem barren_bind_left {x : Noting ν σ α} (h : x.Barren) (f : α → Noting ν σ β) :
    (x >>= f).Barren := by
  intro s r
  cases hr : x s with
  | error stop =>
    rw [bind_error f hr]
    exact nofun
  | ok r' => exact absurd hr (h s r')

/-- The reader has come to an end, and no more than `n` of the input is left. -/
def Within (left : σ → Nat) (n : Nat) : Except (Stop Unit) (α × List ν × σ) → Prop
  | .ok (_, _, s) => left s ≤ n
  | .error (.thrown _) => True
  | .error .unfinished => False

variable {left : σ → Nat} {m n : Nat}

theorem Within.mono {r : Except (Stop Unit) (α × List ν × σ)} (h : Within left m r) (le : m ≤ n) :
    Within left n r := by
  rcases r with (_ | _) | ⟨a, notes, s⟩
  · trivial
  · exact h
  · exact Nat.le_trans h le

theorem within_noted {r : Except (Stop Unit) (α × List ν × σ)} (notes : List ν)
    (h : Within left n r) : Within left n (noted notes r) := by
  rcases r with (_ | _) | ⟨a, notes', s⟩
  · trivial
  · exact h
  · exact h

theorem within_bind {x : Noting ν σ α} {f : α → Noting ν σ β} {s : σ} (hx : Within left m (x s))
    (hf : ∀ a s', left s' ≤ m → Within left n (f a s')) : Within left n ((x >>= f) s) := by
  cases hr : x s with
  | error stop =>
    rw [bind_error f hr]
    rw [hr] at hx
    cases stop with
    | thrown => trivial
    | unfinished => exact hx
  | ok r =>
    obtain ⟨a, notes, s'⟩ := r
    rw [hr] at hx
    rw [bind_ok f hr]
    exact within_noted notes (hf a s' hx)

/-- A round of a loop has come to an end: less than `n` of the input is left if the loop goes on,
and no more than `n` if it does not. -/
def Uses (left : σ → Nat) (n : Nat) : Except (Stop Unit) (Round β α × List ν × σ) → Prop
  | .ok (.again _, _, s) => left s < n
  | .ok (.leave _, _, s) => left s ≤ n
  | .error (.thrown _) => True
  | .error .unfinished => False

theorem uses_again {b : β} {s : σ} (lt : left s < n) :
    Uses left n ((pure (.again b) : Noting ν σ (Round β α)) s) := lt

theorem uses_leave {a : α} {s : σ} (le : left s ≤ n) :
    Uses left n ((pure (.leave a) : Noting ν σ (Round β α)) s) := le

theorem uses_bind {γ : Type} {x : Noting ν σ γ} {f : γ → Noting ν σ (Round β α)} {s : σ}
    (hx : Within left m (x s)) (hf : ∀ c s', left s' ≤ m → Uses left n (f c s')) :
    Uses left n ((x >>= f) s) := by
  cases hr : x s with
  | error stop =>
    rw [bind_error f hr]
    rw [hr] at hx
    cases stop with
    | thrown => trivial
    | unfinished => exact hx
  | ok r =>
    obtain ⟨c, notes, s'⟩ := r
    rw [hr] at hx
    rw [bind_ok f hr]
    have next := hf c s' hx
    generalize f c s' = r at next
    rcases r with (_ | _) | ⟨_ | _, notes', s''⟩
    · trivial
    · exact next
    · exact next
    · exact next

theorem within_loop {body : β → Noting ν σ (Round β α)} {bound : Nat}
    (uses : ∀ b s, left s ≤ bound → Uses left (left s) (body b s)) (b : β) {s : σ}
    (le : left s ≤ bound) : Within left (left s) (loop left body b s) := by
  suffices key : ∀ n b s, left s ≤ bound → left s < n →
      Within left (left s) (rounds unfinished body n b s) from
    key _ b s le (Nat.lt_succ_self _)
  intro n
  induction n with
  | zero => exact fun _ _ _ none => absurd none (Nat.not_lt_zero _)
  | succ n ih =>
    intro b s le enough
    have round := uses b s le
    unfold rounds
    cases hr : body b s with
    | error stop =>
      rw [bind_error _ hr]
      rw [hr] at round
      cases stop with
      | thrown => trivial
      | unfinished => exact round
    | ok r =>
      obtain ⟨round', notes, s'⟩ := r
      rw [hr] at round
      rw [bind_ok _ hr]
      cases round' with
      | leave a => exact round
      | again b' =>
        have lt : left s' < left s := round
        exact within_noted notes
          ((ih b' s' (by omega) (by omega)).mono (Nat.le_of_lt lt))

section Rounds

variable {body : β → Noting ν σ (Round β α)} {b : β} {s : σ}

theorem rounds_again {b' : β} {s' : σ} (h : body b s = .ok (.again b', [], s')) :
    rounds unfinished body (n + 1) b s = rounds unfinished body n b' s' := by
  rw [rounds, bind_silent _ h]

theorem rounds_leave {a : α} {s' : σ} (h : body b s = .ok (.leave a, [], s')) :
    rounds unfinished body (n + 1) b s = .ok (a, [], s') := by
  rw [rounds, bind_silent _ h]
  rfl

/-- A round that goes on after a last step. -/
theorem rounds_then {γ : Type} {x : Noting ν σ γ} {b' : β} {s' : σ}
    (h : body b s = (x >>= fun _ => pure (.again b')) s') :
    rounds unfinished body (n + 1) b s = (x >>= fun _ => rounds unfinished body n b') s' := by
  cases hx : x s' with
  | error stop =>
    rw [bind_error _ hx] at h
    rw [rounds, bind_error _ h, bind_error _ hx]
  | ok r =>
    obtain ⟨c, notes, s''⟩ := r
    have goes : body b s = .ok (.again b', notes, s'') := by
      rw [h, bind_ok _ hx]
      change Except.ok (_, notes ++ [], _) = _
      rw [List.append_nil]
    rw [rounds, bind_ok _ goes, bind_ok _ hx]

/-- A loop that has come to an end does the same with more rounds at hand. -/
theorem rounds_add (k : Nat) (h : rounds unfinished body n b s ≠ .error .unfinished) :
    rounds unfinished body (n + k) b s = rounds unfinished body n b s := by
  induction n generalizing b s with
  | zero => exact absurd rfl h
  | succ n ih =>
    rw [Nat.add_right_comm]
    unfold rounds at h ⊢
    cases hr : body b s with
    | error stop => rw [bind_error _ hr, bind_error _ hr]
    | ok r =>
      obtain ⟨round, notes, s'⟩ := r
      rw [bind_ok _ hr] at h
      rw [bind_ok _ hr, bind_ok _ hr]
      cases round with
      | leave a => rfl
      | again b' =>
        apply congrArg
        apply ih
        intro stuck
        simp only [stuck] at h
        exact h rfl

/-- What a loop comes to can be found with any number of rounds. -/
theorem loop_eq {r : α × List ν × σ} (h : rounds unfinished body n b s = .ok r)
    (finished : loop left body b s ≠ .error .unfinished) : loop left body b s = .ok r := by
  have found : rounds unfinished body n b s ≠ .error .unfinished := by
    rw [h]
    exact nofun
  have more := rounds_add (left s + 1) found
  rw [Nat.add_comm, rounds_add n finished, h] at more
  exact more

end Rounds

/-! Parsers taken as readers are taken apart like themselves. -/

theorem ofParser_bind (x : Parser σ ε α) (f : α → Parser σ ε β) :
    (ofParser (x >>= f) : Noting ν σ β) = ofParser x >>= fun a => ofParser (f a) := by
  funext s
  cases hr : x s with
  | error stop =>
    rw [ofParser_error (Parser.bind_error f hr), bind_error _ (ofParser_error hr)]
  | ok r =>
    rw [bind_silent _ (ofParser_ok hr)]
    simp only [ofParser, Parser.bind_ok f hr]

theorem ofParser_rounds (body : β → Parser σ ε (Round β α)) (n : Nat) (b : β) :
    (ofParser (rounds Parser.unfinished body n b) : Noting ν σ α) =
      rounds unfinished (fun b => ofParser (body b)) n b := by
  induction n generalizing b with
  | zero => rfl
  | succ n ih =>
    rw [rounds, ofParser_bind, rounds]
    congr 1
    funext round
    cases round with
    | again b' => exact ih b'
    | leave a => rfl

theorem ofParser_loop (body : β → Parser σ ε (Round β α)) (b : β) :
    (ofParser (Parser.loop left body b) : Noting ν σ α) =
      loop left (fun b => ofParser (body b)) b := by
  funext s
  exact congrFun (ofParser_rounds body (left s + 1) b) s

end Noting

/-! ### Parsers that implement readers -/

section Implements

variable {ν σ τ ε ε' α β : Type} (sound : ν → Prop) (held : τ → σ → Prop)

/-- What a parser may come to where a reader comes to this. Something that is thrown early may
keep the parser from going on for as long as the reader does. -/
inductive Agrees : Except (Stop Unit) (α × List ν × σ) → Except (Stop ε) (α × τ) → Prop where
  | read {a : α} {notes : List ν} {s : σ} {t : τ} (all : ∀ n ∈ notes, sound n) (here : held t s) :
      Agrees (.ok (a, notes, s)) (.ok (a, t))
  | refused {a : α} {notes : List ν} {s : σ} (e : ε) (bad : ¬ ∀ n ∈ notes, sound n) :
      Agrees (.ok (a, notes, s)) (.error (.thrown e))
  | thrown (e : ε) : Agrees (.error (.thrown ())) (.error (.thrown e))
  | unfinished : Agrees (.error .unfinished) (.error .unfinished)
  | early (e : ε) : Agrees (.error .unfinished) (.error (.thrown e))

section

variable {sound held} {r : Except (Stop Unit) (α × List ν × σ)} {r' : Except (Stop ε) (α × τ)}
  {notes : List ν}

theorem Agrees.noted (all : ∀ n ∈ notes, sound n) (h : Agrees sound held r r') :
    Agrees sound held (Noting.noted notes r) r' := by
  cases h with
  | read all' here =>
    exact .read (fun n mem => (List.mem_append.mp mem).elim (all n) (all' n)) here
  | refused e bad =>
    exact .refused e fun both => bad fun n mem => both n (List.mem_append_right notes mem)
  | thrown e => exact .thrown e
  | unfinished => exact .unfinished
  | early e => exact .early e

theorem Agrees.noted_unsound (bad : ¬∀ n ∈ notes, sound n) (e : ε) :
    Agrees sound held (Noting.noted notes r) (.error (.thrown e) : Except (Stop ε) (α × τ)) := by
  rcases r with (_ | _) | ⟨a, notes', s⟩
  · exact .thrown e
  · exact .early e
  · exact .refused e fun both => bad fun n mem => both n (List.mem_append_left notes' mem)

end

def Implements (x : Noting ν σ α) (y : Parser τ ε α) : Prop :=
  ∀ s t, held t s → Agrees sound held (x s) (y t)

namespace Implements

variable {sound held}

theorem pure (a : α) :
    Implements sound held (Pure.pure a : Noting ν σ α) (Pure.pure a : Parser τ ε α) := by
  intro s t here
  exact .read (fun _ none => absurd none List.not_mem_nil) here

theorem fail (e : ε) :
    Implements sound held (Noting.fail : Noting ν σ α) (Parser.fail e : Parser τ ε α) :=
  fun _ _ _ => .thrown e

theorem unfinished : Implements sound held (Noting.unfinished : Noting ν σ α)
      (Parser.unfinished : Parser τ ε α) :=
  fun _ _ _ => .unfinished

theorem bind {x : Noting ν σ α} {y : Parser τ ε α} {f : α → Noting ν σ β}
    {g : α → Parser τ ε β} (h : Implements sound held x y)
    (hf : ∀ a, Implements sound held (f a) (g a)) :
    Implements sound held (x >>= f) (y >>= g) := by
  intro s t here
  have first := h s t here
  change Agrees sound held ((x >>= f) s) (Except.bind (y t) fun r => g r.1 r.2)
  generalize hx : x s = r at first
  generalize y t = r' at first
  cases first with
  | @read a notes s' t' all here' =>
    rw [Noting.bind_ok f hx]
    exact (hf a s' t' here').noted all
  | @refused a notes s' e bad =>
    rw [Noting.bind_ok f hx]
    exact Agrees.noted_unsound bad e
  | thrown e =>
    rw [Noting.bind_error f hx]
    exact .thrown e
  | unfinished =>
    rw [Noting.bind_error f hx]
    exact .unfinished
  | early e =>
    rw [Noting.bind_error f hx]
    exact .early e

/-- A step that does nothing does not count. -/
theorem pure_bind {f : α → Noting ν σ β} {y : Parser τ ε β} (a : α)
    (h : Implements sound held (f a) y) : Implements sound held (Pure.pure a >>= f) y := by
  intro s t here
  rw [Noting.bind_silent f rfl]
  exact h s t here

/-- A parser may throw where the reader has nothing to read. -/
theorem of_barren {x : Noting ν σ α} (barren : x.Barren) (e : ε) :
    Implements sound held x (Parser.fail e : Parser τ ε α) := by
  intro s t _
  have nothing := barren s
  change Agrees sound held (x s) (.error (.thrown e))
  generalize x s = r at nothing
  rcases r with (_ | _) | r
  · exact .thrown e
  · exact .early e
  · exact absurd rfl (nothing r)

theorem rethrow {x : Noting ν σ α} {y : Parser τ ε α} (f : ε → ε') (h : Implements sound held x y) :
    Implements sound held x (y.rethrow f) := by
  intro s t here
  have agrees := h s t here
  unfold Parser.rethrow
  generalize x s = r at agrees
  generalize y t = r' at agrees
  cases agrees with
  | read all here => exact .read all here
  | refused e bad => exact .refused (f e) bad
  | thrown e => exact .thrown (f e)
  | unfinished => exact .unfinished
  | early e => exact .early (f e)

variable {body' : β → Parser τ ε (Round β α)}

theorem rounds {body : β → Noting ν σ (Round β α)}
    (h : ∀ b, Implements sound held (body b) (body' b)) (n : Nat) (b : β) :
    Implements sound held (Lib.rounds Noting.unfinished body n b)
      (Lib.rounds Parser.unfinished body' n b) := by
  induction n generalizing b with
  | zero => exact unfinished
  | succ n ih =>
    apply bind (h b)
    rintro (b' | a)
    · exact ih b'
    · exact pure a

theorem loop {left : σ → Nat} {left' : τ → Nat} (same : ∀ s t, held t s → left' t = left s)
    {body : β → Noting ν σ (Round β α)}
    (h : ∀ b, Implements sound held (body b) (body' b)) (b : β) :
    Implements sound held (Noting.loop left body b) (Parser.loop left' body' b) := by
  intro s t here
  have agrees := rounds h (left s + 1) b s t here
  unfold Parser.loop
  rw [same s t here]
  exact agrees

/-- A parser implements itself. -/
theorem ofParser (x : Parser σ ε α) : Implements sound (· = ·) (Noting.ofParser x) x := by
  rintro _ t rfl
  unfold Noting.ofParser
  rcases x t with (e | _) | ⟨a, s'⟩
  · exact .thrown e
  · exact .unfinished
  · exact .read (fun _ none => absurd none List.not_mem_nil) rfl

/-- What becomes of a parser where the reader has come to an end. -/
theorem of_finished {x : Noting ν σ α} {y : Parser τ ε α} (h : Implements sound held x y) {s : σ}
    {t : τ} (here : held t s) (finished : x s ≠ .error .unfinished) :
    (∃ a notes s' t', x s = .ok (a, notes, s') ∧ (∀ n ∈ notes, sound n) ∧
        y t = .ok (a, t') ∧ held t' s') ∨
      ((∀ a notes s', x s = .ok (a, notes, s') → ¬ ∀ n ∈ notes, sound n) ∧
        ∃ e, y t = .error (.thrown e)) := by
  have agrees := h s t here
  generalize x s = r at agrees finished
  generalize y t = r' at agrees
  cases agrees with
  | @read a notes s' t' all here' => exact .inl ⟨a, notes, s', t', rfl, all, rfl, here'⟩
  | refused e bad =>
    refine .inr ⟨?_, e, rfl⟩
    rintro a notes s' ⟨⟩
    exact bad
  | thrown e => exact .inr ⟨nofun, e, rfl⟩
  | unfinished | early e => exact absurd rfl finished

end Implements

end Implements

end AgentEngine.Lib
