import DualDenom.Event

/-!
# Actions

An action works on a state: it answers or fails, it leaves a state either way
and it reports events. A failure keeps the state that was reached and the
events reported so far; what was done before it is not undone.
-/

namespace DualDenom

structure Outcome (ε σ α : Type) where
  answer : Except ε α
  state : σ
  events : List Event

def Action (ε σ α : Type) : Type := σ → Outcome ε σ α

namespace Action

variable {ε ε' σ τ α β γ : Type}

def run (m : Action ε σ α) (s : σ) : Outcome ε σ α := m s

def andThen (m : Action ε σ α) (f : α → Action ε σ β) : Action ε σ β := fun s =>
  match m s with
  | ⟨.ok a, t, es⟩ =>
    let next := f a t
    { next with events := es ++ next.events }
  | ⟨.error e, t, es⟩ => ⟨.error e, t, es⟩

instance : Monad (Action ε σ) where
  pure a := fun s => ⟨.ok a, s, []⟩
  bind := andThen

def fail (e : ε) : Action ε σ α := fun s => ⟨.error e, s, []⟩

def query (f : σ → Except ε α) : Action ε σ α := fun s => ⟨f s, s, []⟩

def ofExcept (x : Except ε α) : Action ε σ α := query fun _ => x

/-- Changes the state by `f`, which may fail and then changes nothing. -/
def update (f : σ → Except ε σ) : Action ε σ Unit := fun s =>
  match f s with
  | .ok t => ⟨.ok (), t, []⟩
  | .error e => ⟨.error e, s, []⟩

def modify (f : σ → σ) : Action ε σ Unit := fun s => ⟨.ok (), f s, []⟩

def report (e : Event) : Action ε σ Unit := fun s => ⟨.ok (), s, [e]⟩

def mapError (f : ε → ε') (m : Action ε σ α) : Action ε' σ α := fun s =>
  let out := m s
  { out with answer := out.answer.mapError f }

def within (part : τ → σ) (put : σ → τ → τ) (m : Action ε σ α) : Action ε τ α := fun t =>
  let out := m (part t)
  { out with state := put out.state t }

@[simp] theorem run_pure (a : α) (s : σ) : (pure a : Action ε σ α).run s = ⟨.ok a, s, []⟩ := rfl

theorem run_bind (m : Action ε σ α) (f : α → Action ε σ β) (s : σ) :
    (m >>= f).run s = match m.run s with
      | ⟨.ok a, t, es⟩ => { (f a).run t with events := es ++ ((f a).run t).events }
      | ⟨.error e, t, es⟩ => ⟨.error e, t, es⟩ := rfl

@[simp] theorem run_fail (e : ε) (s : σ) : (fail e : Action ε σ α).run s = ⟨.error e, s, []⟩ := rfl

@[simp] theorem run_query (f : σ → Except ε α) (s : σ) : (query f).run s = ⟨f s, s, []⟩ := rfl

@[simp] theorem run_ofExcept (x : Except ε α) (s : σ) :
    (ofExcept x : Action ε σ α).run s = ⟨x, s, []⟩ := rfl

@[simp] theorem run_modify (f : σ → σ) (s : σ) :
    (modify f : Action ε σ Unit).run s = ⟨.ok (), f s, []⟩ := rfl

@[simp] theorem run_report (e : Event) (s : σ) :
    (report e : Action ε σ Unit).run s = ⟨.ok (), s, [e]⟩ := rfl

@[simp] theorem run_mapError (f : ε → ε') (m : Action ε σ α) (s : σ) :
    (m.mapError f).run s = ⟨(m.run s).answer.mapError f, (m.run s).state, (m.run s).events⟩ := rfl

@[simp] theorem run_within (part : τ → σ) (put : σ → τ → τ) (m : Action ε σ α) (t : τ) :
    (m.within part put).run t =
      ⟨(m.run (part t)).answer, put (m.run (part t)).state t, (m.run (part t)).events⟩ := rfl

theorem andThen_pure (m : Action ε σ α) : (m.andThen fun a => pure a) = m := by
  funext s
  unfold andThen
  split
  · rename_i h
    rw [h]
    simp [pure]
  · rename_i h
    rw [h]

theorem andThen_assoc (m : Action ε σ α) (f : α → Action ε σ β) (g : β → Action ε σ γ) :
    (m.andThen f).andThen g = m.andThen fun a => (f a).andThen g := by
  funext s
  simp only [andThen]
  cases m s with
  | mk answer t es =>
    cases answer with
    | error e => rfl
    | ok a =>
      simp only
      cases f a t with
      | mk answer u fs =>
        cases answer with
        | error e => rfl
        | ok b => simp [List.append_assoc]

instance : LawfulMonad (Action ε σ) :=
  LawfulMonad.mk' _ (fun m => andThen_pure m) (fun _ _ => rfl) andThen_assoc

end Action

end DualDenom
