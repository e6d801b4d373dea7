import DualDenom.Action

/-!
# What an action comes to

`m.Gives s x t`: from `s` the action answers `x` and leaves `t`; what it
reports is left open. The laws read the steps of a composed action off its
outcome, one for success and one for failure, and put them together again.
-/

namespace DualDenom

theorem bind_ok {x : Except ε α} {f : α → Except ε β} :
    x >>= f = .ok b ↔ ∃ a, x = .ok a ∧ f a = .ok b := by
  cases x <;> simp [bind, Except.bind]

theorem bind_error {x : Except ε α} {f : α → Except ε β} :
    x >>= f = .error e ↔ x = .error e ∨ ∃ a, x = .ok a ∧ f a = .error e := by
  cases x <;> simp [bind, Except.bind]

theorem pure_ok : (pure a : Except ε α) = .ok b ↔ a = b := by
  simp [pure, Except.pure]

theorem pure_error : (pure a : Except ε α) = .error e ↔ False := by
  simp [pure, Except.pure]

theorem throw_ok : (throw e : Except ε α) = .ok a ↔ False := by
  simp [throw, throwThe, MonadExceptOf.throw]

theorem throw_error {e : ε} : (throw e : Except ε α) = .error e' ↔ e = e' := by
  simp [throw, throwThe, MonadExceptOf.throw]

theorem mapError_ok {x : Except ε α} {f : ε → ε'} : x.mapError f = .ok a ↔ x = .ok a := by
  cases x with
  | error e => exact ⟨nofun, nofun⟩
  | ok b => exact ⟨fun h => congrArg _ (Except.ok.inj h), fun h => congrArg _ (Except.ok.inj h)⟩

theorem mapError_error {x : Except ε α} {f : ε → ε'} :
    x.mapError f = .error e ↔ ∃ e₀, x = .error e₀ ∧ f e₀ = e := by
  cases x with
  | error e₀ =>
    constructor
    · intro h
      exact ⟨e₀, rfl, Except.error.inj h⟩
    · rintro ⟨_, ⟨⟩, rfl⟩
      rfl
  | ok b => exact ⟨nofun, fun ⟨_, h, _⟩ => nomatch h⟩

theorem map_error {x : Except ε α} {f : α → β} : x.map f = .error e ↔ x = .error e := by
  cases x <;> simp [Except.map]

theorem map_ok {x : Except ε α} {f : α → β} : x.map f = .ok b ↔ ∃ a, x = .ok a ∧ f a = b := by
  cases x <;> simp [Except.map]

theorem ok_of_toOption {x : Except ε α} (h : x.toOption = some a) : x = .ok a := by
  cases x with
  | error e => cases h
  | ok b => exact congrArg Except.ok (Option.some.inj h)

theorem exists_ok_unique [Inhabited α] (x : Except ε α) : ∃ a, ∀ a', x = .ok a' → a' = a := by
  cases x with
  | error e => exact ⟨default, fun _ h => nomatch h⟩
  | ok a => exact ⟨a, fun _ h => (Except.ok.inj h).symm⟩

namespace Action

def Gives (m : Action ε σ α) (s : σ) (x : Except ε α) (t : σ) : Prop :=
  (m.run s).answer = x ∧ (m.run s).state = t

theorem gives_run (m : Action ε σ α) (s : σ) : m.Gives s (m.run s).answer (m.run s).state :=
  ⟨rfl, rfl⟩

theorem gives_of_toOption {m : Action ε σ α} (h : (m.run s).answer.toOption = some a) :
    m.Gives s (.ok a) (m.run s).state := ⟨ok_of_toOption h, rfl⟩

theorem Gives.unique {m : Action ε σ α} (h : m.Gives s x t) (h' : m.Gives s y u) :
    x = y ∧ t = u := ⟨h.1.symm.trans h'.1, h.2.symm.trans h'.2⟩

theorem gives_pure : (pure a : Action ε σ α).Gives s x t ↔ x = .ok a ∧ t = s := by
  simp [Gives, eq_comm]

theorem gives_query {f : σ → Except ε α} : (query f).Gives s x t ↔ f s = x ∧ t = s := by
  simp [Gives, eq_comm]

theorem query_bind (f : σ → Except ε α) (g : α → σ → Except ε β) :
    (query fun s => f s >>= fun a => g a s) = query f >>= fun a => query (g a) := by
  funext s
  show (⟨f s >>= fun a => g a s, s, []⟩ : Outcome ε σ β) = (query f >>= fun a => query (g a)).run s
  rw [run_bind, run_query]
  cases f s <;> rfl

theorem query_pure (a : α) : (query fun _ => pure a : Action ε σ α) = pure a := rfl

theorem gives_ofExcept {y : Except ε α} : (ofExcept y : Action ε σ α).Gives s x t ↔ y = x ∧ t = s := by
  simp [Gives, eq_comm]

theorem gives_fail : (fail e : Action ε σ α).Gives s x t ↔ x = .error e ∧ t = s := by
  simp [Gives, eq_comm]

theorem gives_report : (report e : Action ε σ Unit).Gives s x t ↔ x = .ok () ∧ t = s := by
  simp [Gives, eq_comm]

theorem gives_update_ok {f : σ → Except ε σ} : (update f).Gives s (.ok u) t ↔ f s = .ok t := by
  cases h : f s <;> simp [Gives, run, update, h]

theorem gives_update_error {f : σ → Except ε σ} :
    (update f).Gives s (.error e) t ↔ f s = .error e ∧ t = s := by
  cases h : f s <;> simp [Gives, run, update, h, eq_comm]

theorem gives_bind_ok {m : Action ε σ α} {f : α → Action ε σ β} :
    (m >>= f).Gives s (.ok b) u ↔ ∃ a t, m.Gives s (.ok a) t ∧ (f a).Gives t (.ok b) u := by
  simp only [Gives, run_bind]
  rcases m.run s with ⟨x, t, es⟩
  cases x with
  | error e => simp
  | ok a =>
    constructor
    · intro h
      exact ⟨a, t, ⟨rfl, rfl⟩, h⟩
    · rintro ⟨_, _, ⟨⟨⟩, rfl⟩, h⟩
      exact h

theorem gives_bind_error {m : Action ε σ α} {f : α → Action ε σ β} :
    (m >>= f).Gives s (.error e) u ↔
      m.Gives s (.error e) u ∨ ∃ a t, m.Gives s (.ok a) t ∧ (f a).Gives t (.error e) u := by
  simp only [Gives, run_bind]
  rcases m.run s with ⟨x, t, es⟩
  cases x with
  | error e => simp
  | ok a =>
    constructor
    · intro h
      exact .inr ⟨a, t, ⟨rfl, rfl⟩, h⟩
    · rintro (⟨⟨⟩, -⟩ | ⟨_, _, ⟨⟨⟩, rfl⟩, h⟩)
      exact h

theorem gives_bind {m : Action ε σ α} {f : α → Action ε σ β} {x : Except ε β} :
    (m >>= f).Gives s x u ↔
      (∃ e, m.Gives s (.error e) u ∧ x = .error e) ∨ ∃ a t, m.Gives s (.ok a) t ∧ (f a).Gives t x u := by
  cases x with
  | ok b => simp [gives_bind_ok]
  | error e => simp [gives_bind_error]

theorem Gives.bind_iff {m : Action ε σ α} {f : α → Action ε σ β} {x : Except ε β}
    (h : m.Gives s (.ok a) t) : (m >>= f).Gives s x u ↔ (f a).Gives t x u := by
  rw [gives_bind]
  constructor
  · rintro (⟨e, he, -⟩ | ⟨a', t', ha, hf⟩)
    · cases (h.unique he).1
    · obtain ⟨⟨⟩, rfl⟩ := h.unique ha
      exact hf
  · intro hf
    exact .inr ⟨a, t, h, hf⟩

theorem gives_bind_pure {m : Action ε σ α} {f : α → β} {x : Except ε β} :
    (m >>= fun a => pure (f a)).Gives s x t ↔ ∃ y, m.Gives s y t ∧ x = y.map f := by
  rw [gives_bind]
  constructor
  · rintro (⟨e, he, rfl⟩ | ⟨a, _, ha, hp⟩)
    · exact ⟨.error e, he, rfl⟩
    · obtain ⟨rfl, rfl⟩ := gives_pure.mp hp
      exact ⟨.ok a, ha, rfl⟩
  · rintro ⟨e | a, hy, rfl⟩
    · exact .inl ⟨e, hy, rfl⟩
    · exact .inr ⟨a, t, hy, gives_pure.mpr ⟨rfl, rfl⟩⟩

theorem gives_bind_report {m : Action ε σ Unit} :
    (m >>= fun _ => report e).Gives s x t ↔ m.Gives s x t := by
  rw [gives_bind]
  constructor
  · rintro (⟨e, he, rfl⟩ | ⟨_, _, hm, hr⟩)
    · exact he
    · obtain ⟨rfl, rfl⟩ := gives_report.mp hr
      exact hm
  · intro hm
    cases x with
    | error e => exact .inl ⟨e, hm, rfl⟩
    | ok _ => exact .inr ⟨(), t, hm, gives_report.mpr ⟨rfl, rfl⟩⟩

theorem gives_mapError_ok {m : Action ε σ α} {f : ε → ε'} :
    (m.mapError f).Gives s (.ok a) t ↔ m.Gives s (.ok a) t := by
  simp only [Gives, run_mapError, mapError_ok]

theorem gives_mapError_error {m : Action ε σ α} {f : ε → ε'} :
    (m.mapError f).Gives s (.error e) t ↔ ∃ e₀, m.Gives s (.error e₀) t ∧ f e₀ = e := by
  simp only [Gives, run_mapError, mapError_error]
  constructor
  · rintro ⟨⟨e₀, h, he⟩, ht⟩
    exact ⟨e₀, ⟨h, ht⟩, he⟩
  · rintro ⟨e₀, ⟨h, ht⟩, he⟩
    exact ⟨⟨e₀, h, he⟩, ht⟩

theorem gives_forM_nil {f : β → Action ε σ PUnit} :
    ([].forM f).Gives s x t ↔ x = .ok () ∧ t = s := gives_pure

theorem gives_forM_cons_ok {f : β → Action ε σ PUnit} :
    ((b :: bs).forM f).Gives s (.ok u) t ↔
      ∃ r, (f b).Gives s (.ok ()) r ∧ (bs.forM f).Gives r (.ok u) t := by
  show ((f b) >>= fun _ => bs.forM f).Gives s (.ok u) t ↔ _
  rw [gives_bind_ok]
  exact ⟨fun ⟨_, r, h⟩ => ⟨r, h⟩, fun ⟨r, h⟩ => ⟨(), r, h⟩⟩

theorem gives_forM_append_ok {bs bs' : List β} {f : β → Action ε σ PUnit} :
    ((bs ++ bs').forM f).Gives s (.ok u) t ↔
      ∃ r, (bs.forM f).Gives s (.ok ()) r ∧ (bs'.forM f).Gives r (.ok u) t := by
  have happend : (bs ++ bs').forM f = (bs.forM f >>= fun _ => bs'.forM f) := List.forM_append
  rw [happend, gives_bind_ok]
  exact ⟨fun ⟨_, r, h⟩ => ⟨r, h⟩, fun ⟨r, h⟩ => ⟨(), r, h⟩⟩

/-- A list that fails has carried out what stands before the place of the failure. -/
theorem gives_forM_error {bs : List β} {f : β → Action ε σ PUnit} :
    (bs.forM f).Gives s (.error e) t ↔ ∃ before b after r, bs = before ++ b :: after ∧
      (before.forM f).Gives s (.ok ()) r ∧ (f b).Gives r (.error e) t := by
  constructor
  · intro h
    induction bs generalizing s with
    | nil => cases (gives_forM_nil.mp h).1
    | cons b bs ih =>
      rcases gives_bind_error.mp h with h | ⟨_, r, h₁, h₂⟩
      · exact ⟨[], b, bs, s, rfl, gives_forM_nil.mpr ⟨rfl, rfl⟩, h⟩
      · obtain ⟨before, b', after, r', rfl, h₃, h₄⟩ := ih h₂
        exact ⟨b :: before, b', after, r', rfl, gives_forM_cons_ok.mpr ⟨r, h₁, h₃⟩, h₄⟩
  · rintro ⟨before, b, after, r, rfl, h₁, h₂⟩
    have happend : (before ++ b :: after).forM f =
        (before.forM f >>= fun _ => (b :: after).forM f) := List.forM_append
    rw [happend]
    exact gives_bind_error.mpr (.inr ⟨(), r, h₁, gives_bind_error.mpr (.inl h₂)⟩)

theorem gives_mapM_nil {f : β → Action ε σ α} : ([].mapM f).Gives s x t ↔ x = .ok [] ∧ t = s := by
  rw [List.mapM_nil, gives_pure]

theorem gives_mapM_cons_ok {f : β → Action ε σ α} :
    ((b :: bs).mapM f).Gives s (.ok as) t ↔ ∃ a as' r, as = a :: as' ∧
      (f b).Gives s (.ok a) r ∧ (bs.mapM f).Gives r (.ok as') t := by
  simp only [List.mapM_cons, gives_bind_ok, gives_pure]
  constructor
  · rintro ⟨a, r, ha, as', _, has, ⟨⟩, rfl⟩
    exact ⟨a, as', r, rfl, ha, has⟩
  · rintro ⟨a, as', r, rfl, ha, has⟩
    exact ⟨a, r, ha, as', t, has, rfl, rfl⟩

variable {P : ε → σ → Prop}

def FailsAs (m : Action ε σ α) (P : ε → σ → Prop) : Prop := ∀ ⦃s e t⦄, m.Gives s (.error e) t → P e t

theorem failsAs_pure : (pure a : Action ε σ α).FailsAs P := fun _ _ _ h => nomatch (gives_pure.mp h).1

theorem failsAs_report : (report e : Action ε σ Unit).FailsAs P :=
  fun _ _ _ h => nomatch (gives_report.mp h).1

theorem FailsAs.bind {m : Action ε σ α} {f : α → Action ε σ β} (hm : m.FailsAs P)
    (hf : ∀ ⦃s a t⦄, m.Gives s (.ok a) t → (f a).FailsAs P) : (m >>= f).FailsAs P := by
  intro s e u h
  rcases gives_bind_error.mp h with h | ⟨a, t, ha, h⟩
  · exact hm h
  · exact hf ha h

theorem failsAs_ok_bind {f : α → Action ε σ β} (hf : (f a).FailsAs P) :
    (ofExcept (.ok a) >>= f).FailsAs P := hf

theorem failsAs_forM {f : β → Action ε σ PUnit} (bs : List β) (h : ∀ b ∈ bs, (f b).FailsAs P) :
    (bs.forM f).FailsAs P := by
  induction bs with
  | nil => exact failsAs_pure
  | cons b bs ih =>
    exact (h b List.mem_cons_self).bind fun _ _ _ _ => ih fun b' hb => h b' (List.mem_cons_of_mem _ hb)

end Action

end DualDenom
