import DualDenom.Proofs.CanonicalCoins
import DualDenom.Proofs.Solvency
import DualDenom.Proofs.Steps
import DualDenom.Proofs.SupplyBalance

/-!
# Coin by coin

A transfer and a burn take the coins of a list one after the other. The denoms
of a canonical list are all different, so what one coin does leaves alone what
the others need; and in a book in balance a coin that is there can always be
moved. So a list is moved just when its source can spend every coin of it at
the outset. Otherwise the first coin that it cannot spend is the place where it
stops: the coins before it are moved, the others are not (`moves_coin_by_coin`).
A coin is never moved by halves.
-/

namespace DualDenom

open DualDenom.Action Figures

namespace Book

variable {b b' : Book} {m : Movement} {cs before after : Coins} {c : Coin}

/-- The coins went from the source to the target of a movement, or from or into the supply
where there is none. Nothing else changed. -/
structure Moved (b : Book) (m : Movement) (cs : Coins) (b' : Book) : Prop where
  balance : ∀ a d, (b'.balance a d).val + (if m.source? = some a then cs.exact d else 0) =
    (b.balance a d).val + if m.target? = some a then cs.exact d else 0
  supply : ∀ d, (b'.supply d).val + (if m.target? = none then cs.exact d else 0) =
    (b.supply d).val + if m.source? = none then cs.exact d else 0
  settings : b.SameSettings b'

theorem Posted.moved (hp : b.Posted (m.figures cs) b') : b.Moved m cs b' where
  balance a d := by
    have h := hp.balance a d
    rw [m.balance_figures] at h
    split_ifs at h ⊢ <;> omega
  supply d := by
    have h := hp.supply d
    rw [m.supply_figures] at h
    split_ifs at h ⊢ <;> omega
  settings := hp.settings

/-- A movement stopped at the coin `c`, which its source `a` cannot spend. -/
structure StoppedAt (b : Book) (m : Movement) (a : Address) (before : Coins) (c : Coin)
    (after : Coins) (e : LedgerError) (b' : Book) : Prop where
  afforded : ∀ c' ∈ before, c'.amount ≤ b.spendable a c'.denom
  short : b.spendable a c.denom < c.amount
  error : e = .insufficientFunds a c.denom (b.spendable a c.denom) c.amount
  moved : b.Moved m before b'
  unmoved : ∀ c' ∈ c :: after,
    (∀ x, b'.balance x c'.denom = b.balance x c'.denom) ∧ b'.supply c'.denom = b.supply c'.denom

structure Delivers (b : Book) (m : Movement) (a : Address) (cs : Coins) (act : Change Unit) :
    Prop where
  succeeds : (∃ b', act.Gives b (.ok ()) b') ↔ ∀ c ∈ cs, c.amount ≤ b.spendable a c.denom
  moved : ∀ b', act.Gives b (.ok ()) b' → b.Moved m cs b'
  stopped : ∀ e b', act.Gives b (.error e) b' →
    ∃ before c after, cs = before ++ c :: after ∧ b.StoppedAt m a before c after e b'

end Book

namespace Movement

variable {b b' : Book} {m : Movement} {cs before after : Coins} {c : Coin}

theorem spares_figures (m : Movement) (h : ∀ c ∈ cs, c.denom ≠ d) : (m.figures cs).Spares d where
  balance a := by simp [balance_figures, Coins.exact_eq_zero h]
  supply := by simp [supply_figures, Coins.exact_eq_zero h]

theorem forM_carryCoin_iff (hb : b.Balanced) (hm : m.source? = some a) (hcs : cs.Ascending) :
    (∃ b', (cs.forM m.carryCoin).Gives b (.ok ()) b') ↔
      ∀ c ∈ cs, c.amount ≤ b.spendable a c.denom := by
  induction cs generalizing b with
  | nil => exact iff_of_true ⟨b, gives_forM_nil.mpr ⟨rfl, rfl⟩⟩ nofun
  | cons c cs ih =>
    -- The first coin decides nothing about the others.
    have hothers : ∀ b₁, (m.carryCoin c).Gives b (.ok ()) b₁ →
        ((∃ b', (cs.forM m.carryCoin).Gives b₁ (.ok ()) b') ↔
          ∀ c' ∈ cs, c'.amount ≤ b.spendable a c'.denom) := by
      intro b₁ h₁
      have hp := carryCoin_posted h₁
      rw [ih (hb.posted hp (m.held_coinFigures c)) hcs.tail]
      refine forall₂_congr fun c' hc => ?_
      have hne : c.denom ≠ c'.denom :=
        Coins.Ascending.apart (show Coins.Ascending ([c] ++ cs) from hcs) List.mem_cons_self hc
      rw [hp.spendable_eq ((m.spares_coinFigures hne.symm).balance a)]
    rw [List.forall_mem_cons]
    constructor
    · rintro ⟨b', h⟩
      obtain ⟨b₁, h₁, h₂⟩ := gives_forM_cons_ok.mp h
      exact ⟨carryCoin_affords h₁ a hm, (hothers b₁ h₁).mp ⟨b', h₂⟩⟩
    · rintro ⟨hc, hcs⟩
      obtain ⟨b₁, h₁⟩ := hb.carryCoin_succeeds hm hc
      obtain ⟨b', h₂⟩ := (hothers b₁ h₁).mpr hcs
      exact ⟨b', gives_forM_cons_ok.mpr ⟨b₁, h₁, h₂⟩⟩

theorem forM_carryCoin_stopped (hb : b.Balanced) (hm : m.source? = some a) (hcs : cs.Ascending)
    (h : (cs.forM m.carryCoin).Gives b (.error e) b') :
    ∃ before c after, cs = before ++ c :: after ∧ b.StoppedAt m a before c after e b' := by
  obtain ⟨before, c, after, r, rfl, hmoved, hfail⟩ := gives_forM_error.mp h
  have hbefore : Coins.Ascending before := (List.pairwise_append.mp hcs).1
  have hp := forM_carryCoin_posted hmoved
  -- The list is ascending: no coin before the cut has a denom of those after it.
  have hspares : ∀ c' ∈ c :: after, (m.figures before).Spares c'.denom := fun c' hc =>
    m.spares_figures fun x hx => hcs.apart hx hc
  have hsp := hp.spendable_eq ((hspares c List.mem_cons_self).balance a)
  have hshort : b.spendable a c.denom < c.amount := by
    by_contra hle
    have hr := hb.posted hp (m.held_figures before)
    obtain ⟨_, hok⟩ := hr.carryCoin_succeeds hm (hsp ▸ Nat.not_lt.mp hle)
    cases (hfail.unique hok).1
  obtain ⟨he, rfl⟩ := hfail.unique (carryCoin_fails hm (hsp ▸ hshort))
  rw [hsp] at he
  refine ⟨before, c, after, rfl, (forM_carryCoin_iff hb hm hbefore).mp ⟨_, hmoved⟩, hshort,
    Except.error.inj he, hp.moved, fun c' hc => ⟨fun x => ?_, ?_⟩⟩
  · exact hp.balance_eq ((hspares c' hc).balance x)
  · exact hp.supply_eq (hspares c' hc).supply

theorem carryOut_delivers (hb : b.Balanced) (hm : m.source? = some a) (hcs : cs.check = .ok ()) :
    b.Delivers m a cs (m.carryOut cs) := by
  have hrun : m.carryOut cs = cs.forM m.carryCoin := by
    rw [carryOut_eq, Book.checkCoins, hcs]
    rfl
  have hasc := (Coins.check_iff.mp hcs).2
  rw [hrun]
  exact ⟨forM_carryCoin_iff hb hm hasc, fun _ h => (forM_carryCoin_posted h).moved,
    fun _ _ h => forM_carryCoin_stopped hb hm hasc h⟩

end Movement

namespace Book

variable {b : Book} {cs : Coins}

/-- Transfers and burns stop at the first coin that their source cannot spend, and there only. -/
theorem moves_coin_by_coin (hsum : ∀ d, ∑ᶠ x, (b.balance x d).val = (b.supply d).val)
    (hcs : cs.check = .ok ()) :
    (∀ source target, b.Delivers (.transfer source target) source cs (transfer source target cs)) ∧
    ∀ name e, b.addressWith name .burner = .ok e →
      b.Delivers (.destroy e) e cs (submit (.burn name cs)) := by
  have hb : b.Balanced := balanced_iff.mpr hsum
  refine ⟨fun source target => Movement.carryOut_delivers hb rfl hcs, fun name e he => ?_⟩
  have hburn : ∀ x b', (submit (.burn name cs)).Gives b x b' ↔ (destroy e cs).Gives b x b' :=
    fun _ _ => submit_of_movement (movement_burn.mpr ⟨e, he, rfl⟩)
  have h : b.Delivers (.destroy e) e cs (destroy e cs) := Movement.carryOut_delivers hb rfl hcs
  refine ⟨?_, fun b' h' => h.moved b' ((hburn _ _).mp h'),
    fun e b' h' => h.stopped e b' ((hburn _ _).mp h')⟩
  simp only [hburn]
  exact h.succeeds

theorem moves_coin_by_coin_small :
    let b := small.lock "alice" ⟨"aorai", .clamp 2⟩
    let cs : Coins := [⟨"aorai", .one⟩, ⟨"orai", .clamp 9⟩]
    b.Delivers (.transfer "alice" "bob") "alice" cs (transfer "alice" "bob" cs) ∧
      b.Delivers (.destroy "evm_module_account") "evm_module_account" cs (submit (.burn "evm" cs)) ∧
      ((transfer "alice" "bob" cs).run b).answer =
        .error (.insufficientFunds "alice" "orai" (.clamp 5) (.clamp 9)) ∧
      (((transfer "alice" "bob" cs).run b).state.balance "bob" "aorai").val = 1 := by
  intro b cs
  have hb : b.Balanced := Balanced.lock small_backed.total "alice" _
  have hburner : b.addressWith "evm" .burner = .ok "evm_module_account" :=
    ok_of_toOption (by decide +kernel)
  have hcs : cs.check = .ok () := ok_of_toOption (by decide +kernel)
  have h := moves_coin_by_coin (balanced_iff.mp hb) hcs
  exact ⟨h.1 "alice" "bob", h.2 "evm" _ hburner, by decide +kernel, by decide +kernel⟩

end Book

end DualDenom
