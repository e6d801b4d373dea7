import DualDenom.Proofs.NormalForm
import DualDenom.Proofs.Solvency

/-!
# Path independence

On a tidy book a run of escrow moves and sweeps is what it pays: where it ends
depends only on what each address received less what it sent
(`play_path_independent`). Which units were topped up and swept on the way, in
what order and how often, leaves no trace.
-/

namespace DualDenom

open DualDenom.Action Figures

-- ---------------------------------------------------------------------------
-- Payments
-- ---------------------------------------------------------------------------

structure Payment where
  source : Address
  target : Address
  amount : Nat
  deriving DecidableEq

def Payment.net (p : Payment) (a : Address) : Int :=
  (if a = p.target then (p.amount : Int) else 0) - if a = p.source then (p.amount : Int) else 0

def netPaid (ps : List Payment) (a : Address) : Int := (ps.map (·.net a)).sum

@[simp] theorem Payment.net_self : (⟨a, a, n⟩ : Payment).net x = 0 := sub_self _

theorem netPaid_singleton (p : Payment) (a : Address) : netPaid [p] a = p.net a := add_zero _

theorem netPaid_append (ps qs : List Payment) (a : Address) :
    netPaid (ps ++ qs) a = netPaid ps a + netPaid qs a := by
  simp only [netPaid, List.map_append, List.sum_append]

theorem Payment.net_add (source target : Address) (n m : Nat) (a : Address) :
    (⟨source, target, n + m⟩ : Payment).net a =
      (⟨source, target, n⟩ : Payment).net a + (⟨source, target, m⟩ : Payment).net a := by
  simp only [net, Nat.cast_add]
  split_ifs <;> ring

theorem netPaid_perm {ps qs : List Payment} (h : ps.Perm qs) (a : Address) :
    netPaid ps a = netPaid qs a := (h.map _).sum_eq

/-- The payment that an operation makes on a book, if it is a move of evm coins between an
account and an escrow that there is. -/
def Operation.payment? (c : Config) (b : Book) : Operation → Option Payment
  | .keeper (.accountToModule a name cs) =>
    (b.moduleAddress name).toOption.map fun e => ⟨a, e, cs.evmValue c⟩
  | .keeper (.moduleToAccount name a cs) =>
    (b.moduleAddress name).toOption.map fun e => ⟨e, a, cs.evmValue c⟩
  | _ => none

def Moment.payment? (c : Config) (b : Book) (m : Moment) : Option Payment :=
  match m.answer with
  | .ok _ => m.operation.payment? c b
  | .error _ => none

namespace Keeper

def payments (k : Keeper) (ops : List Operation) (r : Recorded Book) : List Payment :=
  (k.play (ops.map .plain) r).1.filterMap (·.payment? k.config r.ledger)

def ending (k : Keeper) (ops : List Operation) (r : Recorded Book) : Book :=
  (k.play (ops.map .plain) r).2.ledger

end Keeper

-- ---------------------------------------------------------------------------
-- One operation
-- ---------------------------------------------------------------------------

theorem Moment.payment?_congr {b b' : Book} (h : b.SameSettings b') (c : Config) (m : Moment) :
    m.payment? c b' = m.payment? c b := by
  simp only [payment?, Operation.payment?, h.moduleAddress]

theorem IsProgram.gap {m : (σ : Type) → Ledger σ → Bridge σ α} (hm : IsProgram S m) {L : Ledger σ}
    {book : σ → Book} (hL : L.Carries book) (h : (m σ L).Gives s (.ok a) t) (d : Denom) :
    (book t).gap d = (book s).gap d :=
  hm.takes (fun cl _ => hL.call_takes (Book.submit_takes_level cl)) h rfl d

namespace Book

variable {k : Keeper} {b b' : Book} {g : Figures}

theorem settles_of_posted (hn : sp.merge k.config.multiplier = .ok n)
    (hg : Neutral k.config (fun x => x = source ∨ x = target) g)
    (hp : b.Posted (k.legFigures (.transfer source target) sp + g) b')
    (hgap : ∀ d, b'.gap d = b.gap d)
    (hlow : (b.LowBut k.config fun _ => False) → b'.LowBut k.config fun _ => False) :
    b.Settles k.config (Payment.net ⟨source, target, n.val⟩) b' where
  worth := hp.worth_legs hn hg
  issued := by
    have hnets := (nets_legs_transfer k source target sp).add hg.nets
    rw [hp.supplyWorth, hnets.supply, add_zero, add_zero]
  gap := hgap
  foreign := (transfers_of_posted hn hg hp).foreign
  settings := hp.settings
  tidy hb := hb.of_lowBut hp.settings (hlow hb.lowBut)

/-- The address that is paid, or pays, is looked up. When there is none, nobody is paid. -/
theorem Settles.resolved {x : Except ε Address} {p : Address → Payment}
    (hself : ∀ y, (p a).net y = 0)
    (h : ∀ e, (∀ e', x = .ok e' → e' = e) → b.Settles c (p e).net b') :
    b.Settles c (netPaid (x.toOption.map p).toList) b' := by
  cases x with
  | ok e => exact (h e fun e' he' => (Except.ok.inj he').symm).cast fun y => (netPaid_singleton ..).symm
  | error _ => exact (h a nofun).cast hself

end Book

namespace Ledger.Mirrors

variable {L : Ledger σ} {book : σ → Book} {k : Keeper}

theorem accountToModule_settles (hL : L.Mirrors book)
    (he : ∀ e', (book s).moduleAddress name = .ok e' → e' = e)
    (h : (k.accountToModule L a name cs).Gives s (.ok ()) t) :
    (book s).Settles k.config (Payment.net ⟨a, e, cs.evmValue k.config⟩) (book t) := by
  obtain ⟨n, sp, g, hn, hm, hg, hp⟩ := hL.carries.accountToModule_posted he h
  rw [Coins.evmValue_eq hn]
  exact Book.settles_of_posted hm hg hp
    ((k.accountToModule_isProgram a name cs).gap hL.carries h) (hL.accountToModule_low h)

theorem moduleToAccount_settles (hL : L.Mirrors book)
    (he : ∀ e', (book s).moduleAddress name = .ok e' → e' = e)
    (h : (k.moduleToAccount L name a cs).Gives s (.ok ()) t) :
    (book s).Settles k.config (Payment.net ⟨e, a, cs.evmValue k.config⟩) (book t) := by
  obtain ⟨n, sp, g, hn, hm, hg, hp⟩ := hL.carries.moduleToAccount_posted he h
  rw [Coins.evmValue_eq hn]
  exact Book.settles_of_posted hm hg hp
    ((k.moduleToAccount_isProgram name a cs).gap hL.carries h) (hL.moduleToAccount_low h)

theorem sweepDust_settles (hL : L.Mirrors book)
    (h : (L.sweepDust k.config hd).Gives s (.ok u) t) :
    (book s).Settles k.config (fun _ => 0) (book t) := by
  obtain ⟨a, -, hp⟩ := hL.carries.sweepDust_posted h
  have hneutral : Neutral k.config (fun _ => True) (conversion k.config a (-u.val)) :=
    neutral_conversion k.evm_ne_cosmos fun _ => trivial
  constructor
  case worth =>
    intro x
    rw [hp.worth, hneutral.worth]
  case issued => rw [hp.supplyWorth, hneutral.supply, add_zero]
  case gap => exact hp.gap fun _ => rfl
  case foreign =>
    intro d he hc
    obtain ⟨hbal, hsup⟩ := hneutral.foreign d he hc
    exact ⟨fun x => hp.balance_eq (hbal x), hp.supply_eq hsup⟩
  case settings => exact hp.settings
  case tidy =>
    intro hb
    exact hb.of_lowBut hp.settings ((hL.sweepDust_low h hb.lowBut).mono fun _ hA => hA.1)

theorem operate_settles (hL : L.Mirrors book) (hop : op.isEscrowMove = true)
    (h : (k.operate L op).Gives s (.ok reply) t) :
    (book s).Settles k.config (netPaid (op.payment? k.config (book s)).toList) (book t) := by
  unfold Operation.isEscrowMove at hop
  split at hop
  · exact .resolved (fun _ => Payment.net_self) fun e he =>
      hL.accountToModule_settles he (gives_thenDone_ok.mp h).1
  · exact .resolved (fun _ => Payment.net_self) fun e he =>
      hL.moduleToAccount_settles he (gives_thenDone_ok.mp h).1
  · simp only [Keeper.operate, Keeper.perform, gives_bind_ok, gives_pure] at h
    obtain ⟨u, _, h, -, rfl⟩ := h
    exact hL.sweepDust_settles h
  · cases hop

end Ledger.Mirrors

-- ---------------------------------------------------------------------------
-- Runs
-- ---------------------------------------------------------------------------

namespace Keeper

variable {k : Keeper} {r : Recorded Book} {op : Operation} {ops ops' : List Operation}

theorem take_settles (hop : op.isEscrowMove = true) :
    r.ledger.Settles k.config
      (netPaid ((k.take (.plain op) r).payment? k.config r.ledger).toList)
      (k.take (.plain op) r).state.ledger := by
  unfold Moment.payment?
  cases ha : (k.take (.plain op) r).answer with
  | error e =>
    rw [k.take_error ha]
    exact .refl ..
  | ok reply => exact Book.mirrors_recorded.operate_settles hop (k.take_ok ha)

/-- A run settles the payments of its moments, on whatever book of the same settings they are
looked up. -/
theorem play_settles (hops : ∀ op ∈ ops, op.isEscrowMove = true) (hs : b.SameSettings r.ledger) :
    r.ledger.Settles k.config
      (netPaid ((k.play (ops.map .plain) r).1.filterMap (·.payment? k.config b)))
      (k.play (ops.map .plain) r).2.ledger := by
  induction ops generalizing r with
  | nil => exact .refl ..
  | cons op rest ih =>
    have hhead := take_settles (k := k) (r := r) (hops op List.mem_cons_self)
    have hrest := ih (fun op' hop' => hops op' (List.mem_cons_of_mem _ hop'))
      (hs.trans hhead.settings)
    refine (hhead.trans hrest).cast fun a => ?_
    rw [← netPaid_append, Moment.payment?_congr hs]
    congr 1
    simp only [List.map_cons, play, List.filterMap_cons]
    cases (k.take (.plain op) r).payment? k.config b <;> rfl

def Completes (k : Keeper) (ops : List Operation) (r : Recorded Book) : Prop :=
  ∀ m ∈ (k.play (ops.map .plain) r).1, m.answer.isOk = true

theorem filterMap_payment? (b : Book) (h : k.Completes ops r) :
    (k.play (ops.map .plain) r).1.filterMap (·.payment? k.config b) =
      ops.filterMap (·.payment? k.config b) := by
  induction ops generalizing r with
  | nil => rfl
  | cons op rest ih =>
    obtain ⟨hok, hrest⟩ := List.forall_mem_cons.mp h
    have hhead : (k.take (.plain op) r).payment? k.config b = op.payment? k.config b := by
      unfold Moment.payment?
      cases ha : (k.take (.plain op) r).answer with
      | ok reply => rfl
      | error e =>
        rw [ha] at hok
        cases hok
    simp only [List.map_cons, play, List.filterMap_cons, hhead, ih hrest]

/-- The end of a run is what was paid, whatever came between. A run that completes comes to the
same in any order of its operations, and however an amount is divided. -/
theorem play_path_independent {k : Keeper} {r : Recorded Book}
    (hlocked : ∀ a d, (r.ledger.locked a d).val = 0)
    (hdust : ∀ a, (r.ledger.balance a k.config.evmDenom).val < k.config.multiplier.val) :
    (∀ ops ops' : List Operation, (∀ op ∈ ops, op.isEscrowMove = true) →
      (∀ op ∈ ops', op.isEscrowMove = true) →
      (∀ a, netPaid (k.payments ops r) a = netPaid (k.payments ops' r) a) →
      (k.ending ops r).SameFunds (k.ending ops' r)) ∧
    (∀ ops ops' : List Operation, (∀ op ∈ ops, op.isEscrowMove = true) → ops.Perm ops' →
      k.Completes ops r → k.Completes ops' r → (k.ending ops r).SameFunds (k.ending ops' r)) ∧
    (∀ send : Coins → Operation,
      ((∃ a name, send = fun cs => .keeper (.accountToModule a name cs)) ∨
        ∃ name a, send = fun cs => .keeper (.moduleToAccount name a cs)) →
      ∀ n n₁ n₂ : Amount, n.val = n₁.val + n₂.val →
      let one := [send [k.config.evmCoin n]]
      let two := [send [k.config.evmCoin n₁], send [k.config.evmCoin n₂]]
      k.Completes one r → k.Completes two r → (k.ending one r).SameFunds (k.ending two r)) := by
  have hends : ∀ ops ops' : List Operation, (∀ op ∈ ops, op.isEscrowMove = true) →
      (∀ op ∈ ops', op.isEscrowMove = true) →
      (∀ a, netPaid (k.payments ops r) a = netPaid (k.payments ops' r) a) →
      (k.ending ops r).SameFunds (k.ending ops' r) := by
    intro ops ops' hops hops' hnet
    have h := play_settles (k := k) hops (.refl r.ledger)
    have h' := play_settles (k := k) hops' (.refl r.ledger)
    exact h.sameFunds ⟨hlocked, hdust⟩ (h'.cast fun a => (hnet a).symm)
  refine ⟨hends, fun ops ops' hops hperm hdone hdone' => ?_, fun send hsend n n₁ n₂ hn => ?_⟩
  · refine hends ops ops' hops (fun op hop => hops op (hperm.mem_iff.mpr hop)) fun a => ?_
    simp only [payments, filterMap_payment? _ hdone, filterMap_payment? _ hdone']
    exact netPaid_perm (hperm.filterMap _) a
  · intro one two hone htwo
    have hmoves : ∀ cs, (send cs).isEscrowMove = true := by
      rcases hsend with ⟨a, name, rfl⟩ | ⟨name, a, rfl⟩ <;> exact fun _ => rfl
    refine hends one two (by simp [one, hmoves]) (by simp [two, hmoves]) fun a => ?_
    have hvalue : ∀ n : Amount, Coins.evmValue [k.config.evmCoin n] k.config = n.val := fun n =>
      Coins.evmValue_eq (Coins.evmAmount_singleton k.evm_wellFormed n)
    simp only [payments, filterMap_payment? _ hone, filterMap_payment? _ htwo, one, two]
    rcases hsend with ⟨source, name, rfl⟩ | ⟨name, target, rfl⟩
    all_goals
      simp only [List.filterMap_cons, List.filterMap_nil, Operation.payment?, hvalue, hn]
      cases (r.ledger.moduleAddress name).toOption with
      | none => rfl
      | some e => simp [netPaid, Payment.net_add]

end Keeper

theorem Book.small_tidy : Book.small.Tidy Keeper.standard.config := by
  have htotal : (Book.small.sheet Keeper.standard.config.evmDenom).total <
      Keeper.standard.config.multiplier.val := by decide +kernel
  exact ⟨Book.small_backed.unlocked, fun a => (Sheet.balance_le_total ..).trans_lt htotal⟩

theorem play_path_independent_small :
    let k := Keeper.standard
    let r := Recorded.start Book.small
    let send := fun cs => Operation.keeper (.accountToModule "alice" "fee" cs)
    let one := [send [k.config.evmCoin ⟨1000000000011, by decide⟩]]
    let two := [send [k.config.evmCoin ⟨10, by decide⟩],
      send [k.config.evmCoin ⟨1000000000001, by decide⟩]]
    k.Completes one r ∧ k.Completes two r ∧ (k.ending one r).SameFunds (k.ending two r) := by
  intro k r send one two
  have htidy : r.ledger.Tidy k.config := by
    simpa only [r, Recorded.start] using Book.small_tidy
  have hone : k.Completes one r := by
    unfold Keeper.Completes
    decide +kernel
  have htwo : k.Completes two r := by
    unfold Keeper.Completes
    decide +kernel
  obtain ⟨-, -, hparts⟩ := Keeper.play_path_independent (k := k) htidy.unlocked htidy.low
  exact ⟨hone, htwo, hparts send (.inl ⟨"alice", "fee", rfl⟩) _ _ _ rfl hone htwo⟩

end DualDenom
