import DualDenom.Proofs.KeeperLaws
import DualDenom.Proofs.Runs
import DualDenom.Proofs.Worth

/-!
# Conservation of value

Only mints and burns change what all addresses have together or what was
issued, and they change both by the evm amount that was asked for
(`operate_nets`). Over a run both change by what its successful mints made less
what its successful burns took (`play_conserves`). Nothing is assumed of what
the ledger lists as spendable: it decides which conversions are made and
whether a turn fails, but not what value there is.
-/

namespace DualDenom

open DualDenom.Action Figures

def Coins.evmValue (cs : Coins) (c : Config) : Nat :=
  match cs.evmAmount c.evmDenom with
  | .ok n => n.val
  | .error _ => 0

namespace Operation

def minted (c : Config) : Operation → Nat
  | .keeper (.mintCoins _ cs) => cs.evmValue c
  | _ => 0

def burned (c : Config) : Operation → Nat
  | .keeper (.burnCoins _ cs) => cs.evmValue c
  | _ => 0

end Operation

namespace Moment

/-- What the moment's mint made; nothing when it failed. -/
def minted (c : Config) (m : Moment) : Nat :=
  match m.answer with
  | .ok _ => m.operation.minted c
  | .error _ => 0

def burned (c : Config) (m : Moment) : Nat :=
  match m.answer with
  | .ok _ => m.operation.burned c
  | .error _ => 0

end Moment

structure Figures.Nets (c : Config) (n : Int) (f : Figures) : Prop where
  held : c.worth f.held = n
  supply : c.worth f.supply = n

namespace Figures

variable {c : Config} {f g : Figures}

theorem Nets.add (hf : Nets c m f) (hg : Nets c n g) : Nets c (m + n) (f + g) where
  held := (c.worth_add ..).trans (by rw [hf.held, hg.held])
  supply := (c.worth_add ..).trans (by rw [hf.supply, hg.supply])

theorem Nets.neg (hf : Nets c n f) : Nets c (-n) (-f) where
  held := (c.worth_neg _).trans (by rw [hf.held])
  supply := (c.worth_neg _).trans (by rw [hf.supply])

theorem nets_zero : Nets c 0 0 := ⟨c.worth_zero, c.worth_zero⟩

theorem Neutral.nets (hf : Neutral c A f) : Nets c 0 f := ⟨hf.held, hf.supply⟩

theorem nets_transfer_coin (c : Config) (x y : Address) (coin : Coin) :
    Nets c 0 ((Movement.transfer x y).coinFigures coin) := by
  constructor <;> simp [Movement.coinFigures, Config.worth]

theorem nets_transfer (c : Config) (x y : Address) (cs : Coins) :
    Nets c 0 ((Movement.transfer x y).figures cs) := by
  induction cs with
  | nil => exact nets_zero
  | cons coin cs ih =>
    rw [Movement.figures_cons]
    exact (nets_transfer_coin c x y coin).add ih

variable {k : Keeper} {sp : Split} {n : Amount}

theorem nets_conversion (k : Keeper) (a : Address) (u : Int) :
    Nets k.config 0 (conversion k.config a u) :=
  (neutral_conversion (A := fun _ => True) k.evm_ne_cosmos fun _ => trivial).nets

theorem nets_legs_transfer (k : Keeper) (x y : Address) (sp : Split) :
    Nets k.config 0 (k.legFigures (.transfer x y) sp) :=
  (nets_transfer_coin ..).add (nets_transfer_coin ..)

theorem nets_legs_create (hn : sp.merge k.config.multiplier = .ok n) :
    Nets k.config n.val (k.legFigures (.create x) sp) := by
  have hne := k.evm_ne_cosmos
  constructor <;>
    simp [Keeper.legFigures, Movement.coinFigures, Config.worth, Config.wholeCoin,
      Config.remainderCoin, Config.cosmosCoin, Config.evmCoin, hne, hne.symm, Split.merge_ok.mp hn]

theorem nets_legs_destroy (hn : sp.merge k.config.multiplier = .ok n) :
    Nets k.config (-n.val) (k.legFigures (.destroy x) sp) := by
  have hneg : k.legFigures (.destroy x) sp = -k.legFigures (.create x) sp := by
    simp only [Keeper.legFigures, Movement.coinFigures]
    abel
  rw [hneg]
  exact (nets_legs_create hn).neg

end Figures

variable {k : Keeper} {L : Ledger σ} {book : σ → Book}

theorem Coins.evmValue_eq {cs : Coins} (h : cs.evmAmount c.evmDenom = .ok n) :
    cs.evmValue c = n.val := by
  rw [evmValue, h]

theorem Ledger.Carries.perform_nets (hL : L.Carries book)
    (h : (k.perform L q).Gives s (.ok reply) t) :
    ∃ f, (book s).Posted f (book t) ∧
      Nets k.config ((Operation.keeper q).minted k.config - (Operation.keeper q).burned k.config) f := by
  cases q with
  | mintCoins name cs =>
    obtain ⟨n, sp, e, hn, hm, hp⟩ := hL.mintCoins_posted (gives_thenDone_ok.mp h).1
    refine ⟨_, hp, ?_⟩
    simpa [Operation.minted, Operation.burned, Coins.evmValue_eq hn] using nets_legs_create hm
  | burnCoins name cs =>
    obtain ⟨n, sp, e, hn, hm, hp⟩ := hL.burnCoins_posted (gives_thenDone_ok.mp h).1
    refine ⟨_, hp, ?_⟩
    simpa [Operation.minted, Operation.burned, Coins.evmValue_eq hn] using nets_legs_destroy hm
  | accountToModule a name cs =>
    obtain ⟨e, he⟩ := exists_ok_unique ((book s).moduleAddress name)
    obtain ⟨n, sp, g, -, -, hg, hp⟩ := hL.accountToModule_posted he (gives_thenDone_ok.mp h).1
    exact ⟨_, hp, (nets_legs_transfer k a e sp).add hg.nets⟩
  | moduleToAccount name a cs =>
    obtain ⟨e, he⟩ := exists_ok_unique ((book s).moduleAddress name)
    obtain ⟨n, sp, g, -, -, hg, hp⟩ := hL.moduleToAccount_posted he (gives_thenDone_ok.mp h).1
    exact ⟨_, hp, (nets_legs_transfer k e a sp).add hg.nets⟩
  | sendCoins source target cs =>
    obtain ⟨moved, -, hp⟩ := hL.sendCoins_posted (gives_thenDone_ok.mp h).1
    exact ⟨_, hp, nets_transfer k.config source target moved⟩
  | sweep hd =>
    simp only [Keeper.perform, gives_bind_ok, gives_pure] at h
    obtain ⟨u, _, h, -, rfl⟩ := h
    obtain ⟨a, -, hp⟩ := hL.sweepDust_posted h
    exact ⟨_, hp, nets_conversion k a _⟩
  | balance a d =>
    simp only [Keeper.perform, gives_bind_ok, gives_pure, Keeper.balance_ok] at h
    obtain ⟨_, _, ⟨-, rfl, -⟩, -, rfl⟩ := h
    exact ⟨0, .refl _, nets_zero⟩
  | balanceParts a =>
    simp only [Keeper.perform, gives_bind_ok, gives_pure, Keeper.balanceParts_ok] at h
    obtain ⟨_, _, ⟨_, -, rfl, -⟩, -, rfl⟩ := h
    exact ⟨0, .refl _, nets_zero⟩
  | spendableCoins a =>
    simp only [Keeper.perform, Keeper.spendableCoins, gives_bind_ok, gives_pure, Ledger.ask_ok] at h
    obtain ⟨_, _, ⟨-, rfl⟩, -, rfl⟩ := h
    exact ⟨0, .refl _, nets_zero⟩
  | checkSendEnabled cs =>
    obtain ⟨-, rfl⟩ := Ledger.ask_ok.mp (gives_thenDone_ok.mp h).1
    exact ⟨0, .refl _, nets_zero⟩
  | config =>
    obtain ⟨-, rfl⟩ := gives_pure.mp h
    exact ⟨0, .refl _, nets_zero⟩

theorem Ledger.Carries.performConversion_nets (hL : L.Carries book)
    (h : (L.performConversion k.config q).Gives s (.ok reply) t) :
    ∃ f, (book s).Posted f (book t) ∧ Nets k.config 0 f := by
  cases q with
  | convert hd units d =>
    obtain ⟨a, -, hp⟩ := hL.convert_posted (gives_thenDone_ok.mp h).1
    exact ⟨_, hp, nets_conversion k a _⟩
  | topUp hd required =>
    simp only [performConversion, gives_bind_ok, gives_pure] at h
    obtain ⟨u, _, h, -, rfl⟩ := h
    obtain ⟨a, -, hp⟩ := hL.topUp_posted h
    exact ⟨_, hp, nets_conversion k a _⟩
  | sweepDust hd =>
    simp only [performConversion, gives_bind_ok, gives_pure] at h
    obtain ⟨u, _, h, -, rfl⟩ := h
    obtain ⟨a, -, hp⟩ := hL.sweepDust_posted h
    exact ⟨_, hp, nets_conversion k a _⟩

theorem Ledger.Carries.operate_nets (hL : L.Carries book)
    (h : (k.operate L op).Gives s (.ok reply) t) :
    ∃ f, (book s).Posted f (book t) ∧ Nets k.config (op.minted k.config - op.burned k.config) f := by
  cases op with
  | keeper q => exact hL.perform_nets h
  | conversion q => exact hL.performConversion_nets h

theorem Keeper.take_nets (k : Keeper) (t : Turn) (r : Recorded Book) :
    ∃ f, r.ledger.Posted f (k.take t r).state.ledger ∧
      Nets k.config ((k.take t r).minted k.config - (k.take t r).burned k.config) f := by
  have hop : (k.take t r).operation = t.operation := rfl
  cases ha : (k.take t r).answer with
  | ok reply =>
    simp only [Moment.minted, Moment.burned, ha, hop]
    exact (Book.carries_ledgerListing t.listing).operate_nets (k.take_ok ha)
  | error e =>
    refine ⟨0, ?_, ?_⟩
    · rw [k.take_error ha]
      exact .refl _
    · simpa [Moment.minted, Moment.burned, ha] using nets_zero

/-- Both values change over a run by what its mints made less what its burns took. -/
theorem Keeper.play_conserves (k : Keeper) (turns : List Turn) (r : Recorded Book) :
    let (moments, last) := k.play turns r
    let net : Int := (moments.map (·.minted k.config)).sum - (moments.map (·.burned k.config)).sum
    last.ledger.supplyWorth k.config = r.ledger.supplyWorth k.config + net ∧
      last.ledger.heldWorth k.config = r.ledger.heldWorth k.config + net := by
  induction turns generalizing r with
  | nil => simp [play]
  | cons t rest ih =>
    obtain ⟨f, hp, hf⟩ := k.take_nets t r
    obtain ⟨hs, hh⟩ := ih (k.take t r).state
    simp only [play, List.map_cons, List.sum_cons, Nat.cast_add]
    constructor
    · rw [hs, hp.supplyWorth, hf.supply]
      ring
    · rw [hh, hp.heldWorth, hf.held]
      ring

end DualDenom
