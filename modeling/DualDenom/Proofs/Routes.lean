import DualDenom.Proofs.NormalForm
import DualDenom.Proofs.Steps

/-!
# Routes

On a book a conversion is a list of steps between two addresses, that of its
holder and that of the escrow (`convert_iff`). The opposite conversion takes
just these steps back, so it succeeds after it and restores all funds
(`convert_back_restores`). When the holder is at the address of the escrow, its
coins go from there to where they are; a conversion in place leaves that out
and comes to the same (`convert_in_place_agrees`).
-/

namespace DualDenom

open DualDenom.Action Figures

-- ---------------------------------------------------------------------------
-- The steps of a conversion
-- ---------------------------------------------------------------------------

namespace Config

variable {c : Config} {hd : Holder} {units evm : Amount} {d : Direction} {b b' : Book}

def targetDenom (c : Config) : Direction → Denom
  | .cosmosToEvm => c.evmDenom
  | .evmToCosmos => c.cosmosDenom

theorem denom_targetCoin (c : Config) (units evm : Amount) (d : Direction) :
    (c.targetCoin units evm d).denom = c.targetDenom d := by cases d <;> rfl

@[simp] theorem sourceCoin_opposite (c : Config) (units evm : Amount) (d : Direction) :
    c.sourceCoin units evm d.opposite = c.targetCoin units evm d := by cases d <;> rfl

@[simp] theorem targetCoin_opposite (c : Config) (units evm : Amount) (d : Direction) :
    c.targetCoin units evm d.opposite = c.sourceCoin units evm d := by cases d <;> rfl

def exchangeSteps (c : Config) (units evm : Amount) (d : Direction) (e : Address) : List Step :=
  [⟨.destroy e, c.sourceCoin units evm d⟩, ⟨.create e, c.targetCoin units evm d⟩]

def routedSteps (c : Config) (units evm : Amount) (d : Direction) (a e : Address) : List Step :=
  ⟨.transfer a e, c.sourceCoin units evm d⟩ :: c.exchangeSteps units evm d e ++
    [⟨.transfer e a, c.targetCoin units evm d⟩]

def steps (c : Config) (hd : Holder) (units evm : Amount) (d : Direction) (a e : Address) :
    List Step :=
  if hd.isModule c.conversionModule then c.exchangeSteps units evm d e
  else c.routedSteps units evm d a e

theorem undo_steps (c : Config) (hd : Holder) (units evm : Amount) (d : Direction)
    (a e : Address) :
    Step.undo (c.steps hd units evm d a e) = c.steps hd units evm d.opposite a e := by
  unfold steps
  split <;> simp [routedSteps, exchangeSteps, Step.undo, Step.inverse, Movement.inverse]

/-- What a step hands over the next one takes; what the last one hands over is the target. -/
theorem hands_steps (hin : hd.isModule c.conversionModule = true → a = e)
    (h : ((c.steps hd units evm d a e).forM Step.carry).Gives b (.ok ()) b')
    (hs : (c.targetCoin units evm d).amount.val ≤
      (b'.spendable a (c.targetCoin units evm d).denom).val) :
    Step.Hands (c.steps hd units evm d a e) b b' := by
  have hlast : ∀ x, some a = some x → (c.targetCoin units evm d).amount.val ≤
      (b'.spendable x (c.targetCoin units evm d).denom).val := by
    rintro _ ⟨⟩
    exact hs
  unfold steps at h ⊢
  split at h
  · rename_i hmod
    obtain rfl := hin hmod
    rw [if_pos hmod]
    obtain ⟨r, hb, h⟩ := gives_forM_cons_ok.mp h
    obtain ⟨_, hm, h⟩ := gives_forM_cons_ok.mp h
    obtain ⟨-, rfl⟩ := gives_forM_nil.mp h
    exact ⟨r, hb, nofun, b', hm, hlast, rfl⟩
  · rename_i hmod
    rw [if_neg hmod]
    obtain ⟨p, hd, h⟩ := gives_forM_cons_ok.mp h
    obtain ⟨q, hb, h⟩ := gives_forM_cons_ok.mp h
    obtain ⟨r, hm, h⟩ := gives_forM_cons_ok.mp h
    obtain ⟨_, hw, h⟩ := gives_forM_cons_ok.mp h
    obtain ⟨-, rfl⟩ := gives_forM_nil.mp h
    exact ⟨p, hd, (Movement.carryCoin_affords hb).of_source rfl, q, hb, nofun,
      r, hm, (Movement.carryCoin_affords hw).of_source rfl, b', hw, hlast, rfl⟩

theorem exchangeSteps_posted (he : evm.val = units.val * c.multiplier.val)
    (h : ((c.exchangeSteps units evm d e).forM Step.carry).Gives b (.ok ()) b') :
    b.Posted (conversion c e (d.signed units)) b' := by
  obtain ⟨r, hburn, h⟩ := gives_forM_cons_ok.mp h
  obtain ⟨_, hmint, h⟩ := gives_forM_cons_ok.mp h
  obtain ⟨-, rfl⟩ := gives_forM_nil.mp h
  exact ((Movement.carryCoin_posted hburn).trans (Movement.carryCoin_posted hmint)).cast
    (exchange_figures he)

theorem routedSteps_self_iff
    (hs : ∀ b', ((c.exchangeSteps units evm d e).forM Step.carry).Gives b (.ok ()) b' →
      (c.targetCoin units evm d).amount.val ≤
        (b'.spendable e (c.targetCoin units evm d).denom).val) :
    (∃ b', ((c.routedSteps units evm d e e).forM Step.carry).Gives b (.ok ()) b') ↔
      ∃ b', ((c.exchangeSteps units evm d e).forM Step.carry).Gives b (.ok ()) b' := by
  have hself : ∀ coin, (Movement.transfer e e).coinFigures coin = 0 := fun coin => neg_add_cancel _
  constructor
  · rintro ⟨b', h⟩
    obtain ⟨p, hp, h⟩ := gives_forM_cons_ok.mp h
    obtain ⟨q, hq, -⟩ := gives_forM_append_ok.mp h
    have hback : p.Posted 0 b := (Movement.carryCoin_posted hp).symm.cast (by rw [hself, neg_zero])
    obtain ⟨b', hb', -⟩ := Step.forM_carry_congr hq hback
    exact ⟨b', hb'⟩
  · rintro ⟨b', h⟩
    obtain ⟨r, hburn, -⟩ := gives_forM_cons_ok.mp h
    -- What the escrow can destroy it can also send to itself.
    obtain ⟨p, hp⟩ := Movement.carryCoin_iff (m := .transfer e e).mpr
      ⟨(Movement.carryCoin_affords hburn).of_source rfl, .inl rfl⟩
    obtain ⟨q, hq, hbq⟩ := Step.forM_carry_congr h ((Movement.carryCoin_posted hp).cast (hself _))
    have hlast : (Movement.transfer e e).Affords b' (c.targetCoin units evm d) := by
      rintro _ ⟨⟩
      exact hs b' h
    obtain ⟨t, ht⟩ := Movement.carryCoin_iff.mpr
      ⟨(Movement.affords_congr hbq (spares_zero _)).mpr hlast, .inl rfl⟩
    exact ⟨t, gives_forM_cons_ok.mpr ⟨p, hp, gives_forM_append_ok.mpr
      ⟨q, hq, gives_forM_cons_ok.mpr ⟨t, ht, gives_forM_nil.mpr ⟨rfl, rfl⟩⟩⟩⟩⟩

end Config

-- ---------------------------------------------------------------------------
-- Routes as steps
-- ---------------------------------------------------------------------------

namespace Book

/-- A conversion finds its holder at `a` and its escrow, with all permissions, at `e`. -/
structure Hosts (b : Book) (c : Config) (hd : Holder) (a e : Address) : Prop where
  address : b.addressOf hd = .ok a
  admits : b.Admits hd
  burner : b.addressWith c.conversionModule .burner = .ok e
  minter : b.addressWith c.conversionModule .minter = .ok e

variable {b b' : Book} {c : Config} {hd : Holder} {units evm : Amount} {d : Direction}
  {steps : List Step}

namespace Hosts

theorem congr (h : b.Hosts c hd a e) (hs : b.SameSettings b') : b'.Hosts c hd a e where
  address := (hs.addressOf hd).trans h.address
  admits := hs.admits.mpr h.admits
  burner := (hs.addressWith _ _).trans h.burner
  minter := (hs.addressWith _ _).trans h.minter

theorem moduleAddress (h : b.Hosts c hd a e) : b.moduleAddress c.conversionModule = .ok e :=
  moduleAddress_of_addressWith h.burner

theorem in_place (h : b.Hosts c hd a e) (hin : hd.isModule c.conversionModule = true) : a = e := by
  obtain rfl := Holder.isModule_iff.mp hin
  exact Except.ok.inj (h.address.symm.trans h.moduleAddress)

end Hosts

theorem hosts_at_escrow (b : Book) (he : b.moduleAddress c.conversionModule = .ok x)
    (hadm : b.Admits (.account x)) :
    b.Hosts c (.escrow c.conversionModule) a e ↔ b.Hosts c (.account x) a e :=
  ⟨fun h => ⟨he.symm.trans h.address, hadm, h.burner, h.minter⟩,
    fun h => ⟨he.trans h.address, trivial, h.burner, h.minter⟩⟩

theorem reads_route
    (hsrc : (c.sourceCoin units evm d).denom.wellFormed = true ∧
      (c.sourceCoin units evm d).amount.val ≠ 0)
    (htgt : (c.targetCoin units evm d).denom.wellFormed = true ∧
      (c.targetCoin units evm d).amount.val ≠ 0) :
    List.Forall₂ b.Reads (c.route hd units evm d) steps ↔
      ∃ a e, b.Hosts c hd a e ∧ steps = c.steps hd units evm d a e := by
  let name := c.conversionModule
  have hburn : (Call.burn name [c.sourceCoin units evm d]).Single _ := ⟨rfl, hsrc⟩
  have hmint : (Call.mint name [c.targetCoin units evm d]).Single _ := ⟨rfl, htgt⟩
  have hdeposit : (hd.deposit name [c.sourceCoin units evm d]).Single _ :=
    ⟨Holder.coins_deposit hd, hsrc⟩
  have hwithdraw : (hd.withdraw name [c.targetCoin units evm d]).Single _ :=
    ⟨Holder.coins_withdraw hd, htgt⟩
  -- On one book all calls meet the same two addresses.
  have hsame : ∀ {p e e'}, b.addressWith name p = .ok e → b.moduleAddress name = .ok e' → e' = e :=
    fun h h' => Except.ok.inj (h'.symm.trans (moduleAddress_of_addressWith h))
  by_cases hin : hd.isModule c.conversionModule = true
  · obtain rfl := Holder.isModule_iff.mp hin
    simp only [Config.route, Config.steps, Config.exchangeSteps, hin, if_true]
    constructor
    · rintro (_ | ⟨h₁, _ | ⟨h₂, _ | _⟩⟩)
      obtain ⟨_, hm₁, rfl⟩ := h₁.movement_of_single hburn
      obtain ⟨_, hm₂, rfl⟩ := h₂.movement_of_single hmint
      obtain ⟨e, he, rfl⟩ := movement_burn.mp hm₁
      obtain ⟨e', he', rfl⟩ := movement_mint.mp hm₂
      obtain rfl : e = e' := hsame he' (moduleAddress_of_addressWith he)
      exact ⟨e, e, ⟨moduleAddress_of_addressWith he, trivial, he, he'⟩, rfl⟩
    · rintro ⟨a, e, h, rfl⟩
      exact .cons ⟨movement_burn.mpr ⟨e, h.burner, rfl⟩, hburn⟩
        (.cons ⟨movement_mint.mpr ⟨e, h.minter, rfl⟩, hmint⟩ .nil)
  · simp only [Config.route, Config.steps, Config.routedSteps, Config.exchangeSteps, if_neg hin,
      List.cons_append, List.nil_append]
    constructor
    · rintro (_ | ⟨h₁, _ | ⟨h₂, _ | ⟨h₃, _ | ⟨h₄, _ | _⟩⟩⟩⟩)
      obtain ⟨_, hm₁, rfl⟩ := h₁.movement_of_single hdeposit
      obtain ⟨_, hm₂, rfl⟩ := h₂.movement_of_single hburn
      obtain ⟨_, hm₃, rfl⟩ := h₃.movement_of_single hmint
      obtain ⟨_, hm₄, rfl⟩ := h₄.movement_of_single hwithdraw
      obtain ⟨a, e₁, ha, he₁, rfl⟩ := movement_deposit.mp hm₁
      obtain ⟨e, he, rfl⟩ := movement_burn.mp hm₂
      obtain ⟨e₃, he₃, rfl⟩ := movement_mint.mp hm₃
      obtain ⟨a', e₄, ha', he₄, hadm, rfl⟩ := movement_withdraw.mp hm₄
      obtain rfl : a' = a := Except.ok.inj (ha'.symm.trans ha)
      obtain rfl := hsame he he₁
      obtain rfl := hsame he (moduleAddress_of_addressWith he₃)
      obtain rfl := hsame he he₄
      exact ⟨a', _, ⟨ha, hadm, he, he₃⟩, rfl⟩
    · rintro ⟨a, e, h, rfl⟩
      exact .cons ⟨movement_deposit.mpr ⟨a, e, h.address, h.moduleAddress, rfl⟩, hdeposit⟩
        (.cons ⟨movement_burn.mpr ⟨e, h.burner, rfl⟩, hburn⟩
          (.cons ⟨movement_mint.mpr ⟨e, h.minter, rfl⟩, hmint⟩
            (.cons ⟨movement_withdraw.mpr ⟨a, e, h.address, h.moduleAddress, h.admits, rfl⟩,
              hwithdraw⟩ .nil)))

theorem Posted.target_spendable {k : Keeper} (he : evm.val = units.val * k.config.multiplier.val)
    (hp : b.Posted (conversion k.config a (d.signed units)) b')
    (hlocked : (b.locked a (k.config.targetDenom d)).val ≤
      (b.balance a (k.config.targetDenom d)).val) :
    (k.config.targetCoin units evm d).amount.val ≤
      (b'.spendable a (k.config.targetCoin units evm d).denom).val := by
  have hbal := hp.balance a (k.config.targetDenom d)
  rw [k.config.denom_targetCoin, spendable_val, hp.settings.locked]
  rw [balance_conversion, if_pos rfl] at hbal
  cases d with
  | cosmosToEvm =>
    simp only [Config.targetDenom, Config.targetCoin, Config.evmCoin, Direction.signed,
      k.config.rate_evm k.evm_ne_cosmos, ← Nat.cast_mul, ← he] at hbal hlocked ⊢
    omega
  | evmToCosmos =>
    simp only [Config.targetDenom, Config.targetCoin, Config.cosmosCoin, Direction.signed,
      k.config.rate_cosmos k.evm_ne_cosmos] at hbal hlocked ⊢
    omega

end Book

-- ---------------------------------------------------------------------------
-- Conversions
-- ---------------------------------------------------------------------------

variable {k : Keeper} {hd : Holder} {units evm : Amount} {d : Direction}

theorem Ledger.Mirrors.convert_iff {L : Ledger σ} {book : σ → Book} (hL : L.Mirrors book) :
    (∃ t, (L.convert k.config hd units d).Gives s (.ok ()) t ∧ book t = b') ↔
      (units.val = 0 ∧ b' = book s) ∨
      (units.val ≠ 0 ∧ ∃ evm : Amount, evm.val = units.val * k.config.multiplier.val ∧
        ∃ a e, (book s).Hosts k.config hd a e ∧
          ((k.config.steps hd units evm d a e).forM Step.carry).Gives (book s) (.ok ()) b') := by
  have hroute : ∀ evm : Amount, units.val ≠ 0 → evm.val = units.val * k.config.multiplier.val →
      ((∃ t, ((k.config.route hd units evm d).forM L.call).Gives s (.ok ()) t ∧ book t = b') ↔
        ∃ a e, (book s).Hosts k.config hd a e ∧
          ((k.config.steps hd units evm d a e).forM Step.carry).Gives (book s) (.ok ()) b') := by
    intro evm hu he
    obtain ⟨hsrc, htgt, -⟩ := k.coins_proper d hu he
    have hcalls : ∀ cl ∈ k.config.route hd units evm d, ∃ coin, cl.Single coin := by
      intro cl hcl
      rcases Config.coins_of_mem_route hcl with hcs | hcs
      · exact ⟨_, hcs, hsrc⟩
      · exact ⟨_, hcs, htgt⟩
    rw [hL.forM_call_iff hcalls]
    simp only [Book.reads_route hsrc htgt]
    constructor
    · rintro ⟨_, ⟨a, e, hh, rfl⟩, h⟩
      exact ⟨a, e, hh, h⟩
    · rintro ⟨a, e, hh, h⟩
      exact ⟨_, ⟨a, e, hh, rfl⟩, h⟩
  constructor
  · rintro ⟨t, h, hb⟩
    rcases convert_ok.mp h with ⟨hz, rfl⟩ | ⟨hu, evm, he, h⟩
    · exact .inl ⟨hz, hb.symm⟩
    · exact .inr ⟨hu, evm, he, (hroute evm hu he).mp ⟨t, h, hb⟩⟩
  · rintro (⟨hz, rfl⟩ | ⟨hu, evm, he, h⟩)
    · exact ⟨s, convert_ok.mpr (.inl ⟨hz, rfl⟩), rfl⟩
    · obtain ⟨t, ht, hb⟩ := (hroute evm hu he).mpr h
      exact ⟨t, convert_ok.mpr (.inr ⟨hu, evm, he, ht⟩), hb⟩

theorem Ledger.Mirrors.convert_succeeds_iff {L : Ledger σ} {book : σ → Book} (hL : L.Mirrors book) :
    (∃ t, (L.convert k.config hd units d).Gives s (.ok ()) t) ↔ units.val = 0 ∨
      (units.val ≠ 0 ∧ ∃ evm : Amount, evm.val = units.val * k.config.multiplier.val ∧
        ∃ a e, (book s).Hosts k.config hd a e ∧
          ∃ b', ((k.config.steps hd units evm d a e).forM Step.carry).Gives (book s) (.ok ()) b') := by
  constructor
  · rintro ⟨t, h⟩
    rcases hL.convert_iff.mp ⟨t, h, rfl⟩ with ⟨hz, -⟩ | ⟨hu, evm, he, a, e, hh, hlead⟩
    · exact .inl hz
    · exact .inr ⟨hu, evm, he, a, e, hh, _, hlead⟩
  · rintro (hz | ⟨hu, evm, he, a, e, hh, b', hlead⟩)
    · exact ⟨s, convert_ok.mpr (.inl ⟨hz, rfl⟩)⟩
    · obtain ⟨t, ht, -⟩ := hL.convert_iff.mpr (.inr ⟨hu, evm, he, a, e, hh, hlead⟩)
      exact ⟨t, ht⟩

namespace Keeper

variable {r r' : Recorded Book}

/-- A conversion that succeeded can be taken back, and then all funds are as they were. -/
theorem convert_back_restores
    (hlocked : ∀ a, r.ledger.addressOf hd = .ok a →
      (r.ledger.locked a (k.config.targetDenom d)).val ≤
        (r.ledger.balance a (k.config.targetDenom d)).val)
    (h : (Book.ledger.recorded.convert k.config hd units d).Gives r (.ok ()) r') :
    ∃ r'', (Book.ledger.recorded.convert k.config hd units d.opposite).Gives r' (.ok ()) r'' ∧
      r.ledger.SameFunds r''.ledger := by
  have hL := Book.mirrors_recorded
  rcases hL.convert_iff.mp ⟨r', h, rfl⟩ with ⟨hz, hb⟩ | ⟨hu, evm, he, a, e, hh, hlead⟩
  · refine ⟨r', Ledger.convert_ok.mpr (.inl ⟨hz, rfl⟩), ?_⟩
    rw [hb]
    exact (Book.Posted.refl _).sameFunds (.refl _)
  · have hp := (hL.carries.convert_posted h).posted hh.address
    have hs := hp.target_spendable he (hlocked a hh.address)
    obtain ⟨b'', hback, hsame⟩ := (Config.hands_steps hh.in_place hlead hs).undone (.refl _)
    rw [Config.undo_steps] at hback
    obtain ⟨r'', hr'', rfl⟩ :=
      hL.convert_iff.mpr (.inr ⟨hu, evm, he, a, e, hh.congr hp.settings, hback⟩)
    exact ⟨r'', hr'', (Book.Posted.refl _).sameFunds hsame⟩

end Keeper

theorem convert_back_restores_small :
    let k := Keeper.standard
    let L := Book.ledger.recorded
    let r := Recorded.start (Book.small.lock "alice" ⟨"aorai", .clamp 2⟩)
    ∃ r' r'', (L.convert k.config (.account "alice") (.clamp 2) .cosmosToEvm).Gives r (.ok ()) r' ∧
      (L.convert k.config (.account "alice") (.clamp 2) .evmToCosmos).Gives r' (.ok ()) r'' ∧
      r.ledger.SameFunds r''.ledger := by
  intro k L r
  have hlocked : ∀ a, r.ledger.addressOf (.account "alice") = .ok a →
      (r.ledger.locked a (k.config.targetDenom .cosmosToEvm)).val ≤
        (r.ledger.balance a (k.config.targetDenom .cosmosToEvm)).val := by
    rintro _ ⟨⟩
    decide +kernel
  obtain ⟨r', hthere⟩ : ∃ r', (L.convert k.config (.account "alice") (.clamp 2) .cosmosToEvm).Gives
      r (.ok ()) r' := ⟨_, gives_of_toOption (by decide +kernel)⟩
  obtain ⟨r'', hback, hsame⟩ := Keeper.convert_back_restores hlocked hthere
  exact ⟨r', r'', hthere, hback, hsame⟩

namespace Keeper

variable {r r' : Recorded Book}

/-- At the address of the escrow it makes no difference whether the way there and back is left
out. -/
theorem convert_in_place_agrees (units : Amount) (d : Direction)
    (he : r.ledger.moduleAddress k.config.conversionModule = .ok e)
    (hblocked : r.ledger.checkNotBlocked e = .ok ())
    (hlocked : (r.ledger.locked e (k.config.targetDenom d)).val ≤
      (r.ledger.balance e (k.config.targetDenom d)).val) :
    let inPlace :=
      Book.ledger.recorded.convert k.config (.escrow k.config.conversionModule) units d
    let routed := Book.ledger.recorded.convert k.config (.account e) units d
    ((∃ t, inPlace.Gives r (.ok ()) t) ↔ ∃ t, routed.Gives r (.ok ()) t) ∧
      ∀ t t', inPlace.Gives r (.ok ()) t → routed.Gives r (.ok ()) t' →
        t.ledger.SameFunds t'.ledger := by
  intro inPlace routed
  have hL := Book.mirrors_recorded
  have hadm := Book.checkNotBlocked_ok.mp hblocked
  refine ⟨?_, fun t t' h h' => ?_⟩
  · rw [hL.convert_succeeds_iff, hL.convert_succeeds_iff]
    refine or_congr Iff.rfl <| and_congr_right fun _ => exists_congr fun evm =>
      and_congr_right fun hevm => exists_congr fun a => exists_congr fun e' => ?_
    rw [r.ledger.hosts_at_escrow he hadm]
    refine and_congr_right fun hh => ?_
    obtain rfl : e = a := Except.ok.inj hh.address
    obtain rfl : e = e' := Except.ok.inj (he.symm.trans hh.moduleAddress)
    simp only [Config.steps, Holder.isModule, decide_true, if_true, reduceCtorEq, decide_false,
      Bool.false_eq_true, if_false]
    refine (Config.routedSteps_self_iff fun b' hb' => ?_).symm
    exact (Config.exchangeSteps_posted hevm hb').target_spendable hevm hlocked
  · have hp := (hL.carries.convert_posted h).posted (a := e) he
    exact hp.sameFunds ((hL.carries.convert_posted h').posted rfl)

end Keeper

theorem convert_in_place_agrees_small :
    let k := Keeper.standard
    let e := "evm_module_account"
    let funds := Book.fund e [⟨"aorai", .clamp 7⟩, ⟨"orai", .clamp 3⟩]
    let r := Recorded.start ((funds.run Book.small).state.lock e ⟨"aorai", .clamp 5⟩)
    let inPlace := Book.ledger.recorded.convert k.config (.escrow "evm") (.clamp 2) .cosmosToEvm
    let routed := Book.ledger.recorded.convert k.config (.account e) (.clamp 2) .cosmosToEvm
    ∃ t t', inPlace.Gives r (.ok ()) t ∧ t.calls.length = 2 ∧
      routed.Gives r (.ok ()) t' ∧ t'.calls.length = 4 ∧ t.ledger.SameFunds t'.ledger := by
  intro k e funds r inPlace routed
  have hplace : (inPlace.run r).answer.toOption = some () := by decide +kernel
  have hrouted : (routed.run r).answer.toOption = some () := by decide +kernel
  obtain ⟨-, hsame⟩ := Keeper.convert_in_place_agrees (k := k) (r := r) (e := e) (.clamp 2)
    .cosmosToEvm (ok_of_toOption (by decide +kernel)) (ok_of_toOption (by decide +kernel))
    (by decide +kernel)
  exact ⟨_, _, gives_of_toOption hplace, by decide +kernel, gives_of_toOption hrouted,
    by decide +kernel, hsame _ _ (gives_of_toOption hplace) (gives_of_toOption hrouted)⟩

end DualDenom
