import DualDenom.Proofs.PathIndependence

/-!
# Round trips

What an account moves into an escrow can be moved back, and then every balance
and every supply is what it was (`roundTrip_restores`). The way back takes other
conversions than the way there: the escrow is topped up instead of the account,
and only the account is swept. It leads back because it pays back.
-/

namespace DualDenom

open DualDenom.Action Figures

variable {k : Keeper} {r r' : Recorded Book}

theorem Keeper.moduleToAccount_succeeds (hS : r.ledger.Sound k.config)
    (hm : k.config.multiplier.val ≤ 2 ^ 127)
    (hdust : (r.ledger.balance e k.config.evmDenom).val < k.config.multiplier.val)
    (he : r.ledger.moduleAddress name = .ok e) (hadm : r.ledger.Admits (.account a)) (hne : a ≠ e)
    (hcov : (n.val : Int) ≤ r.ledger.worth k.config e) :
    ∃ r', (k.moduleToAccount Book.ledger.recorded name a [k.config.evmCoin n]).Gives r (.ok ()) r' := by
  obtain ⟨sp, hsp, hn⟩ := k.split_evmCoin n r
  have hpasses := Book.passes_moduleToAccount he hadm hne
  obtain ⟨r', h⟩ := Book.mirrors_recorded.moveSplit_succeeds hS hm hpasses hdust
    (split_remainder hsp) (by
      simp only [Book.worth, Config.worth] at hcov
      rw [← Split.merge_ok.mp hn]
      exact_mod_cast hcov)
  exact ⟨r', gives_bind_ok.mpr ⟨sp, r, hsp, h⟩⟩

/-- A move into an escrow can be taken back, and nothing of it remains. -/
theorem Keeper.roundTrip_restores (hm : k.config.multiplier.val ≤ 2 ^ 127)
    (hminter : r.ledger.addressWith k.config.conversionModule .minter = .ok c)
    (hburner : r.ledger.addressWith k.config.conversionModule .burner = .ok c')
    (hsum : ∀ d, ∑ᶠ x, (r.ledger.balance x d).val = (r.ledger.supply d).val)
    (hvalue : r.ledger.supplyValue k.config = .ok v)
    (hlocked : ∀ x d, (r.ledger.locked x d).val = 0)
    (hdust : ∀ x, (r.ledger.balance x k.config.evmDenom).val < k.config.multiplier.val)
    (he : r.ledger.moduleAddress name = .ok e) (hblocked : r.ledger.checkNotBlocked a = .ok ())
    (hne : a ≠ e)
    (h : (k.accountToModule Book.ledger.recorded a name [k.config.evmCoin n]).Gives r (.ok ()) r') :
    ∃ r'', (k.moduleToAccount Book.ledger.recorded name a [k.config.evmCoin n]).Gives
        r' (.ok ()) r'' ∧
      r.ledger.SameFunds r''.ledger := by
  have hS := Book.sound_of hsum hlocked hvalue hminter hburner
  have htidy : r.ledger.Tidy k.config := ⟨hlocked, hdust⟩
  have hvalued : Coins.evmValue [k.config.evmCoin n] k.config = n.val :=
    Coins.evmValue_eq (Coins.evmAmount_singleton k.evm_wellFormed n)
  have hthere := Book.mirrors_recorded.accountToModule_settles
    (fun e' he' => Except.ok.inj (he'.symm.trans he)) h
  have he' : r'.ledger.moduleAddress name = .ok e := (hthere.settings.moduleAddress name).trans he
  have hadm : r'.ledger.Admits (.account a) :=
    hthere.settings.admits.mpr (Book.checkNotBlocked_ok.mp hblocked)
  have hcov : (n.val : Int) ≤ r'.ledger.worth k.config e := by
    have hnonneg : 0 ≤ r.ledger.worth k.config e :=
      k.config.worth_nonneg fun _ => Int.natCast_nonneg _
    rw [hthere.worth, hvalued, Payment.net, if_pos rfl, if_neg hne.symm, sub_zero]
    exact le_add_of_nonneg_left hnonneg
  obtain ⟨r'', hback⟩ := moduleToAccount_succeeds (hthere.sound hS) hm
    ((hthere.tidy htidy).low e) he' hadm hne hcov
  refine ⟨r'', hback, (Book.Settles.refl k.config r.ledger).sameFunds htidy ?_⟩
  have hreturn := Book.mirrors_recorded.moduleToAccount_settles
    (fun e' h' => Except.ok.inj (h'.symm.trans he')) hback
  refine (hthere.trans hreturn).cast fun x => ?_
  simp only [Payment.net]
  ring

theorem roundTrip_restores_small :
    let k := Keeper.standard
    let L := Book.ledger.recorded
    let r := Recorded.start Book.small
    let cs : Coins := [k.config.evmCoin ⟨1000000000011, by decide⟩]
    ∃ r' r'', (k.accountToModule L "alice" "fee" cs).Gives r (.ok ()) r' ∧
      (k.moduleToAccount L "fee" "alice" cs).Gives r' (.ok ()) r'' ∧
      r.ledger.SameFunds r''.ledger := by
  intro k L r cs
  have hbacked : r.ledger.Backed := by simpa only [r, Recorded.start] using Book.small_backed
  have htidy : r.ledger.Tidy k.config := by
    simpa only [r, Recorded.start] using Book.small_tidy
  have hminter : r.ledger.addressWith k.config.conversionModule .minter = .ok "evm_module_account" :=
    ok_of_toOption (by decide +kernel)
  have hburner : r.ledger.addressWith k.config.conversionModule .burner = .ok "evm_module_account" :=
    ok_of_toOption (by decide +kernel)
  have hsum : ∀ d, ∑ᶠ x, (r.ledger.balance x d).val = (r.ledger.supply d).val := fun d =>
    (Book.finsum_balance ..).trans (hbacked.total d)
  have hvalue : r.ledger.supplyValue k.config = .ok ⟨7999999999993, by decide⟩ :=
    ok_of_toOption (by decide +kernel)
  have he : r.ledger.moduleAddress "fee" = .ok "fee_module_account" :=
    ok_of_toOption (by decide +kernel)
  have hblocked : r.ledger.checkNotBlocked "alice" = .ok () := ok_of_toOption (by decide +kernel)
  obtain ⟨r', hthere⟩ : ∃ r', (k.accountToModule L "alice" "fee" cs).Gives r (.ok ()) r' :=
    ⟨_, gives_of_toOption (by decide +kernel)⟩
  obtain ⟨r'', hback, hsame⟩ := Keeper.roundTrip_restores (k := k) (by decide +kernel) hminter hburner
    hsum hvalue htidy.unlocked htidy.low he hblocked (by decide) hthere
  exact ⟨r', r'', hthere, hback, hsame⟩

end DualDenom
