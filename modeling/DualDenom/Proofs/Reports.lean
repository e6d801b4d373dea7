import DualDenom.Proofs.Courses
import DualDenom.Proofs.Dust

/-!
# What the events say

Calls report nothing. A conversion reports its units when it is through, and a
sweep reports them once more, so the events of a top-up and of a sweep are known
from their answers (`topUp_reports`, `sweepDust_reports`). Escrow moves and
sweeps change supplies by conversions alone. What they report therefore accounts
for the supplies, unit by unit, and tells which units were swept off whom
(`reports_account`).
-/

namespace DualDenom

open DualDenom.Action Figures

-- ---------------------------------------------------------------------------
-- Actions and their events
-- ---------------------------------------------------------------------------

/-- What may become of a state under a success, and what is reported of that. -/
structure Chronicle (σ : Type) where
  Goes : σ → List Event → σ → Prop
  still : ∀ {s}, Goes s [] s
  follows : ∀ {s es t es' u}, Goes s es t → Goes t es' u → Goes s (es ++ es') u

namespace Action

variable {m : Action ε σ α} {C : Chronicle σ}

def Yields (m : Action ε σ α) (s : σ) (a : α) (t : σ) (es : List Event) : Prop :=
  m.run s = ⟨.ok a, t, es⟩

theorem Yields.gives (h : m.Yields s a t es) : m.Gives s (.ok a) t :=
  ⟨congrArg Outcome.answer h, congrArg Outcome.state h⟩

theorem yields_of_toOption (h : (m.run s).answer.toOption = some a) :
    m.Yields s a (m.run s).state (m.run s).events := by
  have hanswer := ok_of_toOption h
  rw [Yields, ← hanswer]

theorem yields_pure : (pure b : Action ε σ α).Yields s a t es ↔ a = b ∧ t = s ∧ es = [] := by
  simp [Yields, eq_comm]

theorem yields_query {f : σ → Except ε α} :
    (query f).Yields s a t es ↔ f s = .ok a ∧ t = s ∧ es = [] := by
  simp [Yields, eq_comm]

theorem yields_report : (report e : Action ε σ Unit).Yields s u t es ↔ t = s ∧ es = [e] := by
  simp [Yields, eq_comm]

theorem yields_bind {f : α → Action ε σ β} : (m >>= f).Yields s b u es ↔
    ∃ a t es₁ es₂, m.Yields s a t es₁ ∧ (f a).Yields t b u es₂ ∧ es = es₁ ++ es₂ := by
  simp only [Yields, run_bind]
  rcases m.run s with ⟨x | a, t, es₁⟩
  · simp
  · constructor
    · intro h
      refine ⟨a, t, es₁, ((f a).run t).events, rfl, ?_, (congrArg Outcome.events h).symm⟩
      have hanswer := congrArg Outcome.answer h
      have hstate := congrArg Outcome.state h
      simp only at hanswer hstate
      rw [← hanswer, ← hstate]
    · rintro ⟨_, _, _, es₂, ⟨⟩, h, rfl⟩
      simp only [h]

theorem yields_mapError {f : ε → ε'} : (m.mapError f).Yields s a t es ↔ m.Yields s a t es := by
  simp only [Yields, run_mapError]
  rcases m.run s with ⟨x | a, t, es₁⟩ <;> simp [Except.mapError]

def Quiet (m : Action ε σ α) : Prop := ∀ s, (m.run s).events = []

theorem Quiet.yields (hm : m.Quiet) (h : m.Yields s a t es) : es = [] :=
  (congrArg Outcome.events h).symm.trans (hm s)

theorem quiet_query {f : σ → Except ε α} : (query f).Quiet := fun _ => rfl

theorem quiet_update {f : σ → Except ε σ} : (update f).Quiet := by
  intro s
  simp only [run, update]
  cases f s <;> rfl

theorem Quiet.bind {f : α → Action ε σ β} (hm : m.Quiet) (hf : ∀ a, (f a).Quiet) :
    (m >>= f).Quiet := by
  intro s
  have hs := hm s
  rw [run_bind]
  generalize m.run s = out at hs
  obtain ⟨x | a, t, es⟩ := out
  · exact hs
  · obtain rfl : es = [] := hs
    exact hf a t

theorem quiet_forM {f : β → Action ε σ PUnit} (bs : List β) (hf : ∀ b, (f b).Quiet) :
    (bs.forM f).Quiet := by
  induction bs with
  | nil => exact fun _ => rfl
  | cons b bs ih => exact (hf b).bind fun _ => ih

def Tells (m : Action ε σ α) (C : Chronicle σ) : Prop :=
  ∀ ⦃s a t es⦄, m.Yields s a t es → C.Goes s es t

theorem tells_pure : (pure a : Action ε σ α).Tells C := by
  intro s b t es h
  obtain ⟨-, rfl, rfl⟩ := yields_pure.mp h
  exact C.still

theorem tells_ofExcept {x : Except ε α} : (ofExcept x : Action ε σ α).Tells C := by
  intro s b t es h
  obtain ⟨-, rfl, rfl⟩ := yields_query.mp h
  exact C.still

theorem Tells.bind {f : α → Action ε σ β} (hm : m.Tells C) (hf : ∀ a, (f a).Tells C) :
    (m >>= f).Tells C := by
  intro s b u es h
  obtain ⟨a, t, es₁, es₂, ha, hb, rfl⟩ := yields_bind.mp h
  exact C.follows (hm ha) (hf a hb)

theorem tells_forM {f : β → Action ε σ PUnit} (bs : List β) (hf : ∀ b, (f b).Tells C) :
    (bs.forM f).Tells C := by
  induction bs with
  | nil => exact tells_pure
  | cons b bs ih => exact (hf b).bind fun _ => ih

end Action

-- ---------------------------------------------------------------------------
-- The events of conversions
-- ---------------------------------------------------------------------------

theorem Book.submit_quiet (cl : Call) : (Book.submit cl).Quiet := by
  rw [Book.submit_eq]
  refine quiet_query.bind fun m => ?_
  rw [Movement.carryOut_eq]
  refine quiet_query.bind fun _ => quiet_forM _ fun c => ?_
  cases m <;> exact quiet_update.bind fun _ => quiet_update

def Config.reportOf (c : Config) (hd : Holder) (units : Amount) (d : Direction) : List Event :=
  if units.isZero then [] else [.converted hd units d c.conversionModule]

namespace Ledger

variable {L : Ledger σ} {c : Config}

def Quiet (L : Ledger σ) : Prop := ∀ cl, (L.submit cl).Quiet

theorem Quiet.call (hL : L.Quiet) (cl : Call) : (L.call cl).Quiet := hL cl

theorem ledgerListing_quiet (listing : Recorded Book → Address → Except LedgerError Coins) :
    (Book.ledgerListing listing).Quiet := fun cl r => Book.submit_quiet cl r.ledger

theorem spendableEvm_reports (h : (L.spendableEvm c hd).Yields s n t es) : es = [] := by
  obtain ⟨a, r, _, _, ha, hn, rfl⟩ := yields_bind.mp h
  obtain ⟨-, -, rfl⟩ := yields_query.mp (yields_mapError.mp ha)
  exact (yields_query.mp (yields_mapError.mp hn)).2.2

theorem convert_reports (hL : L.Quiet) (h : (L.convert c hd units d).Yields s u t es) :
    es = c.reportOf hd units d := by
  unfold convert at h
  unfold Config.reportOf
  split at h
  · rename_i hz
    rw [if_pos hz]
    exact (yields_pure.mp h).2.2
  · rename_i hz
    obtain ⟨evm, _, _, _, hmul, hrest, rfl⟩ := yields_bind.mp h
    obtain ⟨-, -, rfl⟩ := yields_query.mp hmul
    obtain ⟨_, _, _, _, hroute, hreport, rfl⟩ := yields_bind.mp hrest
    -- The calls come first, so there is a report only if all of them succeeded.
    obtain rfl := (quiet_forM _ hL.call).yields hroute
    obtain ⟨-, rfl⟩ := yields_report.mp hreport
    rw [if_neg hz]
    rfl

theorem topUp_reports (hL : L.Quiet) (h : (L.topUp c hd q).Yields s u t es) :
    es = c.reportOf hd u .cosmosToEvm := by
  unfold topUp at h
  split at h
  · obtain ⟨rfl, -, rfl⟩ := yields_pure.mp h
    rfl
  · obtain ⟨n, _, _, _, hn, hrest, rfl⟩ := yields_bind.mp h
    obtain rfl := spendableEvm_reports hn
    split at hrest
    · obtain ⟨rfl, -, rfl⟩ := yields_pure.mp hrest
      rfl
    · obtain ⟨units, _, _, _, hu, hconvert, rfl⟩ := yields_bind.mp hrest
      obtain ⟨-, -, rfl⟩ := yields_query.mp hu
      obtain ⟨_, _, _, _, hc, hp, rfl⟩ := yields_bind.mp hconvert
      obtain ⟨rfl, -, rfl⟩ := yields_pure.mp hp
      rw [convert_reports hL hc, List.append_nil]
      rfl

theorem sweepDust_reports (hL : L.Quiet) (h : (L.sweepDust c hd).Yields s u t es) :
    es = c.reportOf hd u .evmToCosmos ++ if u.isZero then [] else [.swept hd u] := by
  obtain ⟨n, _, _, _, hn, hrest, rfl⟩ := yields_bind.mp h
  obtain rfl := spendableEvm_reports hn
  obtain ⟨units, _, _, _, hu, hconvert, rfl⟩ := yields_bind.mp hrest
  obtain ⟨-, -, rfl⟩ := yields_query.mp hu
  split at hconvert
  · obtain ⟨rfl, -, rfl⟩ := yields_pure.mp hconvert
    rfl
  · rename_i hz
    obtain ⟨_, _, _, _, hc, hreport, rfl⟩ := yields_bind.mp hconvert
    obtain ⟨_, _, _, _, hr, hp, rfl⟩ := yields_bind.mp hreport
    obtain ⟨-, rfl⟩ := yields_report.mp hr
    obtain ⟨rfl, -, rfl⟩ := yields_pure.mp hp
    rw [convert_reports hL hc, if_neg hz]
    rfl

end Ledger

-- ---------------------------------------------------------------------------
-- Accounting for supplies
-- ---------------------------------------------------------------------------

def Event.unitsIn (d : Direction) : Event → Nat
  | .converted _ units d' _ => if d' = d then units.val else 0
  | _ => 0

def Event.back? : Event → Option (Holder × Amount)
  | .converted hd units .evmToCosmos _ => some (hd, units)
  | _ => none

def Event.swept? : Event → Option (Holder × Amount)
  | .swept hd units => some (hd, units)
  | _ => none

def convertedUnits (d : Direction) (es : List Event) : Nat := (es.map (Event.unitsIn d)).sum

theorem convertedUnits_append (d : Direction) (es es' : List Event) :
    convertedUnits d (es ++ es') = convertedUnits d es + convertedUnits d es' := by
  rw [convertedUnits, List.map_append, List.sum_append]
  rfl

theorem convertedUnits_reportOf (c : Config) (hd : Holder) (units : Amount) (d d' : Direction) :
    convertedUnits d' (c.reportOf hd units d) = if d = d' then units.val else 0 := by
  unfold Config.reportOf
  split
  · rename_i hz
    rw [Amount.isZero_iff.mp hz, ite_self]
    rfl
  · exact Nat.add_zero _

namespace Book

variable {b b' b'' : Book} {c : Config} {es es' : List Event}

/-- The events tell how the supplies of the two denoms changed, and what was converted back was
swept. -/
structure Accounts (c : Config) (es : List Event) (b b' : Book) : Prop where
  cosmos : ((b'.supply c.cosmosDenom).val : Int) = (b.supply c.cosmosDenom).val +
    ((convertedUnits .evmToCosmos es : Int) - convertedUnits .cosmosToEvm es)
  evm : ((b'.supply c.evmDenom).val : Int) = (b.supply c.evmDenom).val +
    c.multiplier.val * ((convertedUnits .cosmosToEvm es : Int) - convertedUnits .evmToCosmos es)
  swept : es.filterMap Event.swept? = es.filterMap Event.back?

theorem Accounts.refl (c : Config) (b : Book) : b.Accounts c [] b := by
  constructor <;> simp [convertedUnits]

theorem Accounts.trans (h : b.Accounts c es b') (h' : b'.Accounts c es' b'') :
    b.Accounts c (es ++ es') b'' where
  cosmos := by
    rw [h'.cosmos, h.cosmos, convertedUnits_append, convertedUnits_append]
    push_cast
    ring
  evm := by
    rw [h'.evm, h.evm, convertedUnits_append, convertedUnits_append]
    push_cast
    ring
  swept := by rw [List.filterMap_append, List.filterMap_append, h.swept, h'.swept]

def accounting (c : Config) (book : σ → Book) : Chronicle σ where
  Goes s es t := (book s).Accounts c es (book t)
  still := .refl c _
  follows := .trans

theorem Posted.accounts (hp : b.Posted f b') (hne : c.evmDenom ≠ c.cosmosDenom) {units : Int}
    (hf : ∀ d, f.supply d = c.rate units d)
    (hunits : units = (convertedUnits .cosmosToEvm es : Int) - convertedUnits .evmToCosmos es)
    (hswept : es.filterMap Event.swept? = es.filterMap Event.back?) : b.Accounts c es b' where
  cosmos := by
    rw [hp.supply, hf, c.rate_cosmos hne, hunits]
    ring
  evm := by
    rw [hp.supply, hf, c.rate_evm hne, hunits]
    ring
  swept := hswept

end Book

namespace Ledger.Carries

variable {L : Ledger σ} {book : σ → Book} {c : Config} {cl : Call}

theorem call_tells (hL : L.Carries book) (hq : L.Quiet) (hne : c.evmDenom ≠ c.cosmosDenom)
    (hmint : cl.isMint = false) (hburn : cl.isBurn = false) :
    (L.call cl).Tells (Book.accounting c book) := by
  intro s u t es h
  obtain rfl := (hq.call cl).yields h
  obtain ⟨m, hm, hp⟩ := hL.call_ok h.gives
  obtain ⟨x, y, rfl⟩ := Book.movement_transfers hm hmint hburn
  have hrate : ∀ d, ((Movement.transfer x y).figures cl.coins).supply d = c.rate 0 d := by
    simp [Movement.supply_figures, Movement.source?, Movement.target?]
  exact hp.accounts hne hrate rfl rfl

theorem topUp_tells (hL : L.Carries book) (hq : L.Quiet) (hne : c.evmDenom ≠ c.cosmosDenom)
    (hd : Holder) (n : Amount) : (L.topUp c hd n).Tells (Book.accounting c book) := by
  intro s u t es h
  obtain ⟨a, -, hp⟩ := hL.topUp_posted h.gives
  obtain rfl := topUp_reports hq h
  refine hp.accounts hne (fun _ => rfl) (by simp [convertedUnits_reportOf]) ?_
  unfold Config.reportOf
  split <;> rfl

theorem sweepDust_tells (hL : L.Carries book) (hq : L.Quiet) (hne : c.evmDenom ≠ c.cosmosDenom)
    (hd : Holder) : (L.sweepDust c hd).Tells (Book.accounting c book) := by
  intro s u t es h
  obtain ⟨a, -, hp⟩ := hL.sweepDust_posted h.gives
  obtain rfl := sweepDust_reports hq h
  refine hp.accounts hne (fun _ => rfl) ?_ ?_
  · have hnone : ∀ d, convertedUnits d (if u.isZero then [] else [.swept hd u]) = 0 := by
      intro d
      split <;> rfl
    simp only [convertedUnits_append, convertedUnits_reportOf, hnone]
    simp
  · unfold Config.reportOf
    split <;> rfl

end Ledger.Carries

-- ---------------------------------------------------------------------------
-- Requests
-- ---------------------------------------------------------------------------

namespace Keeper

variable {k : Keeper} {L : Ledger σ} {book : σ → Book} {f : Coins → Call}

theorem split_tells : (k.split cs : Bridge σ Split).Tells (Book.accounting c book) := by
  refine tells_ofExcept.bind fun n => tells_ofExcept.bind fun sp => Tells.bind ?_ fun _ => tells_pure
  intro s u t es h
  obtain ⟨rfl, rfl⟩ := yields_report.mp h
  exact ⟨by simp [convertedUnits, Event.unitsIn], by simp [convertedUnits, Event.unitsIn], rfl⟩

theorem callUnlessZero_tells (h : ∀ cs, (L.call (f cs)).Tells C) :
    (callUnlessZero L c f).Tells C := by
  unfold callUnlessZero
  split
  · exact tells_pure
  · exact h _

theorem moveSplit_tells (hL : L.Carries book) (hq : L.Quiet) (sp : Split) (source : Holder)
    (swept : List Holder) (hmint : ∀ cs, (f cs).isMint = false)
    (hburn : ∀ cs, (f cs).isBurn = false) :
    (k.moveSplit L sp source swept f).Tells (Book.accounting k.config book) := by
  have hne := k.evm_ne_cosmos
  have hcall : ∀ cs, (L.call (f cs)).Tells (Book.accounting k.config book) := fun cs =>
    hL.call_tells hq hne (hmint cs) (hburn cs)
  unfold moveSplit
  refine (callUnlessZero_tells hcall).bind fun _ => ?_
  split
  · exact tells_pure
  · refine (hL.topUp_tells hq hne source _).bind fun _ => (hcall _).bind fun _ => ?_
    exact tells_forM _ fun hd => (hL.sweepDust_tells hq hne hd).bind fun _ => tells_pure

theorem perform_tells (hL : L.Carries book) (hq : L.Quiet) {q : KeeperRequest}
    (hmove : (Operation.keeper q).isEscrowMove = true) :
    (k.perform L q).Tells (Book.accounting k.config book) := by
  cases q with
  | accountToModule a name cs =>
    exact (split_tells.bind fun sp => moveSplit_tells hL hq sp _ _ (fun _ => rfl) fun _ => rfl).bind
      fun _ => tells_pure
  | moduleToAccount name a cs =>
    exact (split_tells.bind fun sp => moveSplit_tells hL hq sp _ _ (fun _ => rfl) fun _ => rfl).bind
      fun _ => tells_pure
  | sweep hd => exact (hL.sweepDust_tells hq k.evm_ne_cosmos hd).bind fun _ => tells_pure
  | _ => cases hmove

/-- The supplies change by what the events of an escrow move or a sweep say was converted, and
what they say was converted back is what they say was swept. -/
theorem reports_account (k : Keeper) {listing : Recorded Book → Address → Except LedgerError Coins}
    {q : KeeperRequest} {r r' : Recorded Book} {es : List Event}
    (hmove : (Operation.keeper q).isEscrowMove = true)
    (h : (k.perform (Book.ledgerListing listing) q).run r = ⟨.ok reply, r', es⟩) :
    let C : Int := convertedUnits .cosmosToEvm es
    let E : Int := convertedUnits .evmToCosmos es
    ((r'.ledger.supply k.config.cosmosDenom).val : Int) =
      (r.ledger.supply k.config.cosmosDenom).val + (E - C) ∧
    ((r'.ledger.supply k.config.evmDenom).val : Int) =
      (r.ledger.supply k.config.evmDenom).val + k.config.multiplier.val * (C - E) ∧
    es.filterMap Event.swept? = es.filterMap Event.back? := by
  have haccounts : r.ledger.Accounts k.config es r'.ledger :=
    perform_tells (Book.carries_ledgerListing listing) (Ledger.ledgerListing_quiet listing) hmove h
  exact ⟨haccounts.cosmos, haccounts.evm, haccounts.swept⟩

theorem reports_account_small :
    let k := Keeper.standard
    let L := Book.ledgerListing Book.ledger.recorded.spendableCoins
    ∃ r r' es, (k.perform L (.accountToModule "alice" "fee" [⟨"aorai", .clamp 10⟩])).run r =
        ⟨.ok .done, r', es⟩ ∧
      es = [.split (.clamp 10) .zero (.clamp 10),
        .converted (.account "alice") .one .cosmosToEvm "evm",
        .converted (.escrow "fee") (.clamp 3) .evmToCosmos "evm", .swept (.escrow "fee") (.clamp 3)] ∧
      (r'.ledger.supply k.config.cosmosDenom).val = (r.ledger.supply k.config.cosmosDenom).val + 2 ∧
      (r'.ledger.supply k.config.evmDenom).val + k.config.multiplier.val * 2 =
        (r.ledger.supply k.config.evmDenom).val := by
  intro k L
  let dust : Coins := [⟨"aorai", .clamp 2000000000000⟩]
  obtain ⟨r, r', es, h, hes⟩ : ∃ r r' es,
      (k.perform L (.accountToModule "alice" "fee" [⟨"aorai", .clamp 10⟩])).Yields r .done r' es ∧
      es = [.split (.clamp 10) .zero (.clamp 10),
        .converted (.account "alice") .one .cosmosToEvm "evm",
        .converted (.escrow "fee") (.clamp 3) .evmToCosmos "evm",
        .swept (.escrow "fee") (.clamp 3)] :=
    ⟨.start ((Book.fund "fee_module_account" dust).run Book.small).state, _, _,
      yields_of_toOption (by decide +kernel), by decide +kernel⟩
  have hC : convertedUnits .cosmosToEvm es = 1 := by
    rw [hes]
    decide
  have hE : convertedUnits .evmToCosmos es = 3 := by
    rw [hes]
    decide
  obtain ⟨hcosmos, hevm, -⟩ := reports_account k rfl h
  rw [hC, hE] at hcosmos hevm
  exact ⟨r, r', es, h, hes, by omega, by omega⟩

end Keeper

end DualDenom
