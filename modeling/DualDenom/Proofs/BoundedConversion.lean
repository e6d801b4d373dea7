import DualDenom.Proofs.Dust
import DualDenom.Proofs.Traces

/-!
# Bounded conversion

A move with an escrow turns one cosmos unit at most into evm units, whatever the
ledger answers and however the move ends. It does so only for a remainder that
its source is said to lack, and always for such a one when it succeeds
(`ConvertsAsNeeded`). Sweeps go the other way. An account that was topped up has
less than a unit left, so that on a book its sweep finds nothing to turn back:
all calls of such a move are known (`toppedUpCalls`). Both are stated together in
`escrow_moves_convert_once`.
-/

namespace DualDenom

open DualDenom.Action Figures

-- ---------------------------------------------------------------------------
-- Calls that make evm units
-- ---------------------------------------------------------------------------

namespace Config

variable {c : Config} {units evm : Amount} {calls : List Call}

def makesEvm (c : Config) : Call → Bool
  | .burn _ cs => cs.any fun coin => coin.denom = c.cosmosDenom
  | .mint _ cs => cs.any fun coin => coin.denom = c.evmDenom
  | _ => false

def oneUnit (c : Config) : List Call :=
  [.burn c.conversionModule [c.cosmosCoin .one], .mint c.conversionModule [c.evmCoin c.multiplier]]

theorem makesEvm_deposit (c : Config) (hd : Holder) :
    c.makesEvm (hd.deposit name cs) = false := by
  cases hd <;> rfl

theorem makesEvm_withdraw (c : Config) (hd : Holder) :
    c.makesEvm (hd.withdraw name cs) = false := by
  cases hd <;> rfl

/-- Of the route of one unit only the exchange makes evm units. -/
theorem filter_route (hd : Holder) (he : evm.val = Amount.one.val * c.multiplier.val) :
    (c.route hd .one evm .cosmosToEvm).filter c.makesEvm = c.oneUnit := by
  obtain rfl : evm = c.multiplier := Amount.ext (he.trans (Nat.one_mul _))
  have hexchange : c.oneUnit.filter c.makesEvm = c.oneUnit := by
    simp [oneUnit, makesEvm, cosmosCoin, evmCoin]
  unfold route
  split
  · exact hexchange
  · show List.filter c.makesEvm (hd.deposit _ _ :: c.oneUnit ++ [hd.withdraw _ _]) = c.oneUnit
    simp only [List.cons_append, List.filter_cons, List.filter_append, List.filter_nil, hexchange,
      makesEvm_deposit, makesEvm_withdraw, Bool.false_eq_true, if_false, List.append_nil]

theorem makesEvm_route (hne : c.evmDenom ≠ c.cosmosDenom)
    (h : cl ∈ c.route hd units evm .evmToCosmos) : c.makesEvm cl = false := by
  have hburn : c.makesEvm (.burn c.conversionModule [c.evmCoin evm]) = false := by
    simp [makesEvm, evmCoin, hne]
  have hmint : c.makesEvm (.mint c.conversionModule [c.cosmosCoin units]) = false := by
    simp [makesEvm, cosmosCoin, hne.symm]
  unfold route at h
  split at h
  · simp only [List.mem_cons, List.not_mem_nil, or_false] at h
    rcases h with rfl | rfl
    · exact hburn
    · exact hmint
  · simp only [List.cons_append, List.nil_append, List.mem_cons, List.not_mem_nil, or_false] at h
    rcases h with rfl | rfl | rfl | rfl
    · exact c.makesEvm_deposit hd
    · exact hburn
    · exact hmint
    · exact c.makesEvm_withdraw hd

/-- The calls make evm units of one cosmos unit at most, and of none without need. When all was
done that was needed, they make them of one. -/
structure ConvertsOnce (c : Config) (need done : Prop) (calls : List Call) : Prop where
  made : calls.filter c.makesEvm <+: c.oneUnit
  needed : calls.filter c.makesEvm ≠ [] → need
  served : done → need → calls.filter c.makesEvm = c.oneUnit

theorem filter_makesEvm (h : ∀ cl ∈ calls, c.makesEvm cl = false) : calls.filter c.makesEvm = [] :=
  List.filter_eq_nil_iff.mpr fun cl hcl => by simp [h cl hcl]

theorem ConvertsOnce.of_none (h : ∀ cl ∈ calls, c.makesEvm cl = false) (hidle : done → ¬need) :
    c.ConvertsOnce need done calls where
  made := filter_makesEvm h ▸ List.nil_prefix
  needed hne := absurd (filter_makesEvm h) hne
  served hdone hneed := absurd hneed (hidle hdone)

theorem ConvertsOnce.cast (h : c.ConvertsOnce need done calls) (hneed : need ↔ need')
    (hdone : done' → done) : c.ConvertsOnce need' done' calls where
  made := h.made
  needed hne := hneed.mp (h.needed hne)
  served hd hn := h.served (hdone hd) (hneed.mpr hn)

theorem ConvertsOnce.among (h : c.ConvertsOnce need done calls)
    (hbefore : ∀ cl ∈ before, c.makesEvm cl = false)
    (hafter : ∀ cl ∈ after, c.makesEvm cl = false) :
    c.ConvertsOnce need done (before ++ (calls ++ after)) := by
  have hfilter : (before ++ (calls ++ after)).filter c.makesEvm = calls.filter c.makesEvm := by
    rw [List.filter_append, List.filter_append, filter_makesEvm hbefore, filter_makesEvm hafter,
      List.nil_append, List.append_nil]
  exact ⟨hfilter ▸ h.made, hfilter ▸ h.needed, hfilter ▸ h.served⟩

def makingNone (c : Config) : Course ε (Recorded σ) :=
  (Ledger.making fun cl => c.makesEvm cl = false).of Recorded.calls

end Config

def Amount.unlessZero (n : Amount) (calls : List Call) : List Call := if n.isZero then [] else calls

theorem Amount.unlessZero_zero {n : Amount} (hn : n.val = 0) : n.unlessZero calls = [] :=
  if_pos (isZero_iff.mpr hn)

theorem Amount.unlessZero_some {n : Amount} (hn : n.val ≠ 0) : n.unlessZero calls = calls :=
  if_neg fun hz => hn (isZero_iff.mp hz)

-- ---------------------------------------------------------------------------
-- Any ledger
-- ---------------------------------------------------------------------------

namespace Ledger

variable {L : Ledger σ} {c : Config} {hd : Holder} {q : Amount}

theorem spendableEvm_state (h : (L.spendableEvm c hd).Gives s x t) : t = s := by
  let still : Course BridgeError σ := .always (fun s t => t = s) (fun _ => rfl)
    fun _ _ _ h h' => h'.trans h
  exact spendableEvm_takes (C := still) h

theorem topUp_gives (hq : q.val < c.multiplier.val) (h : (L.topUp c hd q).Gives s x t) : t = s ∨
    ∃ n, (L.spendableEvm c hd).Gives s (.ok n) s ∧ n.val < q.val ∧
      ∃ y, (L.convert c hd .one .cosmosToEvm).Gives s y t := by
  unfold topUp at h
  split at h
  · exact .inl (gives_pure.mp h).2
  rcases gives_bind.mp h with ⟨e, hn, -⟩ | ⟨n, r, hn, hrest⟩
  · exact .inl (spendableEvm_state hn)
  obtain rfl := spendableEvm_state hn
  split at hrest
  · exact .inl (gives_pure.mp hrest).2
  · rename_i hgt
    have hlt := Nat.not_le.mp hgt
    rcases gives_bind.mp hrest with ⟨e, hfor, -⟩ | ⟨u, r', hfor, hrest⟩
    · exact .inl (gives_ofExcept.mp hfor).2
    · obtain ⟨hu, rfl⟩ := gives_ofExcept.mp hfor
      obtain rfl : u = .one := Amount.ext (Config.unitsFor_small hu hq hlt)
      refine .inr ⟨n, hn, hlt, ?_⟩
      rcases gives_bind.mp hrest with ⟨e, hc, -⟩ | ⟨_, _, hc, hp⟩
      · exact ⟨_, hc⟩
      · obtain ⟨-, rfl⟩ := gives_pure.mp hp
        exact ⟨_, hc⟩

theorem recorded_call (h : (L.recorded.call cl).Gives r x r') : r'.calls = r.calls ++ [cl] := by
  obtain ⟨-, rfl⟩ := h
  rfl

theorem recorded_forM (h : (cls.forM L.recorded.call).Gives r x r') :
    ∃ calls, r'.calls = r.calls ++ calls ∧ calls <+: cls ∧ (x = .ok () → calls = cls) := by
  induction cls generalizing r with
  | nil =>
    obtain ⟨rfl, rfl⟩ := gives_forM_nil.mp h
    exact ⟨[], (List.append_nil _).symm, List.prefix_rfl, fun _ => rfl⟩
  | cons cl cls ih =>
    rcases gives_bind.mp h with ⟨e, hcl, rfl⟩ | ⟨_, t, hcl, hrest⟩
    · exact ⟨[cl], recorded_call hcl, ⟨cls, rfl⟩, nofun⟩
    · obtain ⟨calls, hcalls, hprefix, hall⟩ := ih hrest
      refine ⟨cl :: calls, ?_, (List.prefix_cons_inj cl).mpr hprefix, fun hx => hall hx ▸ rfl⟩
      rw [hcalls, recorded_call hcl, List.append_assoc, List.singleton_append]

theorem recorded_callUnlessZero
    (h : (Keeper.callUnlessZero L.recorded coin f).Gives r (.ok ()) r') :
    r'.calls = r.calls ++ coin.amount.unlessZero [f [coin]] := by
  rcases Keeper.callUnlessZero_ok.mp h with ⟨hz, rfl⟩ | ⟨hne, h⟩
  · rw [Amount.unlessZero_zero hz, List.append_nil]
  · rw [Amount.unlessZero_some hne, recorded_call h]

theorem recorded_convert (h : (L.recorded.convert c hd units d).Gives r (.ok ()) r') :
    ∃ evm : Amount, evm.val = units.val * c.multiplier.val ∧
      r'.calls = r.calls ++ units.unlessZero (c.route hd units evm d) := by
  rcases convert_ok.mp h with ⟨hz, rfl⟩ | ⟨hne, evm, he, hroute⟩
  · refine ⟨.zero, ?_, ?_⟩
    · rw [hz, Nat.zero_mul, Amount.val_zero]
    · rw [Amount.unlessZero_zero hz, List.append_nil]
  · obtain ⟨calls, hcalls, -, hall⟩ := recorded_forM hroute
    refine ⟨evm, he, ?_⟩
    rw [Amount.unlessZero_some hne, ← hall rfl, hcalls]

theorem recorded_sweepDust (h : (L.recorded.sweepDust c hd).Gives r (.ok units) r') :
    ∃ evm : Amount, evm.val = units.val * c.multiplier.val ∧
      r'.calls = r.calls ++ units.unlessZero (c.route hd units evm .evmToCosmos) := by
  obtain ⟨n, -, -, hc⟩ := sweepDust_ok.mp h
  exact recorded_convert hc

theorem recorded_topUp_short (hq : q.val < c.multiplier.val)
    (hn : (L.recorded.spendableEvm c hd).Gives r (.ok n) r) (hlt : n.val < q.val)
    (h : (L.recorded.topUp c hd q).Gives r (.ok u) r') :
    r'.calls = r.calls ++ c.route hd .one c.multiplier .cosmosToEvm := by
  rcases topUp_ok.mp h with ⟨hz, -⟩ | ⟨-, n', hn', ⟨hle, -⟩ | ⟨hlt', hu, hc⟩⟩
  · omega
  · obtain rfl : n = n' := Except.ok.inj (hn.unique hn').1
    omega
  · obtain rfl : u = .one := Amount.ext (Config.unitsFor_small hu hq hlt')
    obtain ⟨evm, he, hroute⟩ := recorded_convert hc
    obtain rfl : evm = c.multiplier := Amount.ext (he.trans (Nat.one_mul _))
    exact hroute

theorem recorded_topUp (hq : q.val < c.multiplier.val)
    (h : (L.recorded.topUp c hd q).Gives r x r') :
    ∃ calls, r'.calls = r.calls ++ calls ∧ c.ConvertsOnce
      (∃ n, (L.recorded.spendableEvm c hd).Gives r (.ok n) r ∧ n.val < q.val) (∃ u, x = .ok u)
      calls := by
  have hroute : ∀ {evm : Amount}, evm.val = Amount.one.val * c.multiplier.val →
      (c.route hd .one evm .cosmosToEvm).filter c.makesEvm = c.oneUnit := Config.filter_route hd
  obtain ⟨calls, hcalls, hmade, hneeded⟩ : ∃ calls, r'.calls = r.calls ++ calls ∧
      calls.filter c.makesEvm <+: c.oneUnit ∧ (calls.filter c.makesEvm ≠ [] →
        ∃ n, (L.recorded.spendableEvm c hd).Gives r (.ok n) r ∧ n.val < q.val) := by
    rcases topUp_gives hq h with rfl | ⟨n, hn, hlt, y, hc⟩
    · exact ⟨[], (List.append_nil _).symm, List.nil_prefix, fun hne => absurd rfl hne⟩
    rcases convert_gives hc with rfl | ⟨evm, he, y', hgives⟩
    · exact ⟨[], (List.append_nil _).symm, List.nil_prefix, fun hne => absurd rfl hne⟩
    · obtain ⟨calls, hcalls, hprefix, -⟩ := recorded_forM hgives
      exact ⟨calls, hcalls, hroute he ▸ hprefix.filter _, fun _ => ⟨n, hn, hlt⟩⟩
  refine ⟨calls, hcalls, hmade, hneeded, ?_⟩
  rintro ⟨u, rfl⟩ ⟨n, hn, hlt⟩
  have hall := recorded_topUp_short hq hn hlt h
  rw [hcalls, List.append_cancel_left_eq] at hall
  rw [hall, hroute (Nat.one_mul _).symm]

theorem sweepDust_takes_makingNone (L : Ledger σ) (hne : c.evmDenom ≠ c.cosmosDenom) (hd : Holder) :
    (L.recorded.sweepDust c hd).Takes c.makingNone :=
  sweepDust_takes fun _ => convert_takes fun _ _ _ => takes_forM fun _ hcl =>
    L.recorded_takes_making (Config.makesEvm_route hne hcl)

end Ledger

namespace Keeper

variable {k : Keeper} {L : Ledger σ} {f : Coins → Call} {sp : Split} {source : Holder}

/-- After the whole leg the source is said to have less than the remainder. -/
def Lacks (k : Keeper) (L : Ledger σ) (source : Holder) (f : Coins → Call) (sp : Split) (s : σ) :
    Prop :=
  ∃ t n, (callUnlessZero L (k.config.wholeCoin sp) f).Gives s (.ok ()) t ∧
    (L.spendableEvm k.config source).Gives t (.ok n) t ∧ n.val < sp.remainder.val

def NeedsUnit (k : Keeper) (L : Ledger σ) (source : Holder) (f : Coins → Call) (cs : Coins)
    (s : σ) : Prop :=
  ∃ sp, (k.split cs).Gives s (.ok sp) s ∧ k.Lacks L source f sp s

/-- A move from `source` by the calls `f` converts one unit at most, and as it is needed. -/
def ConvertsAsNeeded (k : Keeper) (L : Ledger σ) (q : KeeperRequest) (source : Holder)
    (f : Coins → Call) (cs : Coins) (s : σ) : Prop :=
  let out := (k.perform L.recorded q).run (.start s)
  k.config.ConvertsOnce (k.NeedsUnit L source f cs s) (out.answer = .ok .done) out.state.calls

theorem lacks_recorded (hf : ∀ cs, (f cs).coins = cs) :
    k.Lacks L.recorded source f sp r ↔ k.Lacks L source f sp r.ledger := by
  have hwhole : Action.Shadows Recorded.ledger
      (callUnlessZero L.recorded (k.config.wholeCoin sp) f)
      (callUnlessZero L (k.config.wholeCoin sp) f) :=
    L.recorded_shadows.isProgram (callUnlessZero_isProgram (c := k.config) (.inr rfl) hf)
  have hspendable : Action.Shadows Recorded.ledger (L.recorded.spendableEvm k.config source)
      (L.spendableEvm k.config source) :=
    L.recorded_shadows.isProgram (Ledger.spendableEvm_isProgram k.config source)
  constructor
  · rintro ⟨t, n, hw, hn, hlt⟩
    exact ⟨t.ledger, n, hwhole.gives hw, hspendable.gives hn, hlt⟩
  · rintro ⟨_, n, hw, hn, hlt⟩
    obtain ⟨t, hw', rfl⟩ := hwhole.lift hw
    obtain ⟨t', hn', -⟩ := hspendable.lift hn
    obtain rfl := Ledger.spendableEvm_state hn'
    exact ⟨t', n, hw', hn', hlt⟩

theorem recorded_moveSplit (hf : ∀ cs, k.config.makesEvm (f cs) = false)
    (hq : sp.remainder.val < k.config.multiplier.val)
    (h : (k.moveSplit L.recorded sp source swept f).Gives r x r') :
    ∃ calls, r'.calls = r.calls ++ calls ∧
      k.config.ConvertsOnce (k.Lacks L.recorded source f sp r) (x = .ok ()) calls := by
  have hleg : ∀ cs, (L.recorded.call (f cs)).Takes (k.config.makingNone (ε := BridgeError)) :=
    fun cs => L.recorded_takes_making (hf cs)
  rcases gives_bind.mp h with ⟨e, hw, rfl⟩ | ⟨_, t, hw, hrest⟩
  · obtain ⟨calls, hcalls, hnone⟩ := callUnlessZero_takes hleg hw
    exact ⟨calls, hcalls, .of_none hnone nofun⟩
  obtain ⟨before, hbefore, hnone⟩ := callUnlessZero_takes hleg hw
  split at hrest
  · rename_i hz
    obtain ⟨-, rfl⟩ := gives_pure.mp hrest
    have hz := Amount.isZero_iff.mp hz
    exact ⟨before, hbefore, .of_none hnone fun _ ⟨_, _, _, _, hlt⟩ => by omega⟩
  · obtain ⟨y, p, htop, hdone, e, after, hafter, hquiet⟩ :=
      gives_bind_takes (C := k.config.makingNone) (fun _ => (hleg _).bind fun _ =>
        takes_forM fun hd _ => (L.sweepDust_takes_makingNone k.evm_ne_cosmos hd).bind fun _ =>
          takes_pure) hrest
    obtain ⟨calls, hcalls, honce⟩ := Ledger.recorded_topUp hq htop
    have hneed : (∃ n, (L.recorded.spendableEvm k.config source).Gives t (.ok n) t ∧
        n.val < sp.remainder.val) ↔ k.Lacks L.recorded source f sp r := by
      constructor
      · rintro ⟨n, hn, hlt⟩
        exact ⟨t, n, hw, hn, hlt⟩
      · rintro ⟨t', n, hw', hn, hlt⟩
        obtain ⟨-, rfl⟩ := hw.unique hw'
        exact ⟨n, hn, hlt⟩
    refine ⟨before ++ (calls ++ after), ?_, (honce.cast hneed (hdone ())).among hnone hquiet⟩
    rw [show r'.calls = p.calls ++ after from hafter, hcalls,
      show t.calls = r.calls ++ before from hbefore, List.append_assoc, List.append_assoc]

theorem recorded_move (hf : ∀ cs, k.config.makesEvm (f cs) = false) (hcs : ∀ cs, (f cs).coins = cs)
    (h : Gives (do let sp ← k.split cs; k.moveSplit L.recorded sp source swept f) (.start s) x r) :
    k.config.ConvertsOnce (k.NeedsUnit L source f cs s) (x = .ok ()) r.calls := by
  rcases gives_bind.mp h with ⟨e, hsp, rfl⟩ | ⟨sp, t, hsp, hmove⟩
  · obtain ⟨calls, hcalls, hnone⟩ := split_takes (C := k.config.makingNone) hsp
    exact (show r.calls = calls from hcalls) ▸ .of_none hnone nofun
  obtain ⟨rfl, hn⟩ := split_ok.mp hsp
  have hsp : (k.split cs).Gives s (.ok sp) s := split_ok.mpr ⟨rfl, hn⟩
  obtain ⟨calls, hcalls, honce⟩ := recorded_moveSplit hf (split_remainder hsp) hmove
  rw [show r.calls = calls from hcalls]
  refine honce.cast ((lacks_recorded hcs).trans ⟨fun hlacks => ⟨sp, hsp, hlacks⟩, ?_⟩) id
  rintro ⟨sp', hsp', hlacks⟩
  obtain rfl : sp = sp' := Except.ok.inj (hsp.unique hsp').1
  exact hlacks

theorem convertsAsNeeded_of_move (hf : ∀ cs, k.config.makesEvm (f cs) = false)
    (hcs : ∀ cs, (f cs).coins = cs) (hq : k.perform L.recorded q =
      Action.thenDone do let sp ← k.split cs; k.moveSplit L.recorded sp source swept f) (s : σ) :
    k.ConvertsAsNeeded L q source f cs s := by
  unfold ConvertsAsNeeded
  rw [hq]
  dsimp only
  rw [thenDone_state]
  refine (recorded_move hf hcs (gives_run _ _)).cast Iff.rfl fun hdone => ?_
  exact (gives_thenDone_ok.mp ⟨hdone, rfl⟩).1.1

end Keeper

-- ---------------------------------------------------------------------------
-- Books
-- ---------------------------------------------------------------------------

namespace Ledger

variable {L : Ledger σ} {c : Config} {hd : Holder}

namespace Mirrors

variable {book : σ → Book} {k : Keeper} {sp : Split}

theorem sweepDust_idle (hL : L.Mirrors book) (ha : (book s).addressOf hd = .ok a)
    (hlow : ((book s).spendable a c.evmDenom).val < c.multiplier.val)
    (h : (L.sweepDust c hd).Gives s (.ok u) t) : t = s := by
  have hnone : (book s).dustUnits c a = 0 := Nat.div_eq_of_lt hlow
  exact (h.unique (hL.sweepDust_none (by omega) ha hnone)).2

theorem toppedUp_low (hL : L.Mirrors book) (he : (book s).moduleAddress name = .ok e) (hne : a ≠ e)
    (hq : sp.remainder.val < k.config.multiplier.val)
    (hw : (Keeper.callUnlessZero L (k.config.wholeCoin sp) (.accountToModule a name)).Gives
      s (.ok ()) t)
    (hn : (L.spendableEvm k.config (.account a)).Gives t (.ok n) t) (hlt : n.val < sp.remainder.val)
    (htop : (L.topUp k.config (.account a) sp.remainder).Gives t (.ok u) p)
    (hleg : (L.call (.accountToModule a name [k.config.remainderCoin sp])).Gives p (.ok ()) v) :
    ((book v).spendable a k.config.evmDenom).val < k.config.multiplier.val := by
  have he' : ∀ e', (book s).moduleAddress name = .ok e' → e' = e := fun _ h =>
    Except.ok.inj (h.symm.trans he)
  have hpw := hL.carries.callUnlessZero_posted (fun _ => rfl) (fun _ _ => Book.movement_into he') hw
  obtain ⟨_, -, hpt⟩ := hL.carries.topUp_posted htop
  obtain ⟨m, hm, hpc⟩ := hL.carries.call_ok hleg
  rw [Book.movement_congr (hpw.settings.trans hpt.settings)] at hm
  obtain rfl := Book.movement_into he' hm
  rw [Call.coins, Movement.figures_singleton] at hpc
  obtain rfl := hL.spendableEvm_eq (Book.addressOf_account _) hn
  exact hL.sender_low hq rfl htop hpc hne (hlt.trans hq)

end Mirrors

end Ledger

namespace Keeper

variable {k : Keeper} {r r' : Recorded Book}

/-- The calls of a move into an escrow when one unit is converted for the sender: both legs, and a
sweep of the escrow, but none of the sender. -/
def toppedUpCalls (k : Keeper) (a : Address) (name : ModuleName) (sp : Split) (units evm : Amount) :
    List Call :=
  sp.whole.unlessZero [.accountToModule a name [k.config.wholeCoin sp]] ++
    k.config.route (.account a) .one k.config.multiplier .cosmosToEvm ++
    .accountToModule a name [k.config.remainderCoin sp] ::
    units.unlessZero (k.config.route (.escrow name) units evm .evmToCosmos)

theorem accountToModule_toppedUp (he : b.moduleAddress name = .ok e) (hne : a ≠ e)
    (h : (k.accountToModule Book.ledger.recorded a name cs).Gives (.start b) (.ok ()) r')
    (hmade : r'.calls.filter k.config.makesEvm ≠ []) :
    ∃ (sp : Split) (units evm : Amount), (k.split cs).Gives b (.ok sp) b ∧
      evm.val = units.val * k.config.multiplier.val ∧
      r'.calls = k.toppedUpCalls a name sp units evm := by
  have hL := Book.mirrors_recorded
  obtain ⟨sp, r, hsp, hmove⟩ := gives_bind_ok.mp h
  obtain ⟨rfl, hn⟩ := split_ok.mp hsp
  have hq := split_remainder hsp
  obtain ⟨calls, hcalls, honce⟩ := recorded_moveSplit (fun _ => rfl) hq hmove
  obtain rfl : r'.calls = calls := hcalls
  obtain ⟨t, n, hw, hspend, hlt⟩ := honce.needed hmade
  obtain ⟨t', hw', ⟨hz, -⟩ | ⟨-, u, p, v, htop, hleg, hsweeps⟩⟩ := moveSplit_ok.mp hmove
  · omega
  obtain ⟨-, rfl⟩ := hw.unique hw'
  obtain ⟨_, hown, hsweeps⟩ := gives_forM_cons_ok.mp hsweeps
  obtain ⟨_, hescrow, hsweeps⟩ := gives_forM_cons_ok.mp hsweeps
  obtain ⟨-, rfl⟩ := gives_forM_nil.mp hsweeps
  simp only [gives_bind_ok, gives_pure] at hown hescrow
  obtain ⟨_, _, hown, -, rfl⟩ := hown
  obtain ⟨units, _, hescrow, -, rfl⟩ := hescrow
  obtain rfl := hL.sweepDust_idle rfl (hL.toppedUp_low he hne hq hw hspend hlt htop hleg) hown
  obtain ⟨evm, hevm, hback⟩ := Ledger.recorded_sweepDust hescrow
  refine ⟨sp, units, evm, split_ok.mpr ⟨rfl, hn⟩, hevm, ?_⟩
  rw [hback, Ledger.recorded_call hleg, Ledger.recorded_topUp_short hq hspend hlt htop,
    Ledger.recorded_callUnlessZero hw, List.append_assoc _ [_]]
  rfl

/-- On any ledger, and however it ends, a move with an escrow turns one cosmos unit at most into evm
units, and only for a remainder that its source lacks. On a book an account that was topped up is
not swept. -/
theorem escrow_moves_convert_once (k : Keeper) :
    (∀ (σ : Type) (L : Ledger σ) (s : σ) (a : Address) (name : ModuleName) (cs : Coins),
      k.ConvertsAsNeeded L (.accountToModule a name cs) (.account a) (.accountToModule a name) cs s ∧
      k.ConvertsAsNeeded L (.moduleToAccount name a cs) (.escrow name) (.moduleToAccount name a)
        cs s) ∧
    ∀ (b : Book) (r : Recorded Book) (a e : Address) (name : ModuleName) (cs : Coins),
      b.moduleAddress name = .ok e → a ≠ e →
      (k.perform Book.ledger.recorded (.accountToModule a name cs)).Gives (.start b) (.ok .done) r →
      r.calls.filter k.config.makesEvm ≠ [] →
      ∃ (sp : Split) (units evm : Amount), (k.split cs).Gives b (.ok sp) b ∧
        evm.val = units.val * k.config.multiplier.val ∧
        r.calls = k.toppedUpCalls a name sp units evm := by
  refine ⟨fun σ L s a name cs => ⟨?_, ?_⟩, fun b r a e name cs he hne h hmade => ?_⟩
  · exact convertsAsNeeded_of_move (fun _ => rfl) (fun _ => rfl) rfl s
  · exact convertsAsNeeded_of_move (fun _ => rfl) (fun _ => rfl) rfl s
  · exact accountToModule_toppedUp he hne (gives_thenDone_ok.mp h).1 hmade

end Keeper

theorem escrow_moves_convert_once_small :
    let k := Keeper.standard
    let q : KeeperRequest := .accountToModule "alice" "fee" [⟨"aorai", .clamp 10⟩]
    ∃ (b : Book) (r : Recorded Book), b = Book.small ∧
      (k.perform Book.ledger.recorded q).Gives (.start b) (.ok .done) r ∧
      r.calls.length = 9 ∧ r.calls.filter k.config.makesEvm = k.config.oneUnit ∧
      ∃ sp units evm, r.calls = k.toppedUpCalls "alice" "fee" sp units evm := by
  intro k q
  obtain ⟨b, r, hb, he, h, hcount, hmade⟩ : ∃ (b : Book) (r : Recorded Book), b = Book.small ∧
      b.moduleAddress "fee" = .ok "fee_module_account" ∧
      (k.perform Book.ledger.recorded q).Gives (.start b) (.ok .done) r ∧ r.calls.length = 9 ∧
      r.calls.filter k.config.makesEvm = k.config.oneUnit :=
    ⟨_, _, rfl, by decide +kernel, ⟨by decide +kernel, rfl⟩, by decide +kernel, by decide +kernel⟩
  obtain ⟨sp, units, evm, -, -, hcalls⟩ :=
    k.escrow_moves_convert_once.2 b r _ _ _ _ he (by decide) h (hmade ▸ List.cons_ne_nil _ _)
  exact ⟨b, r, hb, h, hcount, hmade, sp, units, evm, hcalls⟩

end DualDenom
