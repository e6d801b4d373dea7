import DualDenom.Proofs.NormalForm

/-!
# Sweeps

A sweep leaves its holder the remainder of its dust, so that a second one finds
nothing. Of several sweeps only the first that comes to an address converts
anything, and what it converts was there from the start, however often the
address is named and by whichever holder. So a list of sweeps comes to a sum
over the addresses of its holders (`sweeps_sum`), in which no order is left.
-/

namespace DualDenom

open DualDenom.Action Figures

namespace Book

variable {c : Config} {b b' : Book} {hd : Holder} {hs hs' : List Holder}

def addresses (b : Book) (hs : List Holder) : Finset Address :=
  (hs.filterMap fun hd => (b.addressOf hd).toOption).toFinset

theorem addresses_cons (ha : b.addressOf hd = .ok a) :
    b.addresses (hd :: hs) = insert a (b.addresses hs) := by
  simp only [addresses, List.filterMap_cons, ha, Except.toOption, List.toFinset_cons]

theorem addresses_perm (h : hs.Perm hs') : b.addresses hs = b.addresses hs' :=
  List.toFinset_eq_of_perm _ _ (h.filterMap _)

theorem SameSettings.addresses (h : b.SameSettings b') (hs : List Holder) :
    b'.addresses hs = b.addresses hs := by simp only [Book.addresses, h.addressOf]

/-- What was counted at an address that is swept counts there no more, and counts nowhere else. -/
theorem Swept.sum_dustUnits [AddCommMonoid α] (h : b.Swept c a u b') (A : Finset Address)
    {f : Address → Nat → α} (hf : ∀ x, f x 0 = 0) :
    f a (b.dustUnits c a) + ∑ x ∈ A, f x (b'.dustUnits c x) =
      ∑ x ∈ insert a A, f x (b.dustUnits c x) := by
  have hself : f a (b'.dustUnits c a) = 0 := by rw [h.dustUnits_self, hf]
  have hothers : ∀ x ∈ A.erase a, f x (b'.dustUnits c x) = f x (b.dustUnits c x) := by
    intro x hx
    rw [h.dustUnits_others (Finset.ne_of_mem_erase hx)]
  rw [← Finset.sum_erase A hself, Finset.sum_congr rfl hothers,
    ← Finset.add_sum_erase (insert a A) _ (Finset.mem_insert_self a A),
    Finset.erase_insert_eq_erase]

end Book

namespace Ledger.Mirrors

variable {L : Ledger σ} {book : σ → Book} {c : Config} {hd : Holder} {hs : List Holder}

theorem sweeps_sum (hL : L.Mirrors book) (hne : c.evmDenom ≠ c.cosmosDenom)
    (h : (hs.mapM (L.sweepDust c)).Gives s (.ok us) t) :
    (book s).Posted (∑ a ∈ (book s).addresses hs, conversion c a (-((book s).dustUnits c a : Int)))
        (book t) ∧
      (us.map Amount.val).sum = ∑ a ∈ (book s).addresses hs, (book s).dustUnits c a := by
  induction hs generalizing s us with
  | nil =>
    obtain ⟨⟨⟩, rfl⟩ := gives_mapM_nil.mp h
    exact ⟨.refl _, rfl⟩
  | cons hd hs ih =>
    obtain ⟨u, us', r, rfl, hsweep, hrest⟩ := gives_mapM_cons_ok.mp h
    obtain ⟨a, ha⟩ := hL.sweepDust_resolves hsweep
    have hswept := hL.sweepDust_swept hne ha hsweep
    have hposted := (hL.carries.sweepDust_posted hsweep).posted ha
    -- The rest is counted on the book that the first sweep leaves.
    obtain ⟨hp, hsum⟩ := ih hrest
    rw [hposted.settings.addresses] at hp hsum
    rw [hswept.units_eq] at hposted
    rw [Book.addresses_cons ha]
    constructor
    · exact (hposted.trans hp).cast (hswept.sum_dustUnits
        (f := fun x n => conversion c x (-(n : Int))) _ fun x => conversion_zero)
    · rw [List.map_cons, List.sum_cons, hsum, hswept.units_eq]
      exact hswept.sum_dustUnits (f := fun _ n => n) _ fun _ => rfl

end Ledger.Mirrors

/-- A sweep converts the whole units of dust, exactly these and nothing else, and a second one
makes no call. Sweeps of several holders that all succeed come to the same funds and to the same
number of units in any order. -/
theorem Keeper.sweeps_normalise (k : Keeper) (r : Recorded Book) :
    (∀ hd a u r', r.ledger.addressOf hd = .ok a →
      (Book.ledger.recorded.sweepDust k.config hd).Gives r (.ok u) r' →
        r.ledger.Swept k.config a u r'.ledger ∧
          (Book.ledger.recorded.sweepDust k.config hd).Gives r' (.ok .zero) r') ∧
    ∀ hs hs' us us' t t', List.Perm hs hs' →
      (hs.mapM (Book.ledger.recorded.sweepDust k.config)).Gives r (.ok us) t →
      (hs'.mapM (Book.ledger.recorded.sweepDust k.config)).Gives r (.ok us') t' →
        t.ledger.SameFunds t'.ledger ∧ (us.map Amount.val).sum = (us'.map Amount.val).sum := by
  have hL := Book.mirrors_recorded
  constructor
  · intro hd a u r' ha h
    have hswept := hL.sweepDust_swept k.evm_ne_cosmos ha h
    have ha' := (hswept.exchanged.settings.addressOf hd).trans ha
    exact ⟨hswept, hL.sweepDust_none k.multiplier_ne_zero ha' hswept.dustUnits_self⟩
  · intro hs hs' us us' t t' hperm h h'
    obtain ⟨hp, hsum⟩ := hL.sweeps_sum k.evm_ne_cosmos h
    obtain ⟨hp', hsum'⟩ := hL.sweeps_sum k.evm_ne_cosmos h'
    rw [← Book.addresses_perm hperm] at hp' hsum'
    exact ⟨hp.sameFunds hp', hsum.trans hsum'.symm⟩

def Book.dusty : Book :=
  let funds : Book.Change Unit := do
    Book.fund "alice" [⟨"aorai", .clamp 2300000000000⟩]
    Book.fund "fee_module_account" [⟨"aorai", .clamp 20⟩]
    Book.fund "evm_module_account" [⟨"aorai", .clamp 1000000000005⟩]
  (funds.run Book.small).state.lock "alice" ⟨"aorai", .clamp 2⟩

theorem sweeps_normalise_small :
    let k := Keeper.standard
    let L := Book.ledger.recorded
    let r := Recorded.start Book.dusty
    let hs : List Holder :=
      [.escrow "evm", .account "alice", .escrow "fee", .account "fee_module_account"]
    let us : List Amount := [.clamp 1, .clamp 2, .clamp 1, .clamp 0]
    let us' : List Amount := [.clamp 1, .clamp 0, .clamp 2, .clamp 1]
    (∃ r', r.ledger.Swept k.config "alice" (.clamp 2) r'.ledger ∧
      (L.sweepDust k.config (.account "alice")).Gives r' (.ok .zero) r') ∧
    ∃ t t', (hs.mapM (L.sweepDust k.config)).Gives r (.ok us) t ∧
      (hs.reverse.mapM (L.sweepDust k.config)).Gives r (.ok us') t' ∧ t.ledger.SameFunds t'.ledger := by
  intro k L r hs us us'
  have halice : ((L.sweepDust k.config (.account "alice")).run r).answer.toOption =
      some (.clamp 2) := by decide +kernel
  have hthere : ((hs.mapM (L.sweepDust k.config)).run r).answer.toOption = some us := by
    decide +kernel
  have hback : ((hs.reverse.mapM (L.sweepDust k.config)).run r).answer.toOption = some us' := by
    decide +kernel
  obtain ⟨hone, hseveral⟩ := k.sweeps_normalise r
  obtain ⟨hfunds, -⟩ := hseveral hs hs.reverse us us' _ _ hs.reverse_perm.symm
    (gives_of_toOption hthere) (gives_of_toOption hback)
  exact ⟨⟨_, hone _ "alice" _ _ rfl (gives_of_toOption halice)⟩,
    _, _, gives_of_toOption hthere, gives_of_toOption hback, hfunds⟩

end DualDenom
