import DualDenom.Book
import DualDenom.Proofs.CoinLaws
import DualDenom.Proofs.Figures
import DualDenom.Proofs.SheetLaws
import Mathlib.Algebra.BigOperators.Group.Finset.Piecewise

/-!
# Books and postings

`b.Posted f b'`: the figures of `b'` are those of `b` plus `f`, and the
settings (locks, flags, modules, blocked addresses) are the same. Each of the
four changes of a book posts the figures of one coin; when it succeeds is said
of the amounts alone. What a book lists as spendable agrees, denom by denom,
with what it lets an address spend (`amountOf_spendableCoins`).
-/

namespace DualDenom.Book

open DualDenom.Action Figures
open Std (TreeMap)

theorem sheet_setSheet (b : Book) (d e : Denom) (s : Sheet) :
    (b.setSheet d s).sheet e = if e = d then s else b.sheet e := by
  simp only [sheet, setSheet, TreeMap.getD_insert, Std.LawfulEqCmp.compare_eq_iff_eq, @eq_comm _ e d]

theorem sheet_of_mem_toList {b : Book} (h : (d, s) ∈ b.sheets.toList) : b.sheet d = s := by
  have hs : b.sheets[d]? = some s := TreeMap.mem_toList_iff_getElem?_eq_some.mp h
  simp [sheet, TreeMap.getD_eq_getD_getElem?, hs]

theorem sheet_of_not_mem {b : Book} (h : d ∉ b.sheets.keys) : b.sheet d = .empty :=
  TreeMap.getD_eq_fallback fun hd => h (TreeMap.mem_keys.mpr hd)

theorem spendable_val (b : Book) (a : Address) (d : Denom) :
    (b.spendable a d).val = (b.balance a d).val - (b.locked a d).val := rfl

theorem spendableCoins_eq (b : Book) (a : Address) :
    b.spendableCoins a = Coins.positive (b.sheets.keys.map fun d => ⟨d, b.spendable a d⟩) := by
  rw [spendableCoins, ← TreeMap.map_fst_toList_eq_keys, List.map_map]
  refine congrArg Coins.positive (List.map_congr_left ?_)
  rintro ⟨d, s⟩ h
  simp [spendable, sheet_of_mem_toList h]

/-- The listing of an address holds of each denom what may be spent of it. -/
theorem amountOf_spendableCoins (b : Book) (a : Address) (d : Denom) :
    (b.spendableCoins a).amountOf d = b.spendable a d := by
  refine Coins.amountOf_eq ?_
  rw [spendableCoins_eq, Coins.exact_positive, Coins.exact, List.map_map,
    ← List.sum_toFinset _ TreeMap.nodup_keys]
  simp only [Function.comp_def, Finset.sum_ite_eq', List.mem_toFinset]
  split
  · rfl
  · rename_i h
    rw [spendable, sheet_of_not_mem h]
    rfl

theorem spendableAmount_eq (b : Book) (a : Address) (d : Denom) :
    ledger.spendableAmount b a d = .ok (b.spendable a d) :=
  congrArg Except.ok (amountOf_spendableCoins b a d)

def figures (b : Book) : Figures where
  balance a d := (b.balance a d).val
  held d := (b.sheet d).total
  supply d := (b.supply d).val

structure SameSettings (b b' : Book) : Prop where
  modules : b'.modules = b.modules
  blocked : b'.blocked = b.blocked
  locked : ∀ a d, b'.locked a d = b.locked a d
  sendDisabled : ∀ d, (b'.sheet d).sendDisabled = (b.sheet d).sendDisabled

theorem SameSettings.refl (b : Book) : b.SameSettings b := ⟨rfl, rfl, fun _ _ => rfl, fun _ => rfl⟩

theorem SameSettings.trans (h : SameSettings b b') (h' : SameSettings b' b'') :
    SameSettings b b'' where
  modules := h'.modules.trans h.modules
  blocked := h'.blocked.trans h.blocked
  locked a d := (h'.locked a d).trans (h.locked a d)
  sendDisabled d := (h'.sendDisabled d).trans (h.sendDisabled d)

theorem SameSettings.symm (h : SameSettings b b') : SameSettings b' b where
  modules := h.modules.symm
  blocked := h.blocked.symm
  locked a d := (h.locked a d).symm
  sendDisabled d := (h.sendDisabled d).symm

structure Posted (b : Book) (f : Figures) (b' : Book) : Prop where
  figures : b'.figures = b.figures + f
  settings : b.SameSettings b'

namespace Posted

theorem refl (b : Book) : b.Posted 0 b := ⟨(add_zero _).symm, .refl b⟩

theorem trans (h : Posted b f b') (h' : Posted b' g b'') : Posted b (f + g) b'' where
  figures := by rw [h'.figures, h.figures, add_assoc]
  settings := h.settings.trans h'.settings

theorem symm (h : Posted b f b') : Posted b' (-f) b where
  figures := by rw [h.figures, add_neg_cancel_right]
  settings := h.settings.symm

theorem cast (h : Posted b f b') (hf : f = g) : Posted b g b' := hf ▸ h

theorem balance (h : Posted b f b') (a : Address) (d : Denom) :
    ((b'.balance a d).val : Int) = (b.balance a d).val + f.balance a d :=
  congrFun (congrFun (congrArg Figures.balance h.figures) a) d

theorem held (h : Posted b f b') (d : Denom) :
    ((b'.sheet d).total : Int) = (b.sheet d).total + f.held d :=
  congrFun (congrArg Figures.held h.figures) d

theorem supply (h : Posted b f b') (d : Denom) :
    ((b'.supply d).val : Int) = (b.supply d).val + f.supply d :=
  congrFun (congrArg Figures.supply h.figures) d

variable {b b' : Book} {f : Figures}

theorem balance_eq (h : b.Posted f b') (hf : f.balance a d = 0) :
    b'.balance a d = b.balance a d := by
  refine Amount.ext ?_
  have := h.balance a d
  omega

theorem supply_eq (h : b.Posted f b') (hf : f.supply d = 0) : b'.supply d = b.supply d := by
  refine Amount.ext ?_
  have := h.supply d
  omega

theorem spendable_eq (h : b.Posted f b') (hf : f.balance a d = 0) :
    b'.spendable a d = b.spendable a d := by
  refine Amount.ext ?_
  rw [spendable_val, spendable_val, h.balance_eq hf, h.settings.locked]

end Posted

theorem posted_setSheet {b : Book} {s : Sheet}
    (hbal : ∀ a, ((s.balance a).val : Int) = (b.balance a d).val + f.balance a d)
    (hheld : (s.total : Int) = (b.sheet d).total + f.held d)
    (hsup : (s.supply.val : Int) = (b.supply d).val + f.supply d)
    (hlock : ∀ a, s.locked a = b.locked a d) (hsend : s.sendDisabled = (b.sheet d).sendDisabled)
    (hrest : ∀ e, e ≠ d → (∀ a, f.balance a e = 0) ∧ f.held e = 0 ∧ f.supply e = 0) :
    b.Posted f (b.setSheet d s) where
  figures := by
    ext
    · rename_i a e
      by_cases he : e = d
      · subst he
        simpa [figures, Book.balance, sheet_setSheet] using hbal a
      · simp [figures, Book.balance, sheet_setSheet, he, (hrest e he).1 a]
    · rename_i e
      by_cases he : e = d
      · subst he
        simpa [figures, sheet_setSheet] using hheld
      · simp [figures, sheet_setSheet, he, (hrest e he).2.1]
    · rename_i e
      by_cases he : e = d
      · subst he
        simpa [figures, Book.supply, sheet_setSheet] using hsup
      · simp [figures, Book.supply, sheet_setSheet, he, (hrest e he).2.2]
  settings := by
    refine ⟨rfl, rfl, fun a e => ?_, fun e => ?_⟩
    · by_cases he : e = d
      · subst he
        simpa [locked, sheet_setSheet] using hlock a
      · simp [locked, sheet_setSheet, he]
    · by_cases he : e = d
      · subst he
        simpa [sheet_setSheet] using hsend
      · simp [sheet_setSheet, he]

theorem onSheet_ok {b : Book} :
    (onSheet d g).Gives b (.ok ()) b' ↔ ∃ s, g (b.sheet d) = .ok s ∧ b' = b.setSheet d s := by
  simp only [onSheet, gives_update_ok, map_ok, @eq_comm _ b']

theorem onSheet_succeeds {b : Book} (h : g (b.sheet d) = .ok s) :
    ∃ b', (onSheet d g).Gives b (.ok ()) b' := ⟨_, onSheet_ok.mpr ⟨s, h, rfl⟩⟩

theorem posted_of_writes {b : Book} {s : Sheet} {n : Amount} {k : Int}
    (hs : (b.sheet d).Writes a n s) (hn : (n.val : Int) = (b.balance a d).val + k)
    (hbal : ∀ x e, f.balance x e = if x = a ∧ e = d then k else 0)
    (hheld : ∀ e, f.held e = if e = d then k else 0) (hsup : ∀ e, f.supply e = 0) :
    b.Posted f (b.setSheet d s) := by
  have htotal := hs.total
  refine posted_setSheet ?_ ?_ ?_ (fun x => hs.locked x) hs.sendDisabled ?_
  · intro x
    by_cases hx : x = a
    · subst hx
      simpa [hs.balance, hbal] using hn
    · simp [hs.balance, hbal, hx, Book.balance]
  · have hb : ((b.sheet d).balance a).val = (b.balance a d).val := rfl
    rw [hheld, if_pos rfl]
    omega
  · simp [hs.supply, hsup, Book.supply]
  · intro e he
    simp [hbal, hheld, hsup, he]

theorem credit_posted (h : (credit a c).Gives b (.ok ()) b') : b.Posted (inHand a c) b' := by
  obtain ⟨s, hs, rfl⟩ := onSheet_ok.mp h
  simp only [Sheet.credit, mapError_ok, map_ok, Amount.add_eq_ok] at hs
  obtain ⟨n, hn, rfl⟩ := hs
  refine posted_of_writes (k := c.amount.val) (Sheet.writes_setBalance ..) ?_ (fun _ _ => rfl)
    (fun _ => rfl) fun _ => rfl
  rw [hn]
  rfl

theorem credit_succeeds (h : (b.balance a c.denom).val + c.amount.val < Amount.bound) :
    ∃ b', (credit a c).Gives b (.ok ()) b' := by
  refine onSheet_succeeds (s := (b.sheet c.denom).setBalance a ⟨_, h⟩) ?_
  simp only [Sheet.credit, mapError_ok, map_ok, Amount.add_eq_ok]
  exact ⟨_, rfl, rfl⟩

theorem debit_posted (h : (debit a c).Gives b (.ok ()) b') : b.Posted (-inHand a c) b' := by
  obtain ⟨s, hs, rfl⟩ := onSheet_ok.mp h
  by_cases hle : c.amount ≤ (b.sheet c.denom).spendable a
  · simp only [Sheet.debit?, if_pos hle, Except.ok.injEq] at hs
    subst hs
    have hle' := (b.sheet c.denom).spendable_le_balance a
    rw [Amount.le_def] at hle
    refine posted_of_writes (k := -c.amount.val) (Sheet.writes_leaveBalance ..) ?_
      (fun x e => ?_) (fun e => ?_) fun _ => rfl
    · have hb : ((b.sheet c.denom).balance a).val = (b.balance a c.denom).val := rfl
      rw [Amount.val_subSat]
      omega
    · by_cases hx : x = a ∧ e = c.denom <;> simp [hx]
    · by_cases he : e = c.denom <;> simp [he]
  · simp [Sheet.debit?, if_neg hle] at hs

theorem debit_succeeds (h : c.amount.val ≤ (b.spendable a c.denom).val) :
    ∃ b', (debit a c).Gives b (.ok ()) b' := by
  refine onSheet_succeeds (s := (b.sheet c.denom).leaveBalance a
    (((b.sheet c.denom).balance a).subSat c.amount)) ?_
  have hle : c.amount ≤ (b.sheet c.denom).spendable a := h
  simp [Sheet.debit?, hle]

theorem debit_fails (h : (b.spendable a c.denom).val < c.amount.val) :
    (debit a c).Gives b
      (.error (.insufficientFunds a c.denom (b.spendable a c.denom) c.amount)) b := by
  have hgt : ¬c.amount ≤ (b.sheet c.denom).spendable a := Nat.not_le.mpr h
  rw [debit, onSheet, gives_update_error]
  simp [Sheet.debit?, hgt, Except.map, spendable]

theorem posted_setSupply {b : Book} {n : Amount} {k : Int}
    (hn : (n.val : Int) = (b.supply d).val + k) (hbal : ∀ x e, f.balance x e = 0)
    (hheld : ∀ e, f.held e = 0) (hsup : ∀ e, f.supply e = if e = d then k else 0) :
    b.Posted f (b.setSheet d { b.sheet d with supply := n }) := by
  refine posted_setSheet ?_ ?_ ?_ (fun _ => rfl) rfl ?_
  · intro x
    simp [hbal, Book.balance, Sheet.balance]
  · simp [hheld, Sheet.total]
  · simpa [hsup] using hn
  · intro e he
    simp [hbal, hheld, hsup, he]

theorem issue_posted (h : (issue c).Gives b (.ok ()) b') : b.Posted (inIssue c) b' := by
  obtain ⟨s, hs, rfl⟩ := onSheet_ok.mp h
  simp only [Sheet.issue, mapError_ok, map_ok, Amount.add_eq_ok] at hs
  obtain ⟨n, hn, rfl⟩ := hs
  refine posted_setSupply (k := c.amount.val) ?_ (fun _ _ => rfl) (fun _ => rfl) fun _ => rfl
  rw [hn]
  rfl

theorem issue_succeeds (h : (b.supply c.denom).val + c.amount.val < Amount.bound) :
    ∃ b', (issue c).Gives b (.ok ()) b' := by
  refine onSheet_succeeds (s := { b.sheet c.denom with supply := ⟨_, h⟩ }) ?_
  simp only [Sheet.issue, mapError_ok, map_ok, Amount.add_eq_ok]
  exact ⟨_, rfl, rfl⟩

theorem retire_posted (h : (retire c).Gives b (.ok ()) b') : b.Posted (-inIssue c) b' := by
  obtain ⟨s, hs, rfl⟩ := onSheet_ok.mp h
  simp only [Sheet.retire, mapError_ok, map_ok, Amount.sub_eq_ok] at hs
  obtain ⟨n, ⟨hle, hn⟩, rfl⟩ := hs
  refine posted_setSupply (k := -c.amount.val) ?_ (fun _ _ => rfl) (fun _ => rfl) fun e => ?_
  · have hb : (b.sheet c.denom).supply.val = (b.supply c.denom).val := rfl
    omega
  · by_cases he : e = c.denom <;> simp [he]

theorem retire_succeeds (h : c.amount.val ≤ (b.supply c.denom).val) :
    ∃ b', (retire c).Gives b (.ok ()) b' := by
  refine onSheet_succeeds
    (s := { b.sheet c.denom with supply := (b.supply c.denom).subSat c.amount }) ?_
  simp only [Sheet.retire, mapError_ok, map_ok, Amount.sub_eq_ok]
  exact ⟨_, ⟨h, rfl⟩, rfl⟩

end DualDenom.Book
