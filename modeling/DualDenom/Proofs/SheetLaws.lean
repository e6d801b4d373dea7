import DualDenom.Book.Sheet
import Mathlib.Algebra.BigOperators.Group.Finset.Basic
import Mathlib.Algebra.Order.BigOperators.Group.Finset

/-!
# Balances and their total

Whether a balance is stored or what is left of it, all else stays as it was
(`Writes`), so that the total moves by the difference. The total is the sum over
any finite set of addresses outside of which nobody holds anything
(`total_eq_sum`), and does not depend on how balances are stored; in particular
no balance exceeds it.
-/

namespace DualDenom.Sheet

structure Writes (s : Sheet) (a : Address) (n : Amount) (s' : Sheet) : Prop where
  balance : ∀ x, s'.balance x = if x = a then n else s.balance x
  locks : s'.locks = s.locks
  supply : s'.supply = s.supply
  sendDisabled : s'.sendDisabled = s.sendDisabled

theorem Writes.locked {s s' : Sheet} {n : Amount} (h : s.Writes a n s') (x : Address) :
    s'.locked x = s.locked x := by
  rw [Sheet.locked, Sheet.locked, h.locks]

theorem writes_setBalance (s : Sheet) (a : Address) (n : Amount) :
    s.Writes a n (s.setBalance a n) where
  balance x := by
    simp only [balance, setBalance, Std.TreeMap.getD_insert, Std.LawfulEqCmp.compare_eq_iff_eq,
      @eq_comm _ x a]
  locks := rfl
  supply := rfl
  sendDisabled := rfl

theorem writes_leaveBalance (s : Sheet) (a : Address) (n : Amount) :
    s.Writes a n (s.leaveBalance a n) := by
  unfold leaveBalance
  split
  · rename_i hn
    have hz : n = .zero := Amount.ext (Amount.isZero_iff.mp hn)
    refine ⟨fun x => ?_, rfl, rfl, rfl⟩
    simp only [balance, Std.TreeMap.getD_erase, Std.LawfulEqCmp.compare_eq_iff_eq, hz,
      @eq_comm _ x a]
  · exact s.writes_setBalance a n

theorem spendable_le_balance (s : Sheet) (a : Address) : (s.spendable a).val ≤ (s.balance a).val :=
  Nat.sub_le ..

theorem total_eq_sum_keys (s : Sheet) :
    s.total = ∑ a ∈ s.balances.keys.toFinset, (s.balance a).val := by
  have hfold : ∀ (l : List (Address × Amount)) (n : Nat),
      l.foldl (fun sum p => sum + p.2.val) n = n + (l.map fun p => p.2.val).sum := by
    intro l
    induction l with
    | nil => simp
    | cons p l ih => intro n; simp [ih, Nat.add_assoc]
  rw [List.sum_toFinset _ Std.TreeMap.nodup_keys, ← Std.TreeMap.map_fst_toList_eq_keys, List.map_map,
    total, Std.TreeMap.foldl_eq_foldl_toList, hfold, Nat.zero_add]
  refine congrArg List.sum (List.map_congr_left ?_)
  rintro ⟨a, n⟩ hp
  have hn : s.balances[a]? = some n := Std.TreeMap.mem_toList_iff_getElem?_eq_some.mp hp
  simp [balance, Std.TreeMap.getD_eq_getD_getElem?, hn]

theorem balance_of_not_mem_keys {s : Sheet} (h : a ∉ s.balances.keys.toFinset) :
    (s.balance a).val = 0 := by
  have ha : a ∉ s.balances := by simpa using h
  simp [balance, Std.TreeMap.getD_eq_fallback ha]

theorem total_eq_sum (s : Sheet) (S : Finset Address) (h : ∀ a, a ∉ S → (s.balance a).val = 0) :
    s.total = ∑ a ∈ S, (s.balance a).val := by
  have hkeys : ∑ a ∈ s.balances.keys.toFinset, (s.balance a).val =
      ∑ a ∈ s.balances.keys.toFinset ∪ S, (s.balance a).val :=
    Finset.sum_subset Finset.subset_union_left fun a _ ha => balance_of_not_mem_keys ha
  have hS : ∑ a ∈ S, (s.balance a).val = ∑ a ∈ s.balances.keys.toFinset ∪ S, (s.balance a).val :=
    Finset.sum_subset Finset.subset_union_right fun a _ ha => h a ha
  rw [total_eq_sum_keys, hkeys, hS]

theorem Writes.total {s s' : Sheet} {n : Amount} (h : s.Writes a n s') :
    s'.total + (s.balance a).val = s.total + n.val := by
  let S := insert a s.balances.keys.toFinset
  have ha : a ∈ S := Finset.mem_insert_self ..
  have hout : ∀ x, x ∉ S → (s.balance x).val = 0 := fun x hx =>
    balance_of_not_mem_keys fun hk => hx (Finset.mem_insert_of_mem hk)
  have hnew : ∀ x, x ∉ S → (s'.balance x).val = 0 := by
    intro x hx
    have hne : x ≠ a := fun e => hx (e ▸ ha)
    rw [h.balance, if_neg hne, hout x hx]
  have hrest : ∑ x ∈ S.erase a, (s'.balance x).val =
      ∑ x ∈ S.erase a, (s.balance x).val :=
    Finset.sum_congr rfl fun x hx => by
      rw [h.balance, if_neg (Finset.ne_of_mem_erase hx)]
  rw [total_eq_sum _ S hnew, total_eq_sum _ S hout, ← Finset.add_sum_erase _ _ ha,
    ← Finset.add_sum_erase _ _ ha, hrest, h.balance, if_pos rfl]
  omega

theorem balance_le_total (s : Sheet) (a : Address) : (s.balance a).val ≤ s.total := by
  rw [total_eq_sum s (insert a s.balances.keys.toFinset) fun x hx =>
    balance_of_not_mem_keys fun h => hx (Finset.mem_insert_of_mem h)]
  exact Finset.single_le_sum (f := fun x => (s.balance x).val) (fun _ _ => Nat.zero_le _)
    (Finset.mem_insert_self ..)

theorem balance_add_le_total (s : Sheet) (hne : a ≠ x) :
    (s.balance a).val + (s.balance x).val ≤ s.total := by
  rw [total_eq_sum s (insert a (insert x s.balances.keys.toFinset)) fun y hy =>
    balance_of_not_mem_keys fun h => hy (Finset.mem_insert_of_mem (Finset.mem_insert_of_mem h))]
  exact Finset.add_le_sum (f := fun y => (s.balance y).val) (fun _ _ => Nat.zero_le _)
    (Finset.mem_insert_self ..) (Finset.mem_insert_of_mem (Finset.mem_insert_self ..)) hne

end DualDenom.Sheet
