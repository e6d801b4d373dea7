import DualDenom.Proofs.Movement

/-!
# What a failed call leaves

Each of the four changes of a book that fails leaves the book as it is. Every
movement makes two of them for a coin, so one that fails at a coin has made
none, or the first of them: then the second did not fit, and the figures of
the first are posted (`carryCoin_error`). Before any coin is looked at, the
settings may stop a call with an error of their own (`movement_error`).
-/

namespace DualDenom

open DualDenom.Action Figures

namespace Book

variable {b b' : Book}

theorem onSheet_error :
    (onSheet d g).Gives b (.error e) b' ↔ g (b.sheet d) = .error e ∧ b' = b := by
  rw [onSheet, gives_update_error]
  cases g (b.sheet d) <;> simp [Except.map]

theorem credit_error (h : (credit a c).Gives b (.error e) b') :
    (∃ o, e = .overflow o) ∧ b' = b := by
  obtain ⟨h, rfl⟩ := onSheet_error.mp h
  obtain ⟨o, -, rfl⟩ := mapError_error.mp h
  exact ⟨⟨o, rfl⟩, rfl⟩

theorem debit_error (h : (debit a c).Gives b (.error e) b') :
    e = .insufficientFunds a c.denom (b.spendable a c.denom) c.amount ∧ b' = b := by
  obtain ⟨h, rfl⟩ := onSheet_error.mp h
  split at h
  · cases h
  · exact ⟨(Except.error.inj h).symm, rfl⟩

theorem issue_error (h : (issue c).Gives b (.error e) b') : (∃ o, e = .overflow o) ∧ b' = b := by
  obtain ⟨h, rfl⟩ := onSheet_error.mp h
  obtain ⟨o, -, rfl⟩ := mapError_error.mp h
  exact ⟨⟨o, rfl⟩, rfl⟩

theorem retire_error (h : (retire c).Gives b (.error e) b') : (∃ o, e = .overflow o) ∧ b' = b := by
  obtain ⟨h, rfl⟩ := onSheet_error.mp h
  obtain ⟨o, -, rfl⟩ := mapError_error.mp h
  exact ⟨⟨o, rfl⟩, rfl⟩

end Book

namespace Movement

variable {m : Movement} {b b' : Book}

/-- The figures of the first of the two changes for a coin. -/
def firstFigures : Movement → Coin → Figures
  | .transfer source _, c | .destroy source, c => -inHand source c
  | .create target, c => inHand target c

theorem carryCoin_error (h : (m.carryCoin c).Gives b (.error e) b') :
    b' = b ∨ b.Posted (m.firstFigures c) b' ∧ ∃ o, e = .overflow o := by
  cases m <;> rcases gives_bind_error.mp h with h | ⟨_, _, h₁, h₂⟩
  case transfer.inl => exact .inl (Book.debit_error h).2
  case destroy.inl => exact .inl (Book.debit_error h).2
  case create.inl => exact .inl (Book.credit_error h).2
  case transfer.inr =>
    obtain ⟨ho, rfl⟩ := Book.credit_error h₂
    exact .inr ⟨Book.debit_posted h₁, ho⟩
  case destroy.inr =>
    obtain ⟨ho, rfl⟩ := Book.retire_error h₂
    exact .inr ⟨Book.debit_posted h₁, ho⟩
  case create.inr =>
    obtain ⟨ho, rfl⟩ := Book.issue_error h₂
    exact .inr ⟨Book.credit_posted h₁, ho⟩

theorem carryOut_singleton_error (h : (m.carryOut [c]).Gives b (.error e) b') :
    b' = b ∨ b.Posted (m.firstFigures c) b' := by
  rw [carryOut_eq] at h
  rcases gives_bind_error.mp h with hk | ⟨_, _, hk, hc⟩
  · exact .inl (gives_ofExcept.mp hk).2
  · obtain ⟨-, rfl⟩ := gives_ofExcept.mp hk
    rcases gives_bind_error.mp hc with hc | ⟨_, _, -, hnil⟩
    · exact (carryCoin_error hc).imp_right And.left
    · cases (gives_forM_nil.mp hnil).1

end Movement

def LedgerError.isSetting : LedgerError → Bool
  | .sendDisabled _ | .blockedAddress _ | .unknownModule _ | .missingPermission .. => true
  | _ => false

namespace Book

variable {b b' : Book} {cl : Call}

theorem checkSendEnabled_error (h : b.checkSendEnabled cs = .error e) : e.isSetting = true := by
  rw [checkSendEnabled] at h
  split at h <;> cases h
  rfl

theorem moduleAddress_error (h : b.moduleAddress name = .error e) : e.isSetting = true := by
  rw [moduleAddress, map_error, moduleAccount] at h
  split at h <;> cases h
  rfl

theorem addressWith_error (h : b.addressWith name p = .error e) : e.isSetting = true := by
  rcases bind_error.mp h with h | ⟨account, -, h⟩
  · exact moduleAddress_error (map_error.mpr h)
  · split at h <;> cases h
    rfl

theorem movement_error (h : b.movement cl = .error e) : e.isSetting = true := by
  cases cl with
  | send source target cs =>
    rcases bind_error.mp h with h | ⟨_, -, ⟨⟩⟩
    exact checkSendEnabled_error h
  | accountToModule sender name cs =>
    rcases bind_error.mp h with h | ⟨_, -, ⟨⟩⟩
    exact moduleAddress_error h
  | moduleToAccount name recipient cs =>
    rcases bind_error.mp h with h | ⟨_, -, h⟩
    · exact moduleAddress_error h
    · rcases bind_error.mp h with h | ⟨_, -, ⟨⟩⟩
      rw [checkNotBlocked] at h
      split at h <;> cases h
      rfl
  | moduleToModule sender recipient cs =>
    rcases bind_error.mp h with h | ⟨_, -, h⟩
    · exact moduleAddress_error h
    · rcases bind_error.mp h with h | ⟨_, -, ⟨⟩⟩
      exact moduleAddress_error h
  | mint name cs =>
    rcases bind_error.mp h with h | ⟨_, -, ⟨⟩⟩
    exact addressWith_error h
  | burn name cs =>
    rcases bind_error.mp h with h | ⟨_, -, ⟨⟩⟩
    exact addressWith_error h

theorem submit_error (h : (submit call).Gives b (.error e) b') :
    b' = b ∨ ∃ m, b.movement call = .ok m ∧ (m.carryOut call.coins).Gives b (.error e) b' := by
  rw [submit_eq] at h
  rcases gives_bind_error.mp h with hq | ⟨m, _, hq, hc⟩
  · exact .inl (gives_query.mp hq).2
  · obtain ⟨hm, rfl⟩ := gives_query.mp hq
    exact .inr ⟨m, hm, hc⟩

end Book

end DualDenom
