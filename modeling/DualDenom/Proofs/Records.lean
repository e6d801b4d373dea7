import DualDenom.Proofs.JsonReader
import Mathlib.Data.List.Perm.Basic

/-!
# Records as JSON

What a library writes compactly is JSON for the record (`write?_spelledBy`), and
JSON for the fields of a record in any order is taken as the record
(`takes_of_perm`). So a configuration or a module account is the same again
after it was written and read, also if its text has its fields in another order
or its tokens apart (`records_read_back`).
-/

namespace DualDenom

namespace Json

theorem Document.filter_name {doc : Document} (hnd : (doc.map Prod.fst).Nodup) (hf : f ∈ doc) :
    doc.filter (·.1 = f.1) = [f] := by
  induction doc with
  | nil => cases hf
  | cons g doc ih =>
    obtain ⟨hg, hnd⟩ := List.nodup_cons.mp hnd
    rcases List.mem_cons.mp hf with rfl | hf
    · rw [List.filter_cons_of_pos (by simp), List.filter_eq_nil_iff.mpr]
      intro g hmem hname
      exact hg (of_decide_eq_true hname ▸ List.mem_map_of_mem hmem)
    · rw [List.filter_cons_of_neg, ih hnd hf]
      intro hname
      exact hg (of_decide_eq_true hname ▸ List.mem_map_of_mem hf)

namespace Declaration

variable {decl : Declaration} {r : Record} {doc : Document}

/-- The record has the declared fields in order, with values that are read as they were written. -/
def Declares (decl : Declaration) (r : Record) : Prop :=
  List.Forall₂ (fun d f => d.1 = f.1 ∧ d.2.read? f.2.written = some f.2) decl r

theorem Declares.names_written (h : decl.Declares r) :
    r.written.map Prod.fst = decl.map Prod.fst := by
  rw [Record.written, List.map_map]
  induction h with
  | nil => rfl
  | cons hf _ ih => exact congrArg₂ List.cons hf.1.symm ih

theorem Declares.names (h : decl.Declares r) : r.map Prod.fst = decl.map Prod.fst := by
  rw [← h.names_written, Record.written, List.map_map]
  rfl

theorem takes_of_perm (hnd : (decl.map Prod.fst).Nodup) (h : decl.Declares r)
    (hdoc : doc.Perm r.written) : decl.Takes doc r where
  known f hf := h.names_written ▸ List.mem_map_of_mem (hdoc.mem_iff.mp hf)
  fields := by
    have hmem := ((List.forall₂_and_left r decl).mpr ⟨fun _ hf => hf, h.flip⟩).flip
    refine hmem.imp ?_
    rintro d f ⟨hf, hname, hread⟩
    have hfield : (f.1, f.2.written) ∈ r.written := List.mem_map_of_mem hf
    refine ⟨hname, f.2.written, ?_, hread⟩
    rw [hname, ← List.perm_singleton, ← Document.filter_name (h.names_written ▸ hnd) hfield]
    exact hdoc.filter _

end Declaration

namespace Library

variable {L : Library} {decl : Declaration} {r r' : Record}

theorem read?_of_spelledBy (hr : L.ReadsStrictly) (hnd : (decl.map Prod.fst).Nodup)
    (h : decl.Declares r) (hperm : r'.Perm r) (hs : r'.written.SpelledBy s) :
    L.read? decl s = some r :=
  (hr decl _ s hnd hs r).mpr (Declaration.takes_of_perm hnd h (hperm.map _))

theorem write?_spelledBy (hw : L.WritesCompactly) (hnd : (decl.map Prod.fst).Nodup)
    (h : decl.Declares r) : ∃ s, L.write? r = some s ∧ r.written.SpelledBy s := by
  obtain ⟨s, hwrite, hs⟩ := hw r (h.names ▸ hnd)
  exact ⟨s, hwrite, hs.spelledBy⟩

end Library

end Json

open Json

theorem Amount.ofText?_text (a : Amount) : ofText? a.text = some a := by
  have htext : a.text.toList = Nat.toDigits 10 a.val := Nat.toList_repr
  have hdigits : ∀ c ∈ Nat.toDigits 10 a.val, c.isDigit = true := fun c hc =>
    Nat.isDigit_of_mem_toDigits (by decide) (by decide) hc
  unfold ofText?
  rw [htext]
  dsimp only
  split
  · rename_i rest hsign
    exact absurd (hdigits '+' (hsign ▸ List.mem_cons_self)) (by decide)
  · rw [if_pos ⟨Nat.toDigits_ne_nil, List.all_eq_true.mpr hdigits⟩, Nat.ofDigitChars_ten_toDigits]
    exact ofNat?_eq_some.mpr rfl

theorem Permission.mapM_ofText? (ps : List Permission) :
    (ps.map text).mapM ofText? = some ps := by
  refine mapM_eq_some.mpr (List.forall₂_map_left_iff.mpr (List.forall₂_same.mpr ?_))
  exact fun p _ => p.ofText?_text

namespace Config

theorem nodup_declaration : (declaration.map Prod.fst).Nodup := by decide

theorem declares_record (c : Config) : declaration.Declares c.record :=
  .cons ⟨rfl, rfl⟩ (.cons ⟨rfl, rfl⟩ (.cons ⟨rfl, rfl⟩
    (.cons ⟨rfl, congrArg (Option.map FieldValue.amount) c.multiplier.ofText?_text⟩ .nil)))

theorem ofJson?_of_spelledBy {L : Library} (hr : L.ReadsStrictly) (c : Config)
    (hperm : r.Perm c.record) (hs : Document.SpelledBy (Record.written r) s) :
    ofJson? L s = some c := by
  rw [ofJson?, L.read?_of_spelledBy hr nodup_declaration c.declares_record hperm hs]
  rfl

end Config

namespace ModuleAccount

theorem nodup_declaration : (declaration.map Prod.fst).Nodup := by decide

theorem declares_record (m : ModuleAccount) : declaration.Declares m.record := by
  refine .cons ⟨rfl, rfl⟩ (.cons ⟨rfl, rfl⟩ (.cons ⟨rfl, if_pos ?_⟩ .nil))
  intro s hs
  obtain ⟨p, -, rfl⟩ := List.mem_map.mp hs
  cases p <;> decide

theorem ofJson?_of_spelledBy {L : Library} (hr : L.ReadsStrictly) (m : ModuleAccount)
    (hperm : r.Perm m.record) (hs : Document.SpelledBy (Record.written r) s) :
    ofJson? L s = some m := by
  rw [ofJson?, L.read?_of_spelledBy hr nodup_declaration m.declares_record hperm hs]
  exact congrArg (Option.map _) (Permission.mapM_ofText? m.permissions)

end ModuleAccount

/-- What is written of a record is read back as the same record, in whatever order its fields come,
however its tokens are spaced and however its characters are escaped. -/
theorem records_read_back {L : Library} (hw : L.WritesCompactly) (hr : L.ReadsStrictly) :
    (∀ c : Config, (c.toJson? L).bind (Config.ofJson? L) = some c ∧
      ∀ (r : Record) s, r.Perm c.record → r.written.SpelledBy s → Config.ofJson? L s = some c) ∧
    (∀ m : ModuleAccount, (m.toJson? L).bind (ModuleAccount.ofJson? L) = some m ∧
      ∀ (r : Record) s, r.Perm m.record → r.written.SpelledBy s →
        ModuleAccount.ofJson? L s = some m) := by
  constructor
  · intro c
    obtain ⟨s, hwrite, hs⟩ := L.write?_spelledBy hw Config.nodup_declaration c.declares_record
    refine ⟨?_, fun _ _ => c.ofJson?_of_spelledBy hr⟩
    rw [Config.toJson?, hwrite]
    exact c.ofJson?_of_spelledBy hr (.refl _) hs
  · intro m
    obtain ⟨s, hwrite, hs⟩ := L.write?_spelledBy hw ModuleAccount.nodup_declaration m.declares_record
    refine ⟨?_, fun _ _ => m.ofJson?_of_spelledBy hr⟩
    rw [ModuleAccount.toJson?, hwrite]
    exact m.ofJson?_of_spelledBy hr (.refl _) hs

theorem records_read_back_small :
    let L := Library.strict
    let c : Config := ⟨"\"a\\", "é\x01", "\n", .clamp 7⟩
    let m : ModuleAccount := ⟨"😀\x7f", "", [.minter, .burner]⟩
    let s := " \x7b \"multiplier\" : \"7\" , \"conversion_module\" : \"\\n\" ," ++
      " \"cosmos_denom\" : \"é\\u0001\" , \"evm_denom\" : \"\\\"a\\\\\" \x7d"
    let s' := " \x7b \"permissions\" : [ \"minter\" , \"burner\" ] ," ++
      " \"address\" : \"\" , \"name\" : \"😀\x7f\" \x7d"
    (c.toJson? L).bind (Config.ofJson? L) = some c ∧ Config.ofJson? L s = some c ∧
      (m.toJson? L).bind (ModuleAccount.ofJson? L) = some m ∧
      ModuleAccount.ofJson? L s' = some m := by
  intro L c m s s'
  have hgap : ∀ c ∈ [' '], c ∈ spaces := List.forall_mem_singleton.mpr List.mem_cons_self
  have hspaced : ∀ (doc : Document) (s : String),
      s.toList = (doc.tokens.flatMap fun t => [' '] ++ t.compact) → doc.SpelledBy s := by
    intro doc s hs
    rw [Document.SpelledBy, hs]
    exact (spells_compact _ hgap nofun doc.tokens).mono (fun _ _ => CompactSpelling.spelling)
      fun _ h => h
  have hs : (Record.written c.record.reverse).SpelledBy s := hspaced _ _ (by decide +kernel)
  have hs' : (Record.written m.record.reverse).SpelledBy s' := hspaced _ _ (by decide +kernel)
  obtain ⟨hconfig, haccount⟩ := records_read_back (L := L) Library.strict_writesCompactly
    Library.strict_readsStrictly
  exact ⟨(hconfig c).1, (hconfig c).2 _ s (List.reverse_perm _) hs, (haccount m).1,
    (haccount m).2 _ s' (List.reverse_perm _) hs'⟩

end DualDenom
