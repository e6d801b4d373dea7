import DualDenom.Proofs.JsonGrammar

/-!
# A library that does what is expected

One library that writes compactly and reads strictly (`strict`). Characters are
scanned to tokens and tokens are read as a document by two machines, each of
which takes one step for what it is given. The scanner finds the tokens in
every spelling (`tokens?_of_spells`) and the reader finds the document in its
tokens (`document?_tokens`), so spelling leaves no trace.
-/

namespace DualDenom.Json

theorem foldlM_append_some {step : β → α → Option β} {xs ys : List α}
    (hxs : xs.foldlM step r = some s) (hys : ys.foldlM step s = some t) :
    (xs ++ ys).foldlM step r = some t := by
  rw [List.foldlM_append, hxs]
  exact hys

theorem mapM_eq_some {f : α → Option β} {xs : List α} {ys : List β} :
    xs.mapM f = some ys ↔ List.Forall₂ (fun x y => f x = some y) xs ys := by
  induction xs generalizing ys with
  | nil => simp [List.mapM_nil, pure, eq_comm]
  | cons x xs ih =>
    rw [List.mapM_cons, List.forall₂_cons_left_iff]
    simp only [bind, Option.bind_eq_some_iff, pure, Option.some.injEq, ih, exists_and_left,
      @eq_comm _ ys]

-- ---------------------------------------------------------------------------
-- Writing
-- ---------------------------------------------------------------------------

def compactChar (c : Char) : List Char :=
  match shortEscapes.find? fun e => e.2 = c ∧ c ≠ '/' with
  | some e => ['\\', e.1]
  | none =>
    if c.toNat < 0x20 then
      ['\\', 'u', '0', '0', hexDigit (c.toNat / 0x10), hexDigit (c.toNat % 0x10)]
    else [c]

theorem compactSpelling_compactChar (c : Char) : CompactSpelling c (compactChar c) := by
  unfold compactChar
  split
  case h_1 e he =>
    have hmem := List.mem_of_find?_eq_some he
    obtain ⟨rfl, hslash⟩ : e.2 = c ∧ c ≠ '/' := by simpa using List.find?_some he
    exact .short hmem hslash
  case h_2 he =>
    have hnone : ∀ e ∈ shortEscapes, e.2 = c → c = '/' := by simpa using List.find?_eq_none.mp he
    split
    case isTrue hlt =>
      refine .unit hlt fun letter h => ?_
      rw [hnone _ h rfl] at hlt
      exact absurd hlt (by decide)
    case isFalse hge =>
      refine .plain (Nat.le_of_not_lt hge) ?_ ?_
      · rintro rfl
        exact absurd (hnone ('"', '"') (by decide) rfl) (by decide)
      · rintro rfl
        exact absurd (hnone ('\\', '\\') (by decide) rfl) (by decide)

def Token.compact : Token → List Char
  | .mark m => [m.char]
  | .text s => '"' :: (s.toList.map compactChar).flatten ++ ['"']

theorem Token.spells_compact (t : Token) : t.Spells CompactSpelling t.compact := by
  cases t with
  | mark m => exact .mark m
  | text s =>
    refine .text (List.forall₂_map_right_iff.mpr (List.forall₂_same.mpr fun c _ => ?_))
    exact compactSpelling_compactChar c

theorem spells_compact (gap : List Char → Prop) (hg : gap g) (hnil : gap []) (ts : List Token) :
    Spells CompactSpelling gap ts (ts.flatMap fun t => g ++ t.compact) := by
  induction ts with
  | nil => exact .done hnil
  | cons t ts ih =>
    rw [List.flatMap_cons, List.append_assoc]
    exact .token hg t.spells_compact ih

def Document.write (doc : Document) : String := String.ofList (doc.tokens.flatMap Token.compact)

theorem Document.compactlySpelledBy_write (doc : Document) : doc.CompactlySpelledBy doc.write := by
  rw [CompactlySpelledBy, write, String.toList_ofList]
  exact spells_compact (· = []) rfl rfl doc.tokens

-- ---------------------------------------------------------------------------
-- Scanning
-- ---------------------------------------------------------------------------

/-- Where the scanner is. The characters of a text are kept with the latest first. -/
inductive Mode
  | between
  | inside (cs : List Char)
  | escape (cs : List Char) (high : Option Nat)
  | digits (cs : List Char) (high : Option Nat) (missing value : Nat)
  | unpaired (cs : List Char) (high : Nat)

structure Scanner where
  mode : Mode
  found : List Token

/-- A unit that has been read in a text, after a high surrogate or not. -/
def Mode.unit? (cs : List Char) (high : Option Nat) (n : Nat) : Option Mode :=
  match high with
  | none =>
    if 0xD800 ≤ n ∧ n < 0xDC00 then some (.unpaired cs n)
    else if 0xDC00 ≤ n ∧ n < 0xE000 then none
    else some (.inside (Char.ofNat n :: cs))
  | some high =>
    if 0xDC00 ≤ n ∧ n < 0xE000 then
      some (.inside (Char.ofNat (0x10000 + (high - 0xD800) * 0x400 + (n - 0xDC00)) :: cs))
    else none

def Mark.ofChar? (c : Char) : Option Mark :=
  [.openBrace, .closeBrace, .openBracket, .closeBracket, .colon, .comma].find? fun m => m.char = c

namespace Scanner

def step (s : Scanner) (c : Char) : Option Scanner :=
  match s.mode with
  | .between =>
    if c ∈ spaces then some s
    else if c = '"' then some { s with mode := .inside [] }
    else (Mark.ofChar? c).map fun m => { s with found := .mark m :: s.found }
  | .inside cs =>
    if c = '"' then some ⟨.between, .text (String.ofList cs.reverse) :: s.found⟩
    else if c = '\\' then some { s with mode := .escape cs none }
    else if c.toNat < 0x20 then none
    else some { s with mode := .inside (c :: cs) }
  | .escape cs high =>
    if c = 'u' then some { s with mode := .digits cs high 4 0 }
    else if high.isSome then none
    else (shortEscapes.lookup c).map fun c' => { s with mode := .inside (c' :: cs) }
  | .digits cs high missing value =>
    (hexValue? c).bind fun v =>
      if missing ≤ 1 then (Mode.unit? cs high (0x10 * value + v)).map fun m => { s with mode := m }
      else some { s with mode := .digits cs high (missing - 1) (0x10 * value + v) }
  | .unpaired cs high => if c = '\\' then some { s with mode := .escape cs (some high) } else none

variable {cs ds : List Char} {found : List Token} {high : Option Nat}

theorem scan_digits (hds : FourDigits n ds) (hm : Mode.unit? cs high n = some m) :
    ('u' :: ds).foldlM step ⟨.escape cs high, found⟩ = some ⟨m, found⟩ := by
  obtain ⟨a, _, ha, h₁, rfl⟩ := List.forall₂_cons_right_iff.mp hds
  obtain ⟨b, _, hb, h₂, rfl⟩ := List.forall₂_cons_right_iff.mp h₁
  obtain ⟨c, _, hc, h₃, rfl⟩ := List.forall₂_cons_right_iff.mp h₂
  obtain ⟨d, _, hd, h₄, rfl⟩ := List.forall₂_cons_right_iff.mp h₃
  obtain rfl := List.forall₂_nil_right_iff.mp h₄
  have hn : 0x10 * (0x10 * (0x10 * (n / 0x1000) + n / 0x100 % 0x10) + n / 0x10 % 0x10) + n % 0x10 =
      n := by
    omega
  simp [step, ha, hb, hc, hd, hn, hm]

/-- No character is a surrogate. -/
theorem unit?_toNat (c : Char) : Mode.unit? cs none c.toNat = some (.inside (c :: cs)) := by
  have hvalid : c.toNat < 0xD800 ∨ 0xDFFF < c.toNat ∧ c.toNat < 0x110000 := c.valid
  rw [Mode.unit?, if_neg (by omega), if_neg (by omega), Char.ofNat_toNat]

theorem unit?_highSurrogate (c : Char) :
    Mode.unit? cs none (highSurrogate c) = some (.unpaired cs (highSurrogate c)) := by
  have hvalid : c.toNat < 0xD800 ∨ 0xDFFF < c.toNat ∧ c.toNat < 0x110000 := c.valid
  have hhigh : 0xD800 ≤ highSurrogate c ∧ highSurrogate c < 0xDC00 := by
    unfold highSurrogate
    omega
  rw [Mode.unit?, if_pos hhigh]

theorem unit?_lowSurrogate {c : Char} (h : 0x10000 ≤ c.toNat) :
    Mode.unit? cs (some (highSurrogate c)) (lowSurrogate c) = some (.inside (c :: cs)) := by
  have hlow : 0xDC00 ≤ lowSurrogate c ∧ lowSurrogate c < 0xE000 := by
    unfold lowSurrogate
    omega
  have hval : 0x10000 + (highSurrogate c - 0xD800) * 0x400 + (lowSurrogate c - 0xDC00) =
      c.toNat := by
    unfold highSurrogate lowSurrogate
    omega
  rw [Mode.unit?, if_pos hlow, hval, Char.ofNat_toNat]

theorem lookup_of_mem_shortEscapes :
    ∀ e ∈ shortEscapes, e.1 ≠ 'u' ∧ shortEscapes.lookup e.1 = some e.2 := by
  decide

theorem scan_spelling (h : Spelling c p) (cs : List Char) (found : List Token) :
    p.foldlM step ⟨.inside cs, found⟩ = some ⟨.inside (c :: cs), found⟩ := by
  have hstart : ['\\'].foldlM step ⟨.inside cs, found⟩ = some ⟨.escape cs none, found⟩ := rfl
  cases h with
  | plain hcontrol hquote hbackslash => simp [step, hquote, hbackslash, Nat.not_lt.mpr hcontrol]
  | @short letter _ h =>
    obtain ⟨hu, hlookup⟩ := lookup_of_mem_shortEscapes _ h
    have hletter : [letter].foldlM step ⟨.escape cs none, found⟩ =
        some ⟨.inside (c :: cs), found⟩ := by
      simp [step, show letter ≠ 'u' from hu, show shortEscapes.lookup letter = some c from hlookup]
    exact foldlM_append_some hstart hletter
  | unit h => exact foldlM_append_some hstart (scan_digits h (unit?_toNat c))
  | pair h hhigh hlow =>
    have hnext : ['\\'].foldlM step ⟨.unpaired cs (highSurrogate c), found⟩ =
        some ⟨.escape cs (some (highSurrogate c)), found⟩ := rfl
    have hfirst := foldlM_append_some hstart (scan_digits hhigh (unit?_highSurrogate c))
    exact foldlM_append_some hfirst
      (foldlM_append_some hnext (scan_digits hlow (unit?_lowSurrogate h)))

theorem scan_spellings {cs : List Char} {ps : List (List Char)} (h : List.Forall₂ Spelling cs ps)
    (before : List Char) (found : List Token) : ps.flatten.foldlM step ⟨.inside before, found⟩ =
      some ⟨.inside (cs.reverse ++ before), found⟩ := by
  induction h generalizing before with
  | nil => rfl
  | @cons c p cs ps hc _ ih =>
    rw [List.flatten_cons, List.reverse_cons, List.append_assoc, List.singleton_append]
    exact foldlM_append_some (scan_spelling hc before found) (ih (c :: before))

theorem scan_token {t : Token} (h : t.Spells Spelling p) (found : List Token) :
    p.foldlM step ⟨.between, found⟩ = some ⟨.between, t :: found⟩ := by
  cases h with
  | mark m => cases m <;> rfl
  | @text ps s h =>
    have hopen : ['"'].foldlM step ⟨.between, found⟩ = some ⟨.inside [], found⟩ := rfl
    have hclose : ['"'].foldlM step ⟨.inside (s.toList.reverse ++ []), found⟩ =
        some ⟨.between, .text s :: found⟩ := by
      simp [step]
    exact foldlM_append_some (foldlM_append_some hopen (scan_spellings h [] found)) hclose

theorem scan_spaces {g : List Char} (h : ∀ c ∈ g, c ∈ spaces) :
    g.foldlM step ⟨.between, found⟩ = some ⟨.between, found⟩ := by
  induction g with
  | nil => rfl
  | cons c g ih =>
    have hc : step ⟨.between, found⟩ c = some ⟨.between, found⟩ := if_pos (h c List.mem_cons_self)
    rw [List.foldlM_cons, hc]
    exact ih fun c' hc' => h c' (List.mem_cons_of_mem _ hc')

theorem scan_spells (h : Spells Spelling (∀ c ∈ ·, c ∈ spaces) ts cs) (found : List Token) :
    cs.foldlM step ⟨.between, found⟩ = some ⟨.between, ts.reverse ++ found⟩ := by
  induction h generalizing found with
  | done hg => exact scan_spaces hg
  | @token _ t _ _ _ hg ht _ ih =>
    rw [List.reverse_cons, List.append_assoc, List.singleton_append]
    exact foldlM_append_some (scan_spaces hg) (foldlM_append_some (scan_token ht found) (ih _))

end Scanner

def tokens? (cs : List Char) : Option (List Token) :=
  match cs.foldlM Scanner.step ⟨.between, []⟩ with
  | some ⟨.between, found⟩ => some found.reverse
  | _ => none

theorem tokens?_of_spells (h : Spells Spelling (∀ c ∈ ·, c ∈ spaces) ts cs) :
    tokens? cs = some ts := by
  rw [tokens?, Scanner.scan_spells h, List.append_nil]
  exact congrArg some (List.reverse_reverse ts)

-- ---------------------------------------------------------------------------
-- Reading
-- ---------------------------------------------------------------------------

inductive Place
  | start
  | firstKey
  | key
  | colon (key : String)
  | value (key : String)
  | firstItem (key : String)
  | item (key : String) (items : List String)
  | afterItem (key : String) (items : List String)
  | afterField
  | done

structure Reader where
  place : Place
  fields : Document

namespace Reader

def step (r : Reader) (t : Token) : Option Reader :=
  match r.place, t with
  | .start, .mark .openBrace => some { r with place := .firstKey }
  | .firstKey, .text key => some { r with place := .colon key }
  | .firstKey, .mark .closeBrace => some { r with place := .done }
  | .key, .text key => some { r with place := .colon key }
  | .colon key, .mark .colon => some { r with place := .value key }
  | .value key, .text s => some ⟨.afterField, (key, .text s) :: r.fields⟩
  | .value key, .mark .openBracket => some { r with place := .firstItem key }
  | .firstItem key, .text s => some { r with place := .afterItem key [s] }
  | .firstItem key, .mark .closeBracket => some ⟨.afterField, (key, .list []) :: r.fields⟩
  | .item key items, .text s => some { r with place := .afterItem key (s :: items) }
  | .afterItem key items, .mark .comma => some { r with place := .item key items }
  | .afterItem key items, .mark .closeBracket =>
    some ⟨.afterField, (key, .list items.reverse) :: r.fields⟩
  | .afterField, .mark .comma => some { r with place := .key }
  | .afterField, .mark .closeBrace => some { r with place := .done }
  | _, _ => none

end Reader

namespace Document

variable {fields : Document} {key : String}

theorem separated_cons (ts : List Token) (rest : List (List Token)) :
    separated (ts :: rest) = ts ++ rest.flatMap (.mark .comma :: ·) := by
  induction rest generalizing ts with
  | nil => exact (List.append_nil ts).symm
  | cons ts' rest ih =>
    rw [List.flatMap_cons, List.cons_append, ← ih ts']
    rfl

theorem read_items (rest items : List String) :
    ((rest.map fun s => [.text s]).flatMap (.mark .comma :: ·)).foldlM Reader.step
      ⟨.afterItem key items, fields⟩ = some ⟨.afterItem key (rest.reverse ++ items), fields⟩ := by
  induction rest generalizing items with
  | nil => rfl
  | cons s rest ih =>
    have hitem : [.mark .comma, .text s].foldlM Reader.step ⟨.afterItem key items, fields⟩ =
        some ⟨.afterItem key (s :: items), fields⟩ := rfl
    rw [List.reverse_cons, List.append_assoc, List.singleton_append]
    exact foldlM_append_some hitem (ih (s :: items))

theorem read_value (v : Value) : (valueTokens v).foldlM Reader.step ⟨.value key, fields⟩ =
    some ⟨.afterField, (key, v) :: fields⟩ := by
  cases v with
  | text s => rfl
  | list items =>
    cases items with
    | nil => rfl
    | cons s rest =>
      have hfirst : [.mark .openBracket, .text s].foldlM Reader.step ⟨.value key, fields⟩ =
          some ⟨.afterItem key [s], fields⟩ := rfl
      have hclose : [.mark .closeBracket].foldlM Reader.step
          ⟨.afterItem key (rest.reverse ++ [s]), fields⟩ =
          some ⟨.afterField, (key, .list (s :: rest)) :: fields⟩ := by
        simp [Reader.step]
      rw [valueTokens, List.map_cons, separated_cons]
      exact foldlM_append_some (foldlM_append_some hfirst (read_items rest [s])) hclose

theorem read_field (f : String × Value) (hplace : place = .firstKey ∨ place = .key) :
    (fieldTokens f).foldlM Reader.step ⟨place, fields⟩ = some ⟨.afterField, f :: fields⟩ := by
  have hkey : [.text f.1, .mark .colon].foldlM Reader.step ⟨place, fields⟩ =
      some ⟨.value f.1, fields⟩ := by
    rcases hplace with rfl | rfl <;> rfl
  exact foldlM_append_some hkey (read_value f.2)

theorem read_fields (rest fields : Document) :
    ((rest.map fieldTokens).flatMap (.mark .comma :: ·)).foldlM Reader.step ⟨.afterField, fields⟩ =
      some ⟨.afterField, rest.reverse ++ fields⟩ := by
  induction rest generalizing fields with
  | nil => rfl
  | cons f rest ih =>
    have hcomma : [.mark .comma].foldlM Reader.step ⟨.afterField, fields⟩ =
        some ⟨.key, fields⟩ := rfl
    rw [List.reverse_cons, List.append_assoc, List.singleton_append]
    exact foldlM_append_some (foldlM_append_some hcomma (read_field f (.inr rfl))) (ih (f :: fields))

end Document

def document? (ts : List Token) : Option Document :=
  match ts.foldlM Reader.step ⟨.start, []⟩ with
  | some ⟨.done, fields⟩ => some fields.reverse
  | _ => none

open Document in
theorem document?_tokens (doc : Document) : document? doc.tokens = some doc := by
  have hread : doc.tokens.foldlM Reader.step ⟨.start, []⟩ = some ⟨.done, doc.reverse⟩ := by
    cases doc with
    | nil => rfl
    | cons f rest =>
      have hopen : [.mark .openBrace].foldlM Reader.step ⟨.start, []⟩ = some ⟨.firstKey, []⟩ := rfl
      have hclose : [.mark .closeBrace].foldlM Reader.step ⟨.afterField, rest.reverse ++ [f]⟩ =
          some ⟨.done, (f :: rest).reverse⟩ := by
        simp [Reader.step]
      have htokens : tokens (f :: rest) = [.mark .openBrace] ++
          (fieldTokens f ++ (rest.map fieldTokens).flatMap (.mark .comma :: ·)) ++
          [.mark .closeBrace] := by
        rw [tokens, List.map_cons, separated_cons]
        rfl
      rw [htokens]
      exact foldlM_append_some (foldlM_append_some hopen
        (foldlM_append_some (read_field f (.inl rfl)) (read_fields rest [f]))) hclose
  rw [document?, hread]
  exact congrArg some (List.reverse_reverse doc)

-- ---------------------------------------------------------------------------
-- Records
-- ---------------------------------------------------------------------------

/-- The value of a field that is there exactly once. -/
def Document.field? (doc : Document) (name : String) : Option Value :=
  match doc.filter (·.1 = name) with
  | [f] => some f.2
  | _ => none

theorem Document.field?_eq_some {doc : Document} : doc.field? name = some v ↔
    doc.filter (·.1 = name) = [(name, v)] := by
  unfold field?
  split
  · rename_i f hf
    rw [hf]
    have hname : f.1 = name := by
      have hmem : f ∈ doc.filter (·.1 = name) := hf ▸ List.mem_singleton_self f
      simpa using (List.mem_filter.mp hmem).2
    constructor
    · intro h
      rw [← Option.some.inj h, ← hname]
    · intro h
      rw [List.singleton_inj.mp h]
  · rename_i hnot
    exact ⟨nofun, fun h => absurd h (hnot _)⟩

namespace Declaration

variable {decl : Declaration} {doc : Document} {r : Record}

def take? (decl : Declaration) (doc : Document) : Option Record :=
  if ∀ f ∈ doc, f.1 ∈ decl.map Prod.fst then
    decl.mapM fun d => ((doc.field? d.1).bind d.2.read?).map fun v => (d.1, v)
  else none

theorem take?_eq_some : decl.take? doc = some r ↔ decl.Takes doc r := by
  have hfield : ∀ (d : String × FieldType) (f : String × FieldValue),
      ((doc.field? d.1).bind d.2.read?).map (fun v => (d.1, v)) = some f ↔
        d.1 = f.1 ∧ ∃ v, doc.filter (·.1 = d.1) = [(d.1, v)] ∧ d.2.read? v = some f.2 := by
    rintro d ⟨name, v⟩
    simp only [Option.map_eq_some_iff, Option.bind_eq_some_iff, Document.field?_eq_some,
      Prod.mk.injEq]
    constructor
    · rintro ⟨_, hv, hname, rfl⟩
      exact ⟨hname, hv⟩
    · rintro ⟨hname, hv⟩
      exact ⟨v, hv, hname, rfl⟩
  unfold take?
  split
  · rename_i hknown
    simp only [mapM_eq_some, hfield]
    exact ⟨fun h => ⟨hknown, h⟩, fun h => h.fields⟩
  · rename_i hnot
    exact ⟨nofun, fun h => absurd h.known hnot⟩

end Declaration

namespace Library

def strict : Library where
  write? r := some r.written.write
  read? decl s := ((tokens? s.toList).bind document?).bind decl.take?

theorem strict_writesCompactly : strict.WritesCompactly :=
  fun r _ => ⟨_, rfl, r.written.compactlySpelledBy_write⟩

theorem strict_readsStrictly : strict.ReadsStrictly := by
  intro decl doc s _ hs r
  have hdoc : (tokens? s.toList).bind document? = some doc := by
    rw [tokens?_of_spells hs]
    exact document?_tokens doc
  change ((tokens? s.toList).bind document?).bind decl.take? = some r ↔ _
  rw [hdoc]
  exact Declaration.take?_eq_some

end Library

end DualDenom.Json
