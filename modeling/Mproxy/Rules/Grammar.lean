import Mproxy.Rules.ArgsLayout
import Mproxy.Rules.Wildcard

set_option relaxedAutoImplicit false
set_option autoImplicit false

/-!
# The texts of the version and message type columns

Which texts `normalize_ofp_ver_str` and `normalize_ofp_msg_type` read as which numbers. A version is
`"1.0"` to `"1.4"`, maybe with a dot and more behind it, or a number; a message type is a name of
its version or a number. `"*"` stands for all of them.

Both look at the start of a text only in several places: at its first byte for `'*'`, at its first
three bytes for a version with a dot, and `atoi` takes a text without a number for `0`. A number of
a message type may be one behind the last entry of its alias array, as `OFP_MSG_ALIAS_LEN` gives its
length, and this is too long for versions `1.3` and `1.4`.

## Main definitions

* `Mproxy.VersionRead`, `Mproxy.MsgTypeRead` — the number is the one that the text stands for.
* `Mproxy.normalizeOfpMsgTypeChecked` — `normalize_ofp_msg_type`, with every access checked.

## Main results

* `Mproxy.normalizeOfpVerStr_grammar_iff` — which versions are read right.
* `Mproxy.normalizeOfpMsgType_grammar_iff` — which message types are read right.
-/

namespace Mproxy

/-! ## Versions -/

/-- `"1."` and the digit of version `k`. -/
def versionPrefix (k : ℕ) : List UInt8 := cstr "1." ++ [UInt8.ofNat (47 + k)]

/-- A text for version `k`. -/
def VersionText (k : ℕ) (v : List UInt8) : Prop :=
  v = versionPrefix k ∨ (∃ t, t ≠ [] ∧ v = versionPrefix k ++ dot :: t) ∨
    Digits v ∧ digitsValue v = k

/-- A text for all versions. -/
def AllVersionsText (v : List UInt8) : Prop := v = cstr "*" ∨ Digits v ∧ digitsValue v = 0

/-- A text for one or all versions. -/
def SomeVersionText (v : List UInt8) : Prop :=
  AllVersionsText v ∨ ∃ k, 1 ≤ k ∧ k ≤ 5 ∧ VersionText k v

/-- The text `v` is read as what it stands for. -/
structure VersionRead (v : List UInt8) (r : ℤ) : Prop where
  number : ∀ k : ℕ, 1 ≤ k → k ≤ 5 → (r = k ↔ VersionText k v)
  all : r = ofpVerAll ↔ AllVersionsText v
  refused : r = ofpVerErr ↔ ¬ SomeVersionText v

/-- A text that starts like a version with a dot, starts with `'*'`, or is the number of a version
for `atoi`, which takes a text without a number for `0`. -/
def Lenient (v : List UInt8) : Prop :=
  (∃ k, 1 ≤ k ∧ k ≤ 5 ∧ v.take 3 = versionPrefix k) ∨ v.head? = some 42 ∨ 0 ≤ atoi v ∧ atoi v ≤ 5

section Version

variable {v : List UInt8} {k : ℕ}

/-- The versions with a dot, one by one. -/
lemma versionPrefix_cases (hk : 1 ≤ k) (hk' : k ≤ 5) : k = 1 ∧ versionPrefix k = cstr "1.0" ∨
    k = 2 ∧ versionPrefix k = cstr "1.1" ∨ k = 3 ∧ versionPrefix k = cstr "1.2" ∨
    k = 4 ∧ versionPrefix k = cstr "1.3" ∨ k = 5 ∧ versionPrefix k = cstr "1.4" := by
  have hall : ∀ k : Fin 6, 1 ≤ (k : ℕ) → (k : ℕ) = 1 ∧ versionPrefix k = cstr "1.0" ∨
      (k : ℕ) = 2 ∧ versionPrefix k = cstr "1.1" ∨ (k : ℕ) = 3 ∧ versionPrefix k = cstr "1.2" ∨
      (k : ℕ) = 4 ∧ versionPrefix k = cstr "1.3" ∨ (k : ℕ) = 5 ∧ versionPrefix k = cstr "1.4" := by
    decide +kernel
  exact hall ⟨k, by omega⟩ hk

/-- There is a dot in each prefix of a version. -/
lemma dot_mem_versionPrefix (k : ℕ) : dot ∈ versionPrefix k := by
  have hdot : dot ∈ cstr "1." := by decide +kernel
  exact List.mem_append_left _ hdot

/-- A text that starts like version `k` is read as version `k`. -/
lemma normalizeOfpVerStr_start (hk : 1 ≤ k) (hk' : k ≤ 5) (hv : v.take 3 = versionPrefix k) :
    normalizeOfpVerStr v = k := by
  have hdot : dot ∈ v := List.mem_of_mem_take (hv ▸ dot_mem_versionPrefix k)
  unfold normalizeOfpVerStr
  simp only [hdot, if_true, hv]
  have hne : [cstr "1.0", cstr "1.1", cstr "1.2", cstr "1.3", cstr "1.4"].Pairwise
      fun a b => ¬ b = a := by decide +kernel
  simp only [List.pairwise_cons, List.mem_cons, List.not_mem_nil, or_false, forall_eq_or_imp,
    forall_eq] at hne
  obtain ⟨⟨h₁, h₂, h₃, h₄⟩, ⟨h₅, h₆, h₇⟩, ⟨h₈, h₉⟩, h₁₀, -⟩ := hne
  rcases versionPrefix_cases hk hk' with ⟨rfl, h⟩ | ⟨rfl, h⟩ | ⟨rfl, h⟩ | ⟨rfl, h⟩ | ⟨rfl, h⟩ <;>
    simp only [h, h₁, h₂, h₃, h₄, h₅, h₆, h₇, h₈, h₉, h₁₀, if_true, if_false] <;> rfl

/-- A text that does not start like a version with a dot is `'*'` or a number. -/
lemma normalizeOfpVerStr_number (hv : ∀ k, 1 ≤ k → k ≤ 5 → v.take 3 ≠ versionPrefix k) :
    normalizeOfpVerStr v =
      if v.head? = some 42 then ofpVerAll
      else if atoi v < ofpVerAll ∨ atoi v > 5 then ofpVerErr else atoi v := by
  have h₁ : v.take 3 ≠ cstr "1.0" := hv 1 (by decide) (by decide)
  have h₂ : v.take 3 ≠ cstr "1.1" := hv 2 (by decide) (by decide)
  have h₃ : v.take 3 ≠ cstr "1.2" := hv 3 (by decide) (by decide)
  have h₄ : v.take 3 ≠ cstr "1.3" := hv 4 (by decide) (by decide)
  have h₅ : v.take 3 ≠ cstr "1.4" := hv 5 (by decide) (by decide)
  unfold normalizeOfpVerStr
  simp only [h₁, h₂, h₃, h₄, h₅, if_false, ite_self]

/-- **A text is accepted exactly if it is lenient.** -/
lemma normalizeOfpVerStr_ne_err_iff : normalizeOfpVerStr v ≠ ofpVerErr ↔ Lenient v := by
  by_cases hpre : ∃ k, 1 ≤ k ∧ k ≤ 5 ∧ v.take 3 = versionPrefix k
  · obtain ⟨k, hk, hk', hv⟩ := hpre
    refine iff_of_true ?_ (Or.inl ⟨k, hk, hk', hv⟩)
    rw [normalizeOfpVerStr_start hk hk' hv, ofpVerErr]
    omega
  · have hnum := normalizeOfpVerStr_number fun k hk hk' hv => hpre ⟨k, hk, hk', hv⟩
    rw [Lenient, or_iff_right hpre, hnum]
    unfold ofpVerAll ofpVerErr
    by_cases hstar : v.head? = some 42
    · simp [hstar]
    · rw [if_neg hstar, or_iff_right hstar]
      split_ifs <;> omega

/-- A string of digits does not start like a version with a dot, or with `'*'`. -/
lemma Digits.start (hv : Digits v) : v.head? ≠ some 42 ∧ ∀ k, v.take 3 ≠ versionPrefix k := by
  constructor
  · intro h
    exact absurd (hv.2 42 (List.mem_of_mem_head? h)) (by decide)
  · intro k h
    have hdot : dot ∈ v := List.mem_of_mem_take (h ▸ dot_mem_versionPrefix k)
    exact absurd (hv.2 dot hdot) (by decide)

/-- The number of a version, or of all of them, is read. -/
lemma normalizeOfpVerStr_digits (hv : Digits v) (h : digitsValue v ≤ 5) :
    normalizeOfpVerStr v = digitsValue v := by
  rw [normalizeOfpVerStr_number fun k _ _ => hv.start.2 k, if_neg hv.start.1,
    atoi_digits hv (by omega), ofpVerAll, if_neg (by omega)]

/-- A text for version `k` is read as version `k`. -/
lemma VersionText.read (hv : VersionText k v) (hk : 1 ≤ k) (hk' : k ≤ 5) :
    normalizeOfpVerStr v = k := by
  rcases hv with rfl | ⟨t, -, rfl⟩ | ⟨hdigits, rfl⟩
  · exact normalizeOfpVerStr_start hk hk' rfl
  · exact normalizeOfpVerStr_start hk hk' rfl
  · exact normalizeOfpVerStr_digits hdigits hk'

/-- A text for all versions is read as such. -/
lemma AllVersionsText.read (hv : AllVersionsText v) : normalizeOfpVerStr v = ofpVerAll := by
  rcases hv with rfl | ⟨hdigits, h⟩
  · decide +kernel
  · rw [normalizeOfpVerStr_digits hdigits (by omega), h, ofpVerAll, Nat.cast_zero]

/-- **Which versions are read right.** For every string: the texts of the grammar are, and of all
others those that are not lenient, which are refused.

**Proof sketch.** The texts of the grammar are read as what they stand for (`VersionText.read`,
`AllVersionsText.read`). Any other text has to be refused, which it is exactly if it is not lenient
(`normalizeOfpVerStr_ne_err_iff`). -/
theorem normalizeOfpVerStr_grammar_iff (v : List UInt8) :
    VersionRead v (normalizeOfpVerStr v) ↔ SomeVersionText v ∨ ¬ Lenient v := by
  rw [← normalizeOfpVerStr_ne_err_iff, not_ne_iff]
  constructor
  · intro h
    by_cases hsome : SomeVersionText v
    · exact Or.inl hsome
    · exact Or.inr (h.refused.mpr hsome)
  intro h
  -- what is not refused is a text of the grammar, and there is one number only it stands for
  have htext : normalizeOfpVerStr v ≠ ofpVerErr → SomeVersionText v := h.resolve_right
  have hread : SomeVersionText v → normalizeOfpVerStr v ≠ ofpVerErr := by
    rintro (hall | ⟨k, hk, hk', hv⟩)
    · rw [hall.read]
      decide
    · rw [hv.read hk hk', ofpVerErr]
      omega
  refine ⟨fun k hk hk' => ⟨fun hr => ?_, fun hv => hv.read hk hk'⟩,
    ⟨fun hr => ?_, fun hv => hv.read⟩,
    ⟨fun hr hsome => hread hsome hr, fun hsome => by_contra fun hr => hsome (htext hr)⟩⟩
  · rcases htext (by rw [hr, ofpVerErr]; omega) with hall | ⟨k', hk₁, hk₂, hv⟩
    · rw [hall.read, ofpVerAll] at hr
      omega
    · rw [hv.read hk₁ hk₂, Nat.cast_inj] at hr
      exact hr ▸ hv
  · rcases htext (by rw [hr]; decide) with hall | ⟨k, hk, hk', hv⟩
    · exact hall
    · rw [hv.read hk hk', ofpVerAll] at hr
      omega

/-- The empty text is read as all versions. -/
theorem normalizeOfpVerStr_empty : ¬ VersionRead [] (normalizeOfpVerStr []) := by
  have hread : normalizeOfpVerStr [] = ofpVerAll := by decide +kernel
  intro h
  rcases h.all.mp hread with h | ⟨h, -⟩
  · exact absurd h (by decide +kernel)
  · exact h.1 rfl

end Version

/-! ## Message types -/

/-- `OFP_MSG_ALIASES[ver][i]`, at any index the code may compute. -/
def aliasGet (ver i : ℕ) : Except Fault (Option (List UInt8)) :=
  let aliases := ofpMsgAliases.getD ver []
  if i < aliases.length then .ok ((aliases.getD i none).map cstr) else .error .outOfBounds

/-- The loop of `normalize_ofp_msg_type` that looks for an alias, with the number of entries to look
at and the index of the next one. -/
def findAlias (ver : ℕ) (s : List UInt8) : ℕ → ℕ → Except Fault ℤ
  | 0, _ => .ok ofpMsgTypeErr
  | n + 1, i => do
    let entry ← aliasGet ver i
    if entry = some s then .ok i else findAlias ver s n (i + 1)

/-- `normalize_ofp_msg_type`, with every access to the alias arrays checked. -/
def normalizeOfpMsgTypeChecked (ver : ℕ) (s : List UInt8) : Except Fault ℤ :=
  let len := ofpMsgAliasLen.getD ver 0
  if s.head? = some 42 then .ok ofpMsgTypeAll
  else if isInt s then do
    let ret := atoi s
    if ret > len ∨ ret < 0 then .ok ofpMsgTypeErr
    else
      let entry ← aliasGet ver ret.toNat
      if entry = none then .ok ofpMsgTypeErr else .ok ret
  else findAlias ver s len 0

/-- The name at an index of an alias array. -/
def aliasName (ver i : ℕ) : Option (List UInt8) :=
  ((ofpMsgAliases.getD ver []).getD i none).map cstr

/-- A text for the entry at index `i`: it is a name, and the text is this name or the index. -/
def TypeText (ver i : ℕ) (s : List UInt8) : Prop :=
  ∃ name, aliasName ver i = some name ∧ (s = name ∨ Digits s ∧ digitsValue s = i)

/-- The text `s` is read as what it stands for. -/
structure MsgTypeRead (ver : ℕ) (s : List UInt8) (r : ℤ) : Prop where
  all : r = ofpMsgTypeAll ↔ s = cstr "*"
  index : ∀ i : ℕ, r = i ↔ TypeText ver i s
  refused : r = ofpMsgTypeErr ↔ s ≠ cstr "*" ∧ ∀ i, ¬ TypeText ver i s

/-- The alias array is as long as `OFP_MSG_ALIAS_LEN` says. -/
def DeclaredRight (ver : ℕ) : Prop := ofpMsgAliasLen.getD ver 0 = (ofpMsgAliases.getD ver []).length

instance (ver : ℕ) : Decidable (DeclaredRight ver) := inferInstanceAs (Decidable (_ = _))

/-- A number that is refused as it is negative or too large, or is the index of an entry: then there
is no name there, or it is the number the digits stand for. -/
def NumberReadable (ver : ℕ) (s : List UInt8) : Prop :=
  atoi s < 0 ∨ (ofpMsgAliasLen.getD ver 0 : ℤ) < atoi s ∨
    atoi s < (ofpMsgAliases.getD ver []).length ∧
      (aliasName ver (atoi s).toNat = none ∨ atoi s = digitsValue s)

/-- A message type that is read right: `"*"` and no other text with `'*'` first; a number as above;
any other text if the array is not too short, or has it. -/
def TypeReadable (ver : ℕ) (s : List UInt8) : Prop :=
  s = cstr "*" ∨ isInt s = true ∧ NumberReadable ver s ∨
    s.head? ≠ some 42 ∧ isInt s = false ∧ (DeclaredRight ver ∨ ∃ i, aliasName ver i = some s)

section MsgType

variable {ver : Fin 6} {s : List UInt8}

/-- A type with a name is an index of the alias array. -/
lemma aliasName_lt {ver i : ℕ} {name : List UInt8} (h : aliasName ver i = some name) :
    i < (ofpMsgAliases.getD ver []).length := by
  by_contra hge
  rw [aliasName, List.getD_eq_getElem?_getD, List.getElem?_eq_none (by omega)] at h
  cases h

/-- A read inside of the alias array gives the name there. -/
lemma aliasGet_of_lt {ver i : ℕ} (h : i < (ofpMsgAliases.getD ver []).length) :
    aliasGet ver i = .ok (aliasName ver i) := if_pos h

/-- A read behind it is out of bounds. -/
lemma aliasGet_of_ge {ver i : ℕ} (h : (ofpMsgAliases.getD ver []).length ≤ i) :
    aliasGet ver i = .error .outOfBounds := if_neg (by omega)

/-- An alias array has no more than `35` entries. -/
lemma aliases_length_le (ver : Fin 6) : (ofpMsgAliases.getD ver []).length ≤ 35 := by
  revert ver
  decide

/-- No name starts with `'*'` or is a number, and none is there twice. -/
lemma aliasName_facts {i : ℕ} {name : List UInt8} (h : aliasName ver i = some name) :
    name.head? ≠ some 42 ∧ isInt name = false ∧ ∀ j, aliasName ver j = some name → j = i := by
  have hall : ∀ ver : Fin 6, ∀ i : Fin 35, ∀ name ∈ aliasName ver i,
      name.head? ≠ some 42 ∧ isInt name = false ∧
        ∀ j : Fin 35, aliasName ver j = some name → j = i := by decide +kernel
  have hle := aliases_length_le ver
  have hi := aliasName_lt h
  obtain ⟨hstar, hint, hinj⟩ := hall ver ⟨i, by omega⟩ name h
  refine ⟨hstar, hint, fun j hj => ?_⟩
  have hj' := aliasName_lt hj
  exact congrArg Fin.val (hinj ⟨j, by omega⟩ hj)

/-- `is_int` takes the texts of digits. -/
lemma isInt_iff : isInt s = true ↔ Digits s := by
  simp [isInt, Digits]

/-! ### The search -/

/-- The search ends with the first index that has the name. -/
lemma findAlias_found {ver n i k : ℕ} (hk : aliasName ver (i + k) = some s) (hn : k < n)
    (hfirst : ∀ j < k, aliasName ver (i + j) ≠ some s) :
    findAlias ver s n i = .ok ((i + k : ℕ) : ℤ) := by
  have hlt := aliasName_lt hk
  induction k generalizing n i with
  | zero =>
    obtain ⟨n, rfl⟩ : ∃ m, n = m + 1 := ⟨n - 1, by omega⟩
    rw [Nat.add_zero] at hk hlt ⊢
    rw [findAlias, aliasGet_of_lt hlt]
    exact if_pos hk
  | succ k ih =>
    obtain ⟨n, rfl⟩ : ∃ m, n = m + 1 := ⟨n - 1, by omega⟩
    rw [findAlias, aliasGet_of_lt (by omega)]
    have hne : aliasName ver i ≠ some s := hfirst 0 (Nat.succ_pos k)
    have hstep : i + 1 + k = i + (k + 1) := by omega
    refine (if_neg hne).trans ?_
    rw [ih (by rw [hstep]; exact hk) (by omega) (fun j hj => ?_) (by omega), hstep]
    rw [show i + 1 + j = i + (j + 1) by omega]
    exact hfirst (j + 1) (by omega)

/-- A search that does not find the name looks at all entries, also those that are not there. -/
lemma findAlias_missing {ver : ℕ} (hs : ∀ i, aliasName ver i ≠ some s) (n i : ℕ) :
    findAlias ver s n i =
      if n = 0 ∨ i + n ≤ (ofpMsgAliases.getD ver []).length then .ok ofpMsgTypeErr
      else .error .outOfBounds := by
  induction n generalizing i with
  | zero => simp [findAlias]
  | succ n ih =>
    rw [findAlias]
    rcases Nat.lt_or_ge i (ofpMsgAliases.getD ver []).length with hlt | hge
    · rw [aliasGet_of_lt hlt]
      refine (if_neg (hs i)).trans ?_
      rw [ih (i + 1)]
      refine if_congr ?_ rfl rfl
      omega
    · rw [aliasGet_of_ge hge, if_neg (by omega)]
      rfl

/-- The search for a name of the version. -/
lemma normalizeOfpMsgTypeChecked_name {i : ℕ} (h : aliasName ver i = some s) :
    normalizeOfpMsgTypeChecked ver s = .ok i := by
  obtain ⟨hstar, hint, hinj⟩ := aliasName_facts h
  have hlen : i < ofpMsgAliasLen.getD ver 0 := by
    have := aliasName_lt h
    rcases ofpMsgAliasLen_cases ver with hlen | hlen <;> omega
  have hfind := findAlias_found (i := 0) (k := i) (by rwa [Nat.zero_add]) hlen fun j hj hname => by
    rw [Nat.zero_add] at hname
    exact absurd (hinj j hname) (by omega)
  unfold normalizeOfpMsgTypeChecked
  simp only [if_neg hstar, hint, Bool.false_eq_true, if_false]
  rw [hfind, Nat.zero_add]

/-- The search for another text. -/
lemma normalizeOfpMsgTypeChecked_other (hstar : s.head? ≠ some 42) (hint : isInt s = false)
    (hs : ∀ i, aliasName ver i ≠ some s) :
    normalizeOfpMsgTypeChecked ver s =
      if DeclaredRight ver then .ok ofpMsgTypeErr else .error .outOfBounds := by
  have hpos : ∀ ver : Fin 6, ofpMsgAliasLen.getD ver 0 ≠ 0 := by decide
  have hlen := ofpMsgAliasLen_cases ver
  unfold normalizeOfpMsgTypeChecked
  simp only [if_neg hstar, hint, Bool.false_eq_true, if_false]
  rw [findAlias_missing hs]
  refine if_congr ?_ rfl rfl
  have := hpos ver
  rw [DeclaredRight]
  omega

/-- A number. -/
lemma normalizeOfpMsgTypeChecked_number (hint : isInt s = true) :
    normalizeOfpMsgTypeChecked ver s =
      if atoi s > (ofpMsgAliasLen.getD ver 0 : ℕ) ∨ atoi s < 0 then .ok ofpMsgTypeErr
      else if atoi s < (ofpMsgAliases.getD ver []).length then
        if aliasName ver (atoi s).toNat = none then .ok ofpMsgTypeErr else .ok (atoi s)
      else .error .outOfBounds := by
  have hstar : s.head? ≠ some 42 := (isInt_iff.mp hint).start.1
  unfold normalizeOfpMsgTypeChecked
  simp only [if_neg hstar, hint, if_true]
  by_cases hrange : atoi s > (ofpMsgAliasLen.getD ver 0 : ℕ) ∨ atoi s < 0
  · rw [if_pos hrange, if_pos hrange]
  · rw [if_neg hrange, if_neg hrange]
    by_cases hlt : atoi s < (ofpMsgAliases.getD ver []).length
    · rw [if_pos hlt, aliasGet_of_lt (by omega)]
      rfl
    · rw [if_neg hlt, aliasGet_of_ge (by omega)]
      rfl

/-! ### What is read right -/

/-- A text for an entry is read as its index. -/
lemma TypeText.read {i : ℕ} (h : TypeText ver i s) : normalizeOfpMsgTypeChecked ver s = .ok i := by
  obtain ⟨name, hname, rfl | ⟨hdigits, hval⟩⟩ := h
  · exact normalizeOfpMsgTypeChecked_name hname
  · have hlt := aliasName_lt hname
    have hle := aliases_length_le ver
    have hatoi : atoi s = i := by rw [atoi_digits hdigits (by omega), hval]
    have hlen := ofpMsgAliasLen_cases ver
    rw [normalizeOfpMsgTypeChecked_number (isInt_iff.mpr hdigits), hatoi, Int.toNat_natCast, hname,
      if_neg (by omega), if_pos (by omega), if_neg (Option.some_ne_none name)]

/-- What starts with `'*'` is read as all message types. -/
lemma normalizeOfpMsgTypeChecked_star (h : s.head? = some 42) :
    normalizeOfpMsgTypeChecked ver s = .ok ofpMsgTypeAll := if_pos h

/-- What is returned is right exactly for the texts that stand for something, and where a text is
refused. -/
lemma msgTypeRead_iff {r : ℤ} (hr : normalizeOfpMsgTypeChecked ver s = .ok r) :
    MsgTypeRead ver s r ↔ (s = cstr "*" ∨ ∃ i, TypeText ver i s) ∨ r = ofpMsgTypeErr := by
  have hstar : s = cstr "*" → r = ofpMsgTypeAll := by
    rintro rfl
    rw [normalizeOfpMsgTypeChecked_star (by decide +kernel)] at hr
    exact (Except.ok.inj hr).symm
  have htext : ∀ i, TypeText ver i s → r = i := fun i h => by
    rw [h.read] at hr
    exact (Except.ok.inj hr).symm
  unfold ofpMsgTypeAll at hstar
  constructor
  · intro h
    by_cases hsome : s = cstr "*" ∨ ∃ i, TypeText ver i s
    · exact Or.inl hsome
    · rw [not_or, not_exists] at hsome
      exact Or.inr (h.refused.mpr hsome)
  · rintro ((hs | ⟨i, hi⟩) | rfl)
    · have hr' := hstar hs
      refine ⟨iff_of_true hr' hs, fun i => ⟨fun h => by omega, htext i⟩, ?_⟩
      exact iff_of_false (by rw [hr']; decide) fun h => h.1 hs
    · have hr' := htext i hi
      refine ⟨⟨fun h => ?_, hstar⟩, fun j => ⟨fun h => ?_, htext j⟩, ⟨fun h => ?_, fun h => ?_⟩⟩
      · rw [hr', ofpMsgTypeAll] at h
        omega
      · rw [hr', Nat.cast_inj] at h
        exact h ▸ hi
      · rw [hr', ofpMsgTypeErr] at h
        omega
      · exact absurd hi (h.2 i)
    · unfold ofpMsgTypeErr at hstar htext ⊢
      refine ⟨⟨fun h => absurd h (by decide), hstar⟩, fun i => ⟨fun h => by omega, htext i⟩, ?_⟩
      refine iff_of_true rfl ⟨fun hs => absurd (hstar hs) (by decide), fun i hi => ?_⟩
      have := htext i hi
      omega

/-- **The function with its accesses checked is the one that reads on behind the arrays**, wherever
it does not fault. -/
lemma normalizeOfpMsgType_of_checked {r : ℤ} (hr : normalizeOfpMsgTypeChecked ver s = .ok r)
    (past : Past) : normalizeOfpMsgType past ver s = r := by
  by_cases hstar : s.head? = some 42
  · rw [normalizeOfpMsgTypeChecked_star hstar] at hr
    rw [← Except.ok.inj hr]
    exact if_pos hstar
  have hat : ∀ {i}, i < (ofpMsgAliases.getD ver []).length →
      aliasAt past ver i = aliasName ver i := fun h => if_pos h
  cases hint : isInt s with
  | true =>
    rw [normalizeOfpMsgTypeChecked_number hint] at hr
    unfold normalizeOfpMsgType
    simp only [if_neg hstar, hint, if_true]
    split_ifs at hr with hrange hlt hnone
    · rw [← Except.ok.inj hr, if_pos (or_assoc.mp (Or.inl hrange))]
    · rw [← Except.ok.inj hr, if_pos (Or.inr (Or.inr (by rw [hat (by omega), hnone])))]
    · rw [← Except.ok.inj hr, if_neg]
      rw [← or_assoc, not_or]
      exact ⟨hrange, by rwa [hat (by omega)]⟩
  | false =>
    rw [normalizeOfpMsgType_alias hstar hint, find?_aliasAt, aliasPlace]
    by_cases hname : ∃ i, aliasName ver i = some s
    · obtain ⟨i, hi⟩ := hname
      rw [normalizeOfpMsgTypeChecked_name hi] at hr
      have hidx : aliasIndex ver s = some i := by
        rw [aliasIndex, List.find?_range_eq_some]
        refine ⟨decide_eq_true hi, List.mem_range.mpr (aliasName_lt hi), fun j hj => ?_⟩
        have hne : aliasName ver j ≠ some s := fun h => hj.ne ((aliasName_facts hi).2.2 j h)
        exact Bool.not_eq_true' _ ▸ decide_eq_false hne
      rw [hidx, ← Except.ok.inj hr]
      rfl
    · rw [not_exists] at hname
      rw [normalizeOfpMsgTypeChecked_other hstar hint hname] at hr
      split_ifs at hr with hdeclared
      have hidx : aliasIndex ver s = none := by
        refine List.find?_eq_none.mpr fun i _ => ?_
        rw [decide_eq_true_eq]
        exact hname i
      rw [hidx, strayAlias, hdeclared, if_neg fun h => Nat.lt_irrefl _ h.1, ← Except.ok.inj hr]
      rfl

/-- A text that is read right is readable. -/
lemma MsgTypeRead.readable {r : ℤ} (hread : MsgTypeRead ver s r)
    (hr : normalizeOfpMsgTypeChecked ver s = .ok r) : TypeReadable ver s := by
  by_cases hstar : s.head? = some 42
  · rw [normalizeOfpMsgTypeChecked_star hstar] at hr
    exact Or.inl (hread.all.mp (Except.ok.inj hr).symm)
  refine Or.inr ?_
  cases hint : isInt s with
  | true =>
    refine Or.inl ⟨rfl, ?_⟩
    rw [normalizeOfpMsgTypeChecked_number hint] at hr
    split_ifs at hr with hrange hlt hnone
    · rcases hrange with h | h
      · exact Or.inr (Or.inl h)
      · exact Or.inl h
    · exact Or.inr (Or.inr ⟨hlt, Or.inl hnone⟩)
    · -- a number that is accepted is the index of its entry
      refine Or.inr (Or.inr ⟨hlt, Or.inr ?_⟩)
      have hnat : r = (atoi s).toNat := by
        rw [← Except.ok.inj hr]
        omega
      obtain ⟨name, hname, rfl | ⟨-, hval⟩⟩ := (hread.index _).mp hnat
      · rw [(aliasName_facts hname).2.1] at hint
        cases hint
      · omega
  | false =>
    refine Or.inr ⟨hstar, rfl, ?_⟩
    by_cases hname : ∃ i, aliasName ver i = some s
    · exact Or.inr hname
    · rw [not_exists] at hname
      rw [normalizeOfpMsgTypeChecked_other hstar hint hname] at hr
      split_ifs at hr with hdeclared
      exact Or.inl hdeclared

/-- A number that is readable is read as the index of an entry, or refused. -/
lemma NumberReadable.read (hnum : NumberReadable ver s) (hint : isInt s = true) :
    ∃ r, normalizeOfpMsgTypeChecked ver s = .ok r ∧
      ((∃ i, TypeText ver i s) ∨ r = ofpMsgTypeErr) := by
  rw [normalizeOfpMsgTypeChecked_number hint]
  rcases hnum with h | h | ⟨hlt, h⟩
  · rw [if_pos (Or.inr h)]
    exact ⟨_, rfl, Or.inr rfl⟩
  · rw [if_pos (Or.inl h)]
    exact ⟨_, rfl, Or.inr rfl⟩
  by_cases hrange : atoi s > (ofpMsgAliasLen.getD ver 0 : ℕ) ∨ atoi s < 0
  · rw [if_pos hrange]
    exact ⟨_, rfl, Or.inr rfl⟩
  rw [if_neg hrange, if_pos hlt]
  cases hname : aliasName ver (atoi s).toNat with
  | none => exact ⟨_, if_pos rfl, Or.inr rfl⟩
  | some name =>
    have hval : atoi s = digitsValue s := h.resolve_left fun hnone => by
      rw [hnone] at hname
      cases hname
    refine ⟨_, if_neg (Option.some_ne_none name), Or.inl ⟨(atoi s).toNat, name, hname, Or.inr ?_⟩⟩
    exact ⟨isInt_iff.mp hint, by omega⟩

/-- A readable text stands for what is returned, or is refused. -/
lemma TypeReadable.read (h : TypeReadable ver s) :
    ∃ r, normalizeOfpMsgTypeChecked ver s = .ok r ∧
      ((s = cstr "*" ∨ ∃ i, TypeText ver i s) ∨ r = ofpMsgTypeErr) := by
  rcases h with rfl | ⟨hint, hnum⟩ | ⟨hstar, hint, hother⟩
  · exact ⟨_, normalizeOfpMsgTypeChecked_star (by decide +kernel), Or.inl (Or.inl rfl)⟩
  · obtain ⟨r, hr, hright⟩ := hnum.read hint
    exact ⟨r, hr, hright.imp Or.inr id⟩
  · by_cases hname : ∃ i, aliasName ver i = some s
    · obtain ⟨i, hi⟩ := hname
      exact ⟨_, normalizeOfpMsgTypeChecked_name hi, Or.inl (Or.inr ⟨i, s, hi, Or.inl rfl⟩)⟩
    · have hr := normalizeOfpMsgTypeChecked_other hstar hint (not_exists.mp hname)
      rw [if_pos (hother.resolve_right hname)] at hr
      exact ⟨_, hr, Or.inr rfl⟩

/-- **Which message types are read right.** For every version and every string: all accesses are to
entries of the alias array and the text is read as what it stands for, whatever is behind the array,
exactly if the text is readable.

**Proof sketch.** For each kind of text, what is returned is known
(`normalizeOfpMsgTypeChecked_star`, `_number`, `_name`, `_other`), and it is right for texts that
stand for something and where it is a refusal (`msgTypeRead_iff`). -/
theorem normalizeOfpMsgType_grammar_iff (ver : Fin 6) (s : List UInt8) :
    (∃ r, normalizeOfpMsgTypeChecked ver s = .ok r ∧
      (∀ past, normalizeOfpMsgType past ver s = r) ∧ MsgTypeRead ver s r) ↔ TypeReadable ver s := by
  constructor
  · rintro ⟨r, hr, -, hread⟩
    exact hread.readable hr
  · intro h
    obtain ⟨r, hr, hright⟩ := h.read
    exact ⟨r, hr, normalizeOfpMsgType_of_checked hr, (msgTypeRead_iff hr).mpr hright⟩

/-- The number of message types of version `1.0` is taken for the number of one of them: the entry
behind the last one is looked at. -/
theorem normalizeOfpMsgType_behind : ¬ ∃ r, normalizeOfpMsgTypeChecked 1 (cstr "22") = .ok r ∧
    (∀ past, normalizeOfpMsgType past 1 (cstr "22") = r) ∧ MsgTypeRead 1 (cstr "22") r := by
  have hfault : normalizeOfpMsgTypeChecked 1 (cstr "22") = .error .outOfBounds := by decide +kernel
  rintro ⟨r, hr, -⟩
  rw [hfault] at hr
  cases hr

end MsgType

end Mproxy
