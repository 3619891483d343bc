import Mproxy.Generator.CTable
import Mproxy.Generator.Retarget
import Mproxy.Rules.Grammar

set_option relaxedAutoImplicit false
set_option autoImplicit false

/-!
# The generator and the proxy

The same rows are read by two programs, by `attacker_prep.py` and by `attack.c`, and each of them
finds out for itself which messages a row is for. Here the two are compared, on rows of ASCII
characters.

Both have the same names for the messages, and the texts of a version that the generator takes are
taken by the proxy. But the numbers are read by `int` on the one side and by `atoi` on the other:
`atoi` stops at an underscore, and at 32 bits. And a number that is none of a message is a message
of type `0` for the generator.

## Main definitions

* `Mproxy.Generator.bytes` — a text as the proxy reads it.
* `Mproxy.Generator.Row.ForProxy`, `Mproxy.Generator.Action.Reaches` — the messages that a row is
  for, in the proxy and in the generator.
* `Mproxy.Generator.Row.ReadAlike` — the texts that both read alike.

## Main results

* `Mproxy.Generator.atoi_of_pyInt` — the numbers of versions in the two programs.
* `Mproxy.Generator.normalizeOfpVerStr_bytes`, `Mproxy.Generator.msgTypeColumn_bytes` — the two
  columns in the two programs.
* `Mproxy.Generator.target_agrees_iff` — for which rows the two agree.
-/

namespace Mproxy.Generator

open Python

/-! ## Texts and bytes -/

/-- A text of ASCII characters, without the first and the last of them. -/
def Ascii (s : Text) : Prop := ∀ c ∈ s, 0 < c.toNat ∧ c.toNat < 127

instance (s : Text) : Decidable (Ascii s) := List.decidableBAll _ _

/-- A text of ASCII characters as the proxy reads it. -/
def bytes (s : Text) : List UInt8 := s.map fun c => UInt8.ofNat c.toNat

section Bytes

variable {s t : Text} {c d : Char}

/-- The first character of a text of ASCII characters. -/
lemma Ascii.head (hs : Ascii (c :: s)) : c.toNat < 127 := (hs c List.mem_cons_self).2

/-- A text of ASCII characters without its first one. -/
lemma Ascii.tail (hs : Ascii (c :: s)) : Ascii s := fun d hd => hs d (List.mem_cons_of_mem c hd)

/-- The bytes of two texts behind each other. -/
lemma bytes_append : bytes (s ++ t) = bytes s ++ bytes t := List.map_append

/-- A byte has the number of its character. -/
lemma toNat_byte (hc : c.toNat < 127) : (UInt8.ofNat c.toNat).toNat = c.toNat := by
  rw [UInt8.toNat_ofNat']
  exact Nat.mod_eq_of_lt (by omega)

/-- Different characters have different bytes. -/
lemma byte_inj (hc : c.toNat < 127) (hd : d.toNat < 127)
    (h : UInt8.ofNat c.toNat = UInt8.ofNat d.toNat) : c = d := by
  have hnat := congrArg UInt8.toNat h
  rw [toNat_byte hc, toNat_byte hd] at hnat
  exact Char.toNat_inj.mp hnat

/-- Both programs have the same digits. -/
lemma isDigit_byte (hc : c.toNat < 127) : isDigit (UInt8.ofNat c.toNat) = c.isDigit := by
  rw [Bool.eq_iff_iff, isDigit_iff, isDigit, Bool.and_eq_true, decide_eq_true_eq,
    decide_eq_true_eq, UInt8.le_iff_toNat_le, UInt8.le_iff_toNat_le, toNat_byte hc]
  rfl

/-- Both programs have the same blanks. -/
lemma isSpace_byte (hc : c.toNat < 127) : isSpace (UInt8.ofNat c.toNat) = isAsciiSpace c := by
  rw [Bool.eq_iff_iff, isSpace, isAsciiSpace, Bool.or_eq_true, Bool.or_eq_true, Bool.and_eq_true,
    Bool.and_eq_true, beq_iff_eq, beq_iff_eq, decide_eq_true_eq, decide_eq_true_eq,
    decide_eq_true_eq, decide_eq_true_eq, UInt8.le_iff_toNat_le, UInt8.le_iff_toNat_le,
    ← UInt8.toNat_inj, toNat_byte hc]
  rfl

/-- A byte stands in the text if its character does. -/
lemma mem_bytes (hs : Ascii s) (hc : c.toNat < 127) : UInt8.ofNat c.toNat ∈ bytes s ↔ c ∈ s := by
  rw [bytes, List.mem_map]
  constructor
  · rintro ⟨d, hd, heq⟩
    exact byte_inj (hs d hd).2 hc heq ▸ hd
  · intro h
    exact ⟨c, h, rfl⟩

/-- Different texts have different bytes. -/
lemma bytes_inj (hs : Ascii s) (ht : Ascii t) : bytes s = bytes t ↔ s = t := by
  refine ⟨fun h => ?_, congrArg bytes⟩
  induction s generalizing t with
  | nil =>
    cases t with
    | nil => rfl
    | cons d t => cases h
  | cons c s ih =>
    cases t with
    | nil => cases h
    | cons d t =>
      obtain ⟨hhead, htail⟩ := List.cons.inj h
      rw [byte_inj hs.head ht.head hhead, ih hs.tail ht.tail htail]

/-- The digits at the start of a text. -/
lemma takeWhile_bytes (hs : Ascii s) :
    (bytes s).takeWhile isDigit = bytes (s.takeWhile Char.isDigit) := by
  induction s with
  | nil => rfl
  | cons c s ih =>
    have hc := isDigit_byte hs.head
    rw [bytes, List.map_cons, List.takeWhile_cons, List.takeWhile_cons, hc]
    cases c.isDigit with
    | true => exact congrArg _ (ih hs.tail)
    | false => rfl

/-- A text without the blanks at its start. -/
lemma dropWhile_bytes (hs : Ascii s) :
    (bytes s).dropWhile isSpace = bytes (s.dropWhile isAsciiSpace) := by
  induction s with
  | nil => rfl
  | cons c s ih =>
    have hc := isSpace_byte hs.head
    rw [bytes, List.map_cons, List.dropWhile_cons, List.dropWhile_cons, hc]
    cases isAsciiSpace c with
    | true => exact ih hs.tail
    | false => rfl

/-- The value of a text of digits, in both programs. -/
lemma digitsValue_bytes (hs : Ascii s) : digitsValue (bytes s) = digitsVal s := by
  rw [digitsValue, digitsVal, bytes, List.foldl_map]
  exact List.foldl_ext _ _ 0 fun n c hc => by rw [toNat_byte (hs c hc).2]

/-- The texts of digits, in both programs. -/
lemma digits_bytes (hs : Ascii s) : Digits (bytes s) ↔ AsciiDigits s := by
  refine and_congr (not_congr List.map_eq_nil_iff) ?_
  rw [bytes, List.forall_mem_map]
  exact forall₂_congr fun c hc => by rw [isDigit_byte (hs c hc).2]

end Bytes

/-! ## Numbers -/

section Numbers

variable {py : Runtime} {s t w d : Text} {c : Char} {i : ℤ}

/-- A text that starts with no sign. -/
lemma splitSign_cons (hminus : c ≠ '-') (hplus : c ≠ '+') :
    splitSign (c :: s) = (false, c :: s) := by
  unfold splitSign
  split
  · exact absurd (List.cons.inj ‹_›).1 hminus
  · exact absurd (List.cons.inj ‹_›).1 hplus
  · rfl

/-- `strtol` of a text. -/
lemma strtol_bytes (hs : Ascii s) : strtol (bytes s) =
    let (negative, u) := splitSign (s.dropWhile isAsciiSpace)
    let n := digitsVal (u.takeWhile Char.isDigit)
    if negative then max (-9223372036854775808) (-(n : ℤ)) else min 9223372036854775807 n := by
  have hascii : Ascii (s.dropWhile isAsciiSpace) := fun c hc =>
    hs c ((List.dropWhile_suffix _).subset hc)
  have hval : ∀ u, Ascii u →
      digitsValue ((bytes u).takeWhile isDigit) = digitsVal (u.takeWhile Char.isDigit) := by
    intro u hu
    have htake : Ascii (u.takeWhile Char.isDigit) := fun c hc =>
      hu c ((List.takeWhile_prefix _).subset hc)
    rw [takeWhile_bytes hu, digitsValue_bytes htake]
  unfold strtol
  rw [dropWhile_bytes hs]
  generalize s.dropWhile isAsciiSpace = u at hascii ⊢
  cases u with
  | nil => rfl
  | cons c u =>
    by_cases hminus : c = '-'
    · subst hminus
      rw [show bytes ('-' :: u) = 45 :: bytes u from rfl]
      simp only [splitSign, hval u hascii.tail]
    by_cases hplus : c = '+'
    · subst hplus
      rw [show bytes ('+' :: u) = 43 :: bytes u from rfl]
      simp only [splitSign, hval u hascii.tail]
    have hbyte : ∀ x : Char, x.toNat < 127 → c ≠ x → UInt8.ofNat c.toNat ≠ UInt8.ofNat x.toNat :=
      fun x hx hne heq => hne (byte_inj hascii.head hx heq)
    rw [splitSign_cons hminus hplus]
    simp only
    rw [← hval (c :: u) hascii]
    split
    · exact absurd (List.cons.inj ‹_›).1 (hbyte '-' (by decide) hminus)
    · exact absurd (List.cons.inj ‹_›).1 (hbyte '+' (by decide) hplus)
    · rfl

/-- What `int` leaves out of a text at its end. -/
lemma exists_strip (s : Text) :
    ∃ w, s.dropWhile isAsciiSpace = strip s ++ w ∧ ∀ c ∈ w, isAsciiSpace c = true := by
  refine ⟨((s.dropWhile isAsciiSpace).reverse.takeWhile isAsciiSpace).reverse, ?_, fun c hc => ?_⟩
  · rw [strip, List.rdropWhile, ← List.reverse_append, List.takeWhile_append_dropWhile,
      List.reverse_reverse]
  · exact List.mem_takeWhile_imp (List.mem_reverse.mp hc)

/-- A text without its underscores starts with the digits in front of the first one, and there are
more behind it. -/
lemma withoutUnderscores_start {before : Bool} (h : withoutUnderscores before s = some d)
    (hd : ∀ c ∈ d, c.isDigit = true) :
    ∃ rest, d = s.takeWhile Char.isDigit ++ rest ∧ (rest = [] ↔ '_' ∉ s) := by
  induction s generalizing before d with
  | nil =>
    obtain rfl := Option.some.inj h
    exact ⟨[], rfl, by simp⟩
  | cons c s ih =>
    rw [withoutUnderscores] at h
    by_cases hc : c = '_'
    · subst hc
      rw [if_pos rfl] at h
      split_ifs at h with hnext
      refine ⟨d, rfl, iff_of_false ?_ (by simp)⟩
      -- an underscore stands in front of a digit
      cases s with
      | nil => simp at hnext
      | cons e s =>
        have he : e ≠ '_' := by
          rintro rfl
          simp at hnext
        rw [withoutUnderscores, if_neg he] at h
        obtain ⟨d', -, rfl⟩ := Option.map_eq_some_iff.mp h
        exact List.cons_ne_nil e d'
    · rw [if_neg hc] at h
      obtain ⟨d', hd', rfl⟩ := Option.map_eq_some_iff.mp h
      obtain ⟨rest, hrest, hiff⟩ := ih hd' fun x hx => hd x (List.mem_cons_of_mem c hx)
      refine ⟨rest, ?_, hiff.trans (by simp [Ne.symm hc])⟩
      rw [List.takeWhile_cons, if_pos (hd c List.mem_cons_self), List.cons_append, ← hrest]

/-- Only underscores are left out. -/
lemma withoutUnderscores_mem {before : Bool} (h : withoutUnderscores before s = some d) {c : Char}
    (hc : c ∈ s) : c = '_' ∨ c ∈ d := by
  induction s generalizing before d with
  | nil => cases hc
  | cons e s ih =>
    rw [withoutUnderscores] at h
    split_ifs at h with he
    · rcases List.mem_cons.mp hc with rfl | hc
      · exact Or.inl he
      · exact ih h hc
    · obtain ⟨d', hd', rfl⟩ := Option.map_eq_some_iff.mp h
      rcases List.mem_cons.mp hc with rfl | hc
      · exact Or.inr List.mem_cons_self
      · exact (ih hd' hc).imp id (List.mem_cons_of_mem e)

/-- More digits make a number ten times as large. -/
lemma digitsVal_append_le (ht : t ≠ []) : 10 * digitsVal s ≤ digitsVal (s ++ t) := by
  have hle : ∀ (t : Text) (n : ℕ), n ≤ t.foldl (fun n c => 10 * n + (c.toNat - 48)) n := by
    intro t
    induction t with
    | nil => exact fun n => le_rfl
    | cons c t ih =>
      intro n
      have hn : n ≤ 10 * n + (c.toNat - 48) := by omega
      exact hn.trans (ih _)
  obtain ⟨c, t, rfl⟩ := List.exists_cons_of_ne_nil ht
  rw [digitsVal, digitsVal, List.foldl_append, List.foldl_cons]
  exact le_trans (Nat.le_add_right _ _) (hle t _)

/-- Blanks behind a text add no digits to its start. -/
lemma takeWhile_isDigit_append (hw : ∀ c ∈ w, isAsciiSpace c = true) :
    (s ++ w).takeWhile Char.isDigit = s.takeWhile Char.isDigit := by
  induction s with
  | nil =>
    cases w with
    | nil => rfl
    | cons c w =>
      have hc : c.isDigit = false := by
        have hspace := hw c List.mem_cons_self
        by_contra hdigit
        rw [Bool.not_eq_false, isDigit_iff] at hdigit
        simp only [isAsciiSpace, Bool.or_eq_true, beq_iff_eq, Bool.and_eq_true,
          decide_eq_true_eq] at hspace
        omega
      rw [List.nil_append, List.takeWhile_cons, hc]
      rfl
  | cons c s ih =>
    rw [List.cons_append, List.takeWhile_cons, List.takeWhile_cons, ih]

/-- What stands behind a text does not change its sign. -/
lemma splitSign_append (hs : s ≠ []) :
    splitSign (s ++ w) = ((splitSign s).1, (splitSign s).2 ++ w) := by
  obtain ⟨c, s, rfl⟩ := List.exists_cons_of_ne_nil hs
  by_cases hminus : c = '-'
  · subst hminus
    rfl
  by_cases hplus : c = '+'
  · subst hplus
    rfl
  rw [List.cons_append, splitSign_cons hminus hplus, splitSign_cons hminus hplus]
  rfl

/-- `int` of a text of ASCII characters: a sign and digits, maybe with underscores. -/
lemma pyInt_eq_some (hs : Ascii s) (h : py.pyInt s = some i) :
    ∃ negative u d, splitSign (strip s) = (negative, u) ∧ withoutUnderscores false u = some d ∧
      d ≠ [] ∧ (∀ c ∈ d, c.isDigit = true) ∧
      i = if negative then -(digitsVal d : ℤ) else digitsVal d := by
  have hid : s.map py.toAscii = s := by
    have hid : ∀ c ∈ s, py.toAscii c = id c := fun c hc => if_pos (hs c hc).2
    rw [List.map_congr_left hid, List.map_id]
  unfold Runtime.pyInt at h
  rw [hid] at h
  cases hsign : splitSign (strip s) with
  | mk negative u =>
    simp only [hsign] at h
    cases hd : withoutUnderscores false u with
    | none =>
      rw [hd] at h
      cases h
    | some d =>
      simp only [hd] at h
      split_ifs at h with hdigits hneg
      · exact ⟨negative, u, d, rfl, hd, hdigits.1, List.all_eq_true.mp hdigits.2.1, by
          rw [if_pos hneg]
          exact (Option.some.inj h).symm⟩
      · exact ⟨negative, u, d, rfl, hd, hdigits.1, List.all_eq_true.mp hdigits.2.1, by
          rw [if_neg hneg]
          exact (Option.some.inj h).symm⟩

/-- The characters that `int` takes. -/
lemma pyInt_chars (hs : Ascii s) (h : py.pyInt s = some i) {c : Char} (hc : c ∈ s) :
    isAsciiSpace c = true ∨ c = '-' ∨ c = '+' ∨ c = '_' ∨ c.isDigit = true := by
  obtain ⟨negative, u, d, hsign, hd, -, hdigits, -⟩ := pyInt_eq_some hs h
  obtain ⟨w, hw, hspace⟩ := exists_strip s
  rw [← List.takeWhile_append_dropWhile (p := isAsciiSpace) (l := s), hw] at hc
  rcases List.mem_append.mp hc with hc | hc
  · exact Or.inl (List.mem_takeWhile_imp hc)
  rcases List.mem_append.mp hc with hc | hc
  swap
  · exact Or.inl (hspace c hc)
  have hmem : c = '-' ∨ c = '+' ∨ c ∈ u := by
    unfold splitSign at hsign
    split at hsign
    · rename_i x heq
      obtain ⟨-, rfl⟩ := Prod.mk.inj hsign
      rw [heq] at hc
      exact (List.mem_cons.mp hc).imp id Or.inr
    · rename_i x heq
      obtain ⟨-, rfl⟩ := Prod.mk.inj hsign
      rw [heq] at hc
      exact Or.inr (List.mem_cons.mp hc)
    · obtain ⟨-, rfl⟩ := Prod.mk.inj hsign
      exact Or.inr (Or.inr hc)
  rcases hmem with hc | hc | hc
  · exact Or.inr (Or.inl hc)
  · exact Or.inr (Or.inr (Or.inl hc))
  · exact Or.inr (Or.inr (Or.inr ((withoutUnderscores_mem hd hc).imp id (hdigits c))))

/-- The underscores of a text stand behind the blanks and the sign. -/
lemma underscore_mem_splitSign : '_' ∈ (splitSign (strip s)).2 ↔ '_' ∈ s := by
  obtain ⟨w, hw, hspace⟩ := exists_strip s
  have hblank : isAsciiSpace '_' = false := by decide
  have hsign : ∀ t : Text, '_' ∈ (splitSign t).2 ↔ '_' ∈ t := by
    intro t
    unfold splitSign
    split <;> simp
  rw [hsign]
  conv_rhs => rw [← List.takeWhile_append_dropWhile (p := isAsciiSpace) (l := s), hw]
  simp only [List.mem_append]
  constructor
  · exact fun h => Or.inr (Or.inl h)
  · rintro (h | h | h)
    · rw [List.mem_takeWhile_imp h] at hblank
      cases hblank
    · exact h
    · rw [hspace _ h] at hblank
      cases hblank

/-- **The numbers of versions**: `atoi` finds the same number as `int`, or `0` if there is an
underscore in the text. -/
lemma atoi_of_pyInt (hs : Ascii s) (h : py.pyInt s = some i) (hi : 0 ≤ i) (hi' : i ≤ 5) :
    atoi (bytes s) = if '_' ∈ s then 0 else i := by
  obtain ⟨negative, u, d, hsign, hd, hne, hdigits, hval⟩ := pyInt_eq_some hs h
  obtain ⟨w, hw, hspace⟩ := exists_strip s
  obtain ⟨rest, hrest, hiff⟩ := withoutUnderscores_start hd hdigits
  have hstrip : strip s ≠ [] := by
    intro hnil
    rw [hnil] at hsign
    obtain ⟨-, rfl⟩ := Prod.mk.inj hsign
    exact hne (Option.some.inj hd).symm
  have hunder : '_' ∈ s ↔ rest ≠ [] := by
    rw [ne_eq, hiff, not_not, ← underscore_mem_splitSign, hsign]
  have hsmall : digitsVal d ≤ 5 := by
    cases negative <;> simp only [Bool.false_eq_true, if_true, if_false] at hval <;> omega
  rw [atoi, strtol_bytes hs, hw, splitSign_append hstrip, hsign]
  simp only
  rw [takeWhile_isDigit_append hspace]
  by_cases hmem : '_' ∈ s
  · have hle := digitsVal_append_le (s := u.takeWhile Char.isDigit) (hunder.mp hmem)
    rw [← hrest] at hle
    rw [if_pos hmem, show digitsVal (u.takeWhile Char.isDigit) = 0 by omega]
    cases negative <;> rfl
  · obtain rfl : rest = [] := not_not.mp (mt hunder.mpr hmem)
    rw [List.append_nil] at hrest
    rw [if_neg hmem, ← hrest, hval]
    cases negative with
    | true =>
      simp only [if_true]
      rw [max_eq_right (by omega)]
      exact Int.bmod_eq_of_le (by omega) (by omega)
    | false =>
      simp only [Bool.false_eq_true, if_false]
      rw [min_eq_right (by omega)]
      exact Int.bmod_eq_of_le (by omega) (by omega)

end Numbers

/-! ## The columns -/

section Columns

variable {py : Runtime} {ver : Fin 6} {v s : Text} {i : ℕ}

/-- A number of a version, with or without underscores. -/
lemma normalizeOfpVerStr_int {n : ℤ} (hv : Ascii v) (hint : py.pyInt v = some n)
    (hkey : versionKey n = some ver) : '.' ∉ v ∧
      normalizeOfpVerStr (bytes v) = if '_' ∈ v then 0 else ((ver : ℕ) : ℤ) := by
  have hchars := fun c hc => pyInt_chars hv hint (c := c) hc
  have hdot : '.' ∉ v := fun hc => absurd (hchars '.' hc) (by decide)
  have hstar : '*' ∉ v := fun hc => absurd (hchars '*' hc) (by decide)
  have hpre : ∀ k, 1 ≤ k → k ≤ 5 → (bytes v).take 3 ≠ versionPrefix k := by
    intro k _ _ heq
    have hmem : UInt8.ofNat '.'.toNat ∈ bytes v :=
      List.mem_of_mem_take (heq ▸ dot_mem_versionPrefix k)
    exact hdot ((mem_bytes hv (by decide)).mp hmem)
  have hhead : (bytes v).head? ≠ some 42 := by
    intro heq
    have hmem : UInt8.ofNat '*'.toNat ∈ bytes v := List.mem_of_mem_head? heq
    exact hstar ((mem_bytes hv (by decide)).mp hmem)
  unfold versionKey at hkey
  split_ifs at hkey with hrange
  obtain rfl := Option.some.inj hkey
  refine ⟨hdot, ?_⟩
  rw [normalizeOfpVerStr_number hpre, if_neg hhead, atoi_of_pyInt hv hint hrange.1 (by omega),
    ofpVerAll]
  by_cases hunder : '_' ∈ v
  · rw [if_pos hunder, if_neg (by decide), if_pos hunder]
  · rw [if_neg hunder, if_neg (by omega), if_neg hunder]
    simp only
    omega

/-- **The version column**: the proxy reads the version that the generator reads, or, for a number
with an underscore, all versions. -/
lemma normalizeOfpVerStr_bytes (hv : Ascii v) (h : ofpNormalizeVersion py v = .ok ver) :
    normalizeOfpVerStr (bytes v) = if '_' ∈ v ∧ '.' ∉ v then 0 else ((ver : ℕ) : ℤ) := by
  have hdotted : ∀ k : ℕ, 1 ≤ k → k ≤ 5 → '.' ∈ v → (bytes v).take 3 = versionPrefix k →
      normalizeOfpVerStr (bytes v) = if '_' ∈ v ∧ '.' ∉ v then 0 else (k : ℤ) := by
    intro k hk hk' hdot hpre
    rw [if_neg fun h => h.2 hdot, normalizeOfpVerStr_start hk hk' hpre]
  have hnumber : ∀ n, py.pyInt v = some n → versionKey n = some ver →
      normalizeOfpVerStr (bytes v) = if '_' ∈ v ∧ '.' ∉ v then 0 else ((ver : ℕ) : ℤ) := by
    intro n hint hkey
    obtain ⟨hdot, hread⟩ := normalizeOfpVerStr_int hv hint hkey
    rw [hread]
    exact if_congr (and_iff_left hdot).symm rfl rfl
  unfold ofpNormalizeVersion at h
  by_cases h₁ : '.' ∈ v ∧ v = text "1.0"
  · rw [if_pos h₁] at h
    obtain rfl := Except.ok.inj h
    exact hdotted 1 (by decide) (by decide) h₁.1 (by rw [h₁.2]; decide +kernel)
  by_cases h₂ : '.' ∈ v ∧ v = text "1.1"
  · rw [if_neg h₁, if_pos h₂] at h
    obtain rfl := Except.ok.inj h
    exact hdotted 2 (by decide) (by decide) h₂.1 (by rw [h₂.2]; decide +kernel)
  by_cases h₃ : '.' ∈ v ∧ v = text "1.2"
  · rw [if_neg h₁, if_neg h₂, if_pos h₃] at h
    obtain rfl := Except.ok.inj h
    exact hdotted 3 (by decide) (by decide) h₃.1 (by rw [h₃.2]; decide +kernel)
  by_cases h₄ : '.' ∈ v ∧ text "1.3" <+: v
  · rw [if_neg h₁, if_neg h₂, if_neg h₃, if_pos h₄] at h
    obtain rfl := Except.ok.inj h
    refine hdotted 4 (by decide) (by decide) h₄.1 ?_
    obtain ⟨t, ht⟩ := h₄.2
    rw [← ht, bytes_append, List.take_left' (by decide)]
    decide +kernel
  by_cases h₅ : '.' ∈ v ∧ v = text "1.4"
  · rw [if_neg h₁, if_neg h₂, if_neg h₃, if_neg h₄, if_pos h₅] at h
    obtain rfl := Except.ok.inj h
    exact hdotted 5 (by decide) (by decide) h₅.1 (by rw [h₅.2]; decide +kernel)
  rw [if_neg h₁, if_neg h₂, if_neg h₃, if_neg h₄, if_neg h₅] at h
  cases hint : py.pyInt v with
  | none =>
    simp only [hint] at h
    split_ifs at h with hstar
    obtain rfl := Except.ok.inj h
    rw [hstar]
    decide +kernel
  | some n =>
    simp only [hint] at h
    cases hkey : versionKey n with
    | none =>
      rw [hkey] at h
      cases h
    | some ver' =>
      rw [hkey] at h
      obtain rfl := Except.ok.inj h
      exact hnumber n hint hkey

/-- A version that is read alike. -/
lemma normalizeOfpVerStr_alike (hv : Ascii v) (h : ofpNormalizeVersion py v = .ok ver)
    (halike : '_' ∈ v → '.' ∈ v ∨ ver = 0) : normalizeOfpVerStr (bytes v) = (ver : ℕ) := by
  rw [normalizeOfpVerStr_bytes hv h]
  split_ifs with hnumber
  · rw [(halike hnumber.1).resolve_left hnumber.2]
    rfl
  · rfl

/-- Both programs have the same names. -/
lemma aliasName_eq : aliasName ver i = ((ofpMsgTypeAliasDict ver).getD i none).map bytes := by
  rw [aliasName, ofpMsgTypeAliasDict]
  generalize ofpMsgAliases.getD ver [] = aliases
  rw [List.getD_eq_getElem?_getD, List.getD_eq_getElem?_getD, List.getElem?_map]
  cases aliases[i]? with
  | none => rfl
  | some name => cases name <;> rfl

/-- The names of the messages are of ASCII characters. -/
lemma alias_ascii {name : Text} (h : some name ∈ ofpMsgTypeAliasDict ver) : Ascii name := by
  have hall : ((List.finRange 6).all fun ver => (ofpMsgTypeAliasDict ver).all fun name =>
      name.all fun s => decide (Ascii s)) = true := by decide +kernel
  have hname := List.all_eq_true.mp (List.all_eq_true.mp hall ver (List.mem_finRange ver)) _ h
  exact of_decide_eq_true hname

/-- A text names the same message in both. -/
lemma names_iff_typeText (hs : Ascii s) : Names ver s i ↔ TypeText ver i (bytes s) := by
  unfold Names TypeText
  rw [aliasName_eq, digits_bytes hs, digitsValue_bytes hs]
  constructor
  · rintro ⟨name, hname, h⟩
    exact ⟨bytes name, by rw [hname]; rfl, h.imp (congrArg bytes) id⟩
  · rintro ⟨_, hname, h⟩
    obtain ⟨name, hget, rfl⟩ := Option.map_eq_some_iff.mp hname
    exact ⟨name, hget, h.imp (bytes_inj hs (alias_ascii (mem_of_getD hget).2)).mp id⟩

/-- Of the texts of ASCII characters, `isdigit` takes those of digits. -/
lemma strIsDigit_iff (hs : Ascii s) : py.strIsDigit s = true ↔ AsciiDigits s := by
  refine ⟨fun h => ?_, py.strIsDigit_digits⟩
  simp only [Runtime.strIsDigit, Bool.and_eq_true, Bool.not_eq_true', List.isEmpty_eq_false_iff,
    List.all_eq_true] at h
  exact ⟨h.1, fun c hc => by
    rw [← py.isDigit_ascii c ((hs c hc).2.trans (by decide))]
    exact h.2 c hc⟩

/-- `atoi` of a string of digits is `0` if the number is, up to 32 bits. -/
lemma atoi_eq_zero_iff (hs : Ascii s) (hdigits : AsciiDigits s) :
    atoi (bytes s) = 0 ↔ 4294967296 ∣ digitsVal s ∧ digitsVal s < 9223372036854775808 := by
  obtain ⟨w, hw, hspace⟩ := exists_strip s
  have htake : s.takeWhile Char.isDigit = s := List.takeWhile_eq_self_iff.mpr hdigits.2
  have hstrtol : strtol (bytes s) = min 9223372036854775807 (digitsVal s : ℤ) := by
    rw [strtol_bytes hs, hw, strip_digits hdigits, splitSign_append hdigits.1,
      splitSign_digits hdigits]
    simp only [Bool.false_eq_true, if_false]
    rw [takeWhile_isDigit_append hspace, htake]
  rw [atoi, hstrtol, ← Int.dvd_iff_bmod_eq_zero]
  omega

/-- A number is read as message type `0` if `atoi` gives `0`. -/
lemma normalizeOfpMsgTypeChecked_zero {s : List UInt8} (hint : isInt s = true) (h : atoi s = 0) :
    normalizeOfpMsgTypeChecked ver s = .ok 0 := by
  have hhello : ∀ ver : Fin 6, 0 < (ofpMsgAliases.getD ver []).length ∧
      aliasName ver 0 ≠ none := by decide +kernel
  obtain ⟨hpos, hname⟩ := hhello ver
  rw [normalizeOfpMsgTypeChecked_number hint, h, if_neg (by omega), if_pos (by omega),
    Int.toNat_zero, if_neg hname]

/-- No other number is. -/
lemma atoi_of_checked_zero {s : List UInt8} {t : ℤ} (hint : isInt s = true)
    (h : normalizeOfpMsgTypeChecked ver s = .ok t) (ht : t = ofpMsgTypeAll ∨ t = 0) :
    atoi s = 0 := by
  rw [normalizeOfpMsgTypeChecked_number hint] at h
  unfold ofpMsgTypeAll at ht
  unfold ofpMsgTypeErr at h
  split_ifs at h with hrange hlt hnone
  · have := Except.ok.inj h
    omega
  · have := Except.ok.inj h
    omega
  · have := Except.ok.inj h
    omega

/-- **The message type column**, with the version that the generator reads: both read a name, a
number of a message and `'*'` alike. -/
lemma msgTypeColumn_bytes {t : Checked ℤ} (hs : Ascii s)
    (h : msgTypeColumn py (ofpMsgTypeAliasDict ver) s = .ok t) (hflag : t.hasError = false)
    (hnamed : AsciiDigits s → ∃ i, Names ver s i) :
    normalizeOfpMsgTypeChecked ver (bytes s) = .ok t.value := by
  by_cases hstar : s = text "*"
  · subst hstar
    rw [msgTypeColumn_star] at h
    obtain rfl := Except.ok.inj h
    exact normalizeOfpMsgTypeChecked_star (by decide +kernel)
  have hname : ∃ i, Names ver s i := by
    cases hdigit : py.strIsDigit s with
    | true => exact hnamed ((strIsDigit_iff hs).mp hdigit)
    | false =>
      have htaken := typeTaken_of_column h hflag
      rw [TypeTaken, if_neg (by rw [hdigit]; exact Bool.false_ne_true)] at htaken
      exact (names_iff_mem hdigit).mpr (htaken.resolve_right hstar)
  obtain ⟨i, hi⟩ := hname
  obtain ⟨j, hj, hnames⟩ := msgTypeColumn_names hi h
  rw [hj]
  exact ((names_iff_typeText hs).mp hnames).read

/-- The generator takes a number that is none of a message for `0`. -/
lemma msgTypeColumn_unnamed {t : Checked ℤ} (hdigits : AsciiDigits s)
    (h : msgTypeColumn py (ofpMsgTypeAliasDict ver) s = .ok t) (hname : ¬ ∃ i, Names ver s i) :
    t.value = 0 := by
  have hdigit := py.strIsDigit_digits hdigits
  unfold msgTypeColumn at h
  rw [if_pos hdigit, py.pyInt_digits hdigits] at h
  split_ifs at h with hlen
  simp only at h
  split_ifs at h with hbad
  · exact congrArg Checked.value (Except.ok.inj h).symm
  · rw [not_or, not_or, Int.toNat_natCast] at hbad
    exact absurd ((names_iff_number hdigits).mpr (Option.isSome_iff_ne_none.mpr hbad.2.2)) hname

end Columns

/-! ## The rows -/

section Rows

variable {py : Runtime} {row : List Text} {r : Row} {ver : Fin 6} {a : Action}

/-- The row is for the messages of version `v + 1` and type `z` in the proxy: `attacker_add_rule`
takes its version and its message type, and these are for them. -/
def Row.ForProxy (r : Row) (v : Fin 5) (z : Fin 35) : Prop :=
  ∃ (ver : Fin 6) (t : ℤ), normalizeOfpVerStr (bytes r.version) = (ver : ℕ) ∧
    normalizeOfpMsgTypeChecked ver (bytes r.msgType) = .ok t ∧ Covers (ver : ℕ) t v z

/-- The action is for the messages of version `v + 1` and type `z` in the generator: one of its
cells, which are written for a `DROP` row, is what `should_drop_msg` looks at for them, the cell of
the version or that of all versions. -/
def Action.Reaches (a : Action) (v : Fin 5) (z : Fin 35) : Prop :=
  ∃ ver : Fin 6, ((ver : ℕ) = v + 1 ∨ (ver : ℕ) = 0) ∧ (cellIndex (ver, z) : ℤ) ∈ a.cells

/-- The texts that both programs read alike: no number of a version with an underscore, other than
`0`, and no number that is none of a message, unless it is `0` up to 32 bits. -/
structure Row.ReadAlike (r : Row) (ver : Fin 6) : Prop where
  version : '_' ∈ r.version → '.' ∈ r.version ∨ ver = 0
  msgType : AsciiDigits r.msgType → (∃ i, Names ver r.msgType i) ∨
    4294967296 ∣ digitsVal r.msgType ∧ digitsVal r.msgType < 9223372036854775808

/-- The messages that an action is for, by its version and its type. -/
lemma reaches_iff (h : (parseRow py row).2 = .ok (some a)) (v : Fin 5) (z : Fin 35) :
    a.Reaches v z ↔ (a.targetVer = ofpVerAll ∨ a.targetVer = v + 1) ∧
      (a.targetType = ofpMsgTypeAll ∨ a.targetType = z) := by
  unfold ofpVerAll ofpMsgTypeAll
  constructor
  · rintro ⟨ver, hver, hcell⟩
    obtain ⟨hver', htype⟩ := (mem_cells_iff h).mp hcell
    simp only at hver' htype
    exact ⟨by omega, htype⟩
  · rintro ⟨hver, htype⟩
    have hlt := v.isLt
    refine ⟨⟨a.targetVer.toNat, by omega⟩, ?_, (mem_cells_iff h).mpr ⟨?_, htype⟩⟩
    · simp only
      omega
    · simp only
      omega

/-- The messages that a row is for in the proxy, with the version that it reads. -/
lemma Row.forProxy_iff (h : normalizeOfpVerStr (bytes r.version) = (ver : ℕ)) (v : Fin 5)
    (z : Fin 35) : r.ForProxy v z ↔
      ∃ t, normalizeOfpMsgTypeChecked ver (bytes r.msgType) = .ok t ∧ Covers (ver : ℕ) t v z := by
  constructor
  · rintro ⟨ver', t, hver', ht, hcovers⟩
    obtain rfl : ver = ver' := Fin.ext (by exact_mod_cast h.symm.trans hver')
    exact ⟨t, ht, hcovers⟩
  · rintro ⟨t, ht, hcovers⟩
    exact ⟨ver, t, h, ht, hcovers⟩

/-- An action is for some version. -/
lemma exists_version (ver : Fin 6) :
    ∃ v : Fin 5, ((ver : ℕ) : ℤ) = ofpVerAll ∨ ((ver : ℕ) : ℤ) = v + 1 := by
  by_cases hver : ver = 0
  · exact ⟨0, Or.inl (by rw [hver]; rfl)⟩
  · obtain ⟨v, rfl⟩ := Fin.exists_succ_eq.mpr hver
    exact ⟨v, Or.inr (by rw [Fin.val_succ]; push_cast; rfl)⟩

/-- An action is for some message type. -/
lemma exists_type {t : Checked ℤ} {s : Text}
    (h : msgTypeColumn py (ofpMsgTypeAliasDict ver) s = .ok t) :
    ∃ z : Fin 35, t.value = ofpMsgTypeAll ∨ t.value = z := by
  obtain ⟨hpos, hle⟩ := aliasDict_length ver
  rw [maxTypeValue_eq] at hle
  rcases msgTypeColumn_value h hpos with h | ⟨h, h'⟩
  · exact ⟨0, Or.inl h⟩
  · exact ⟨⟨t.value.toNat, by omega⟩, Or.inr (Int.toNat_of_nonneg h).symm⟩

/-- Texts that are read alike are read as the same version and the same message type. -/
lemma Row.ReadAlike.read {t : Checked ℤ} (h : r.ReadAlike ver)
    (hascii : Ascii r.version ∧ Ascii r.msgType) (hver : ofpNormalizeVersion py r.version = .ok ver)
    (htype : msgTypeColumn py (ofpMsgTypeAliasDict ver) r.msgType = .ok t)
    (hflag : t.hasError = false) : normalizeOfpVerStr (bytes r.version) = (ver : ℕ) ∧
      normalizeOfpMsgTypeChecked ver (bytes r.msgType) = .ok t.value := by
  constructor
  · exact normalizeOfpVerStr_alike hascii.1 hver h.version
  · by_cases hunnamed : AsciiDigits r.msgType ∧ ¬ ∃ i, Names ver r.msgType i
    · obtain ⟨hdigits, hname⟩ := hunnamed
      have hzero := (atoi_eq_zero_iff hascii.2 hdigits).mpr ((h.msgType hdigits).resolve_left hname)
      rw [msgTypeColumn_unnamed hdigits htype hname]
      exact normalizeOfpMsgTypeChecked_zero (isInt_iff.mpr ((digits_bytes hascii.2).mpr hdigits))
        hzero
    · refine msgTypeColumn_bytes hascii.2 htype hflag fun hdigits => ?_
      by_contra hname
      exact hunnamed ⟨hdigits, hname⟩

/-- **For which rows the two programs agree.** Take any row of ASCII characters of which the
generator makes an action. The messages that it is for are the same in the proxy exactly if the
texts of its version and its message type are read alike.

**Proof sketch.** The proxy reads the version of the generator, or all versions
(`normalizeOfpVerStr_bytes`); and the message type of the generator (`msgTypeColumn_bytes`), unless
the generator takes a number for `0` (`msgTypeColumn_unnamed`). There is a message that the action
is for, and in these cases the proxy does not agree about it, or about another version of it. -/
theorem target_agrees_iff (py : Runtime) {row : List Text} {r : Row} {a : Action}
    (hrow : Row.ofColumns row = some r) (ha : (parseRow py row).2 = .ok (some a))
    (hascii : Ascii r.version ∧ Ascii r.msgType) :
    ∃ ver : Fin 6, a.targetVer = (ver : ℕ) ∧
      ((∀ v z, r.ForProxy v z ↔ a.Reaches v z) ↔ r.ReadAlike ver) := by
  have hreaches := reaches_iff ha
  obtain ⟨r', ver, t, hrow', hver, htype, ⟨-, hflag, -⟩, rfl⟩ := parseRow_eq_some_iff.mp ha
  obtain rfl : r = r' := Option.some.inj (hrow.symm.trans hrow')
  refine ⟨ver, rfl, fun hsame => ?_, fun halike v z => ?_⟩
  swap
  · obtain ⟨hread, htype'⟩ := halike.read hascii hver htype hflag
    rw [hreaches, Row.forProxy_iff hread, htype']
    simp only [Except.ok.injEq, exists_eq_left']
    rfl
  have hversion : '_' ∈ r.version → '.' ∈ r.version ∨ ver = 0 := by
    intro hunder
    by_contra hno
    rw [not_or] at hno
    have hall : normalizeOfpVerStr (bytes r.version) = ((0 : Fin 6) : ℕ) := by
      rw [normalizeOfpVerStr_bytes hascii.1 hver, if_pos ⟨hunder, hno.1⟩]
      rfl
    -- what the action is for in its version, the row is for in the proxy in all versions
    obtain ⟨v, hv⟩ := exists_version ver
    obtain ⟨z, hz⟩ := exists_type htype
    obtain ⟨t', ht', hcovers⟩ := (Row.forProxy_iff hall v z).mp
      ((hsame v z).mpr ((hreaches v z).mpr ⟨hv, hz⟩))
    obtain ⟨v', hne⟩ := exists_ne v
    obtain ⟨hv', -⟩ := (hreaches v' z).mp ((hsame v' z).mp
      ((Row.forProxy_iff hall v' z).mpr ⟨t', ht', Or.inl rfl, hcovers.2⟩))
    change ((ver : ℕ) : ℤ) = 0 ∨ ((ver : ℕ) : ℤ) = v' + 1 at hv'
    unfold ofpVerAll at hv
    have hver₀ : (ver : ℕ) ≠ 0 := fun h => hno.2 (Fin.ext h)
    exact hne (Fin.ext (by omega))
  refine ⟨hversion, fun hdigits => ?_⟩
  by_contra hno
  rw [not_or, ← atoi_eq_zero_iff hascii.2 hdigits] at hno
  obtain ⟨hname, hzero⟩ := hno
  obtain ⟨v, hv⟩ := exists_version ver
  have hvalue : t.value = 0 := msgTypeColumn_unnamed hdigits htype hname
  obtain ⟨t', ht', -, hcovers⟩ :=
    (Row.forProxy_iff (normalizeOfpVerStr_alike hascii.1 hver hversion) v 0).mp
      ((hsame v 0).mpr ((hreaches v 0).mpr ⟨hv, Or.inr hvalue⟩))
  exact hzero (atoi_of_checked_zero (isInt_iff.mpr ((digits_bytes hascii.2).mpr hdigits)) ht'
    hcovers)

end Rows

/-- A row that both programs take for the messages of version `1.3` and type `PacketIn`. -/
theorem target_agrees_packetIn : ∃ row r a, row = [text "-1", text "-1", text "-1", text "1.3",
      text "PacketIn", text "", text "DROP", text "p=0.5"] ∧
    Row.ofColumns row = some r ∧ (parseRow asciiRuntime row).2 = .ok (some a) ∧
    (∀ v z, r.ForProxy v z ↔ a.Reaches v z) ∧
    ∀ v z, a.Reaches v z ↔ (v : ℕ) = 3 ∧ (z : ℕ) = 10 := by
  obtain ⟨r, hr⟩ : ∃ r : Row, r = ⟨text "-1", text "-1", text "-1", text "1.3", text "PacketIn",
    text "", text "DROP", text "p=0.5"⟩ := ⟨_, rfl⟩
  have hrow : Row.ofColumns [text "-1", text "-1", text "-1", text "1.3", text "PacketIn",
      text "", text "DROP", text "p=0.5"] = some r := by
    rw [hr]
    rfl
  have hparse : (parseRow asciiRuntime [text "-1", text "-1", text "-1", text "1.3",
      text "PacketIn", text "", text "DROP", text "p=0.5"]).2 =
        .ok (some (r.toAction asciiRuntime 4 10)) := by
    refine parseRow_eq_some_iff.mpr ⟨r, 4, ⟨10, [], false⟩, hrow, ?_, ?_, ⟨?_, rfl, ?_⟩, rfl⟩
    · rw [hr]
      decide +kernel
    · rw [hr]
      decide +kernel
    · rw [hr]
      decide +kernel
    · rw [hr]
      decide +kernel
  have hascii : Ascii r.version ∧ Ascii r.msgType := by
    rw [hr]
    decide +kernel
  obtain ⟨ver, -, hiff⟩ := target_agrees_iff asciiRuntime hrow hparse hascii
  refine ⟨_, r, _, rfl, hrow, hparse, hiff.mpr ⟨?_, ?_⟩, fun v z => ?_⟩
  · rw [hr]
    exact fun h => absurd h (by decide +kernel)
  · rw [hr]
    exact fun h => absurd h (by decide +kernel)
  · rw [reaches_iff hparse]
    change ((4 : ℤ) = 0 ∨ (4 : ℤ) = v + 1) ∧ ((10 : ℤ) = -1 ∨ (10 : ℤ) = z) ↔ _
    omega

end Mproxy.Generator
