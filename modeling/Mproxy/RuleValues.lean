import Mproxy.Flow.Prescribed
import Mproxy.Rules.RowTexts

set_option relaxedAutoImplicit false
set_option autoImplicit false

/-!
# Probabilities and counts

The argument of a `DROP` rule goes through an `int` and a `char` before it is clamped, and that of a
`DUP` rule through an `int` and a `counter_t` before it is decremented and checked. Here is for
which numbers the table gets what the row says.

## Main results

* `Mproxy.drop_clamped_iff` — the numbers that a `DROP` rule clamps.
* `Mproxy.dup_exact_iff` — the numbers that a `DUP` rule stores exactly or refuses.
-/

namespace Mproxy

open Framing

/-! ## Narrowing -/

/-- A decimal literal, with a minus sign or without. -/
def signedLiteral (neg : Bool) (ds : List UInt8) : List UInt8 := if neg then 45 :: ds else ds

/-- The number that a literal stands for. -/
def signedValue (neg : Bool) (ds : List UInt8) : ℤ :=
  if neg then -(digitsValue ds : ℤ) else digitsValue ds

/-- A text of digits that stands for an `int` has its value. -/
lemma typedText_digits {ds : List UInt8} (hds : Digits ds) (h : digitsValue ds ≤ 2147483647) :
    typedText ds = .int (digitsValue ds) := by
  have h₀ := (isFloat_eq_zero_iff ds).mpr hds
  rw [typedText, if_neg (by rw [h₀]; decide), if_pos h₀, atoi_digits hds h]

/-- A minus sign makes a string of a number. -/
lemma typedText_minus (ds : List UInt8) : typedText (45 :: ds) = .str 0 := by
  have hneg : isFloat (45 :: ds) = -1 := by
    rw [isFloat, if_neg (List.cons_ne_nil 45 ds), isFloatLoop, if_neg (by decide),
      if_neg (by decide)]
  rw [typedText, if_neg (by rw [hneg]; decide), if_neg (by rw [hneg]; decide)]

/-- The probability of an integer argument. -/
lemma dropProb_int (i : ℤ) :
    (dropProb (some (.int i))).toInt = max 0 (min (i.bmod 256) 100) := by
  have hbmod : (intToChar i).toInt = i.bmod 256 := Int8.toInt_ofInt
  have h0 : (0 : Int8).toInt = 0 := rfl
  have h100 : (100 : Int8).toInt = 100 := rfl
  unfold dropProb
  simp only
  split_ifs with hlow hhigh
  · rw [Int8.lt_iff_toInt_lt, hbmod, h0] at hlow
    rw [h0]
    omega
  · rw [gt_iff_lt, Int8.lt_iff_toInt_lt, hbmod, h100] at hhigh
    rw [h100]
    omega
  · rw [Int8.lt_iff_toInt_lt, hbmod, h0] at hlow
    rw [gt_iff_lt, Int8.lt_iff_toInt_lt, hbmod, h100] at hhigh
    rw [hbmod]
    omega

/-- The clamp comes too late for a number that does not fit a `char`, unless what is left of the
number is clamped to the same. -/
lemma clamp_bmod_iff {n : ℤ} (h : 0 ≤ n) :
    max 0 (min (n.bmod 256) 100) = max 0 (min n 100) ↔
      n ≤ 127 ∨ 100 ≤ n % 256 ∧ n % 256 ≤ 127 := by
  rw [Int.bmod_def]
  split_ifs <;> omega

/-- The count of an integer argument. -/
lemma dupCountOf_int (n : ℕ) : (dupCountOf (some (.int n))).toNat = (n % 256 + 255) % 256 := by
  have hcounter : (intToCounter n).toNat = n % 256 := by
    unfold intToCounter
    rw [UInt8.toNat_ofNat']
    omega
  change (intToCounter n - 1).toNat = _
  rw [UInt8.toNat_sub, hcounter]
  have h1 : (1 : UInt8).toNat = 1 := rfl
  rw [h1]
  omega

/-! ## Drop probabilities -/

/-- Of the first `n` numbers, `k` are below `k`. -/
lemma countP_range_lt {k n : ℕ} (h : k ≤ n) :
    (List.range n).countP (fun r => decide (r < k)) = k := by
  obtain ⟨j, rfl⟩ := Nat.exists_eq_add_of_le h
  have hlow : (List.range k).countP (fun r => decide (r < k)) = k := by
    rw [List.countP_eq_length.mpr fun r hr => decide_eq_true (List.mem_range.mp hr),
      List.length_range]
  have hhigh : ((List.range j).map (k + ·)).countP (fun r => decide (r < k)) = 0 := by
    refine List.countP_eq_zero.mpr fun r hr => ?_
    obtain ⟨i, -, rfl⟩ := List.mem_map.mp hr
    simp
  rw [List.range_add, List.countP_append, hlow, hhigh, Nat.add_zero]

/-- A drop cell that is a percentage drops a message for that many of the residues of `rand()`. -/
lemma countP_drops {T : Tables} {v : Fin 5} {t : Fin 35} (h₀ : 0 ≤ (T.drop v t).toInt)
    (h₁ : (T.drop v t).toInt ≤ 100) :
    (((List.range 100).countP fun r => decide (T.drops v t r) : ℕ) : ℤ) = (T.drop v t).toInt := by
  have hcell := charToUnsigned_of_nonneg h₀
  have hiff : ∀ r ∈ List.range 100, decide (T.drops v t r) = true ↔
      decide (r < charToUnsigned (T.drop v t)) = true := by
    intro r hr
    have hlt := List.mem_range.mp hr
    rw [decide_eq_true_iff, decide_eq_true_iff, Tables.drops, Nat.mod_eq_of_lt hlt]
    refine ⟨fun h => h.2, fun h => ⟨fun hzero => ?_, h⟩⟩
    rw [charToUnsigned_eq_zero.mpr hzero] at h
    exact absurd h (Nat.not_lt_zero r)
  rw [List.countP_congr hiff, countP_range_lt (by omega), hcell]

section Drop

variable {past : Past} {c : RowCall}

/-- **The numbers that a `DROP` rule clamps.** For every table state and every valid `DROP` row
whose first argument named `p` is a decimal literal for an `int`: the call returns `0` and changes
nothing but the covered cells of the drop table. They all hold the number, clamped to `0` to `100`,
and drop messages for that many residues of `rand()`, exactly if the literal has no minus sign, and
is at most `127` or leaves `100` to `127` modulo `256`.

**Proof sketch.** With a minus sign `is_float` takes the literal for a string, and the probability
stays at its default of `100`. Without one it is narrowed to a `char` before it is clamped. -/
theorem drop_clamped_iff (row : ValidRow past c)
    (hact : normalizeActionType row.action = actionIdDrop)
    (neg : Bool) (ds : List UInt8) (hds : Digits ds)
    (hint : -2147483648 ≤ signedValue neg ds ∧ signedValue neg ds ≤ 2147483647)
    (hp : argIn row.args (cstr "p") = some ⟨cstr "p", some (signedLiteral neg ds)⟩) (T : Tables) :
    ∃ T' m', attackerAddRule past T c.mem c.data c.len = .ok (0, T', m') ∧ T'.dup = T.dup ∧
      (∀ v t, ¬ Covers row.ofpVer row.ofpType v t → T'.drop v t = T.drop v t) ∧
      ((∀ v t, Covers row.ofpVer row.ofpType v t →
          (T'.drop v t).toInt = max 0 (min (signedValue neg ds) 100) ∧
          (((List.range 100).countP fun r => decide (T'.drops v t r) : ℕ) : ℤ) =
            max 0 (min (signedValue neg ds) 100)) ↔
        neg = false ∧ (signedValue neg ds ≤ 127 ∨
          100 ≤ signedValue neg ds % 256 ∧ signedValue neg ds % 256 ≤ 127)) := by
  obtain ⟨m', hmeans⟩ := row.means_drop hact
  have hadd := attackerAddRule_eq T hmeans row.type_known
  rw [if_neg (by simp)] at hadd
  refine ⟨_, m', hadd, rfl, fun v t hcov => if_neg hcov, ?_⟩
  set prob := dropProb ((argIn row.args (cstr "p")).map Arg.typed) with hprob
  obtain ⟨hlow, hhigh⟩ := dropProb_percent ((argIn row.args (cstr "p")).map Arg.typed)
  rw [← hprob] at hlow hhigh
  -- every covered cell holds the probability of the row
  have hcells : (∀ v t, Covers row.ofpVer row.ofpType v t →
      ((T.apply (.drop row.ofpVer row.ofpType prob)).drop v t).toInt =
          max 0 (min (signedValue neg ds) 100) ∧
        (((List.range 100).countP fun r =>
            decide ((T.apply (.drop row.ofpVer row.ofpType prob)).drops v t r) : ℕ) : ℤ) =
          max 0 (min (signedValue neg ds) 100)) ↔
      prob.toInt = max 0 (min (signedValue neg ds) 100) := by
    have hcell : ∀ v t, Covers row.ofpVer row.ofpType v t →
        (T.apply (.drop row.ofpVer row.ofpType prob)).drop v t = prob := fun v t hcov => if_pos hcov
    constructor
    · intro h
      obtain ⟨v, t, hcov⟩ := row.exists_covers
      rw [← hcell v t hcov]
      exact (h v t hcov).1
    · intro h v t hcov
      refine ⟨by rw [hcell v t hcov, h], ?_⟩
      rw [countP_drops (by rw [hcell v t hcov]; exact hlow) (by rw [hcell v t hcov]; exact hhigh),
        hcell v t hcov, h]
  rw [hcells, hprob, hp, Option.map_some, Arg.typed, Option.map_some, Option.getD_some]
  cases neg with
  | true =>
    have h100 : (dropProb (some (.str 0))).toInt = 100 := by decide
    rw [show signedLiteral true ds = 45 :: ds from rfl, typedText_minus, h100]
    have hval : signedValue true ds ≤ 0 := by simp [signedValue]
    refine iff_of_false (by omega) fun h => absurd h.1 (by decide)
  | false =>
    have hval : signedValue false ds = digitsValue ds := rfl
    rw [hval] at hint ⊢
    rw [show signedLiteral false ds = ds from rfl, typedText_digits hds (by omega), dropProb_int,
      clamp_bmod_iff (Int.natCast_nonneg _)]
    exact (and_iff_right rfl).symm

/-- `p=120` is clamped. -/
theorem drop_clamped_hello :
    ∃ T' m' c, c = RowCall.alone "1,1,*,1.0,Hello,*,DROP,p=120" ∧
      attackerAddRule (fun _ _ => none) Tables.zero c.mem c.data c.len = .ok (0, T', m') ∧
      (T'.drop 0 0).toInt = 100 := by
  let row : ValidRow (fun _ _ => none) (.alone "1,1,*,1.0,Hello,*,DROP,p=120") :=
    { version := cstr "1.0"
      msgType := cstr "Hello"
      action := cstr "DROP"
      args := cstr "p=120"
      split := RowCall.split_of_eval (by decide +kernel)
      version_known := by decide
      type_known := Or.inr (by decide +kernel)
      args_inOrder :=
        inOrder_single (by decide) ⟨112, by decide, by decide, by decide⟩ (by decide) }
  obtain ⟨T', m', hadd, -, -, hiff⟩ := drop_clamped_iff row (by decide) false (cstr "120")
    (by decide +kernel) (by decide) (by decide +kernel) Tables.zero
  have hcovers : Covers row.ofpVer row.ofpType 0 0 :=
    ⟨Or.inr (by decide), Or.inr (by decide +kernel)⟩
  have hcells := (hiff.mpr ⟨rfl, Or.inl (by decide)⟩ 0 0 hcovers).1
  exact ⟨T', m', _, rfl, hadd, hcells.trans (by decide)⟩

/-- A literal with a minus sign drops everything, and one above `127` may drop nothing. -/
theorem drop_not_clamped :
    ∃ T₁ T₂ m₁ m₂ c₁ c₂, c₁ = RowCall.alone "1,1,*,1.0,Hello,*,DROP,p=-5" ∧
      c₂ = RowCall.alone "1,1,*,1.0,Hello,*,DROP,p=200" ∧
      attackerAddRule (fun _ _ => none) Tables.zero c₁.mem c₁.data c₁.len = .ok (0, T₁, m₁) ∧
      attackerAddRule (fun _ _ => none) Tables.zero c₂.mem c₂.data c₂.len = .ok (0, T₂, m₂) ∧
      T₁.drop 0 0 = 100 ∧ T₂.drop 0 0 = 0 := by
  obtain ⟨T₁, m₁, h₁, hcell₁⟩ := attackerAddRule_of_eval (fun _ _ => none) Tables.zero
    (.alone "1,1,*,1.0,Hello,*,DROP,p=-5") (fun T => T.drop 0 0) 0 100 (by decide +kernel)
  obtain ⟨T₂, m₂, h₂, hcell₂⟩ := attackerAddRule_of_eval (fun _ _ => none) Tables.zero
    (.alone "1,1,*,1.0,Hello,*,DROP,p=200") (fun T => T.drop 0 0) 0 0 (by decide +kernel)
  exact ⟨T₁, T₂, m₁, m₂, _, _, rfl, rfl, h₁, h₂, hcell₁, hcell₂⟩

end Drop

/-! ## Duplicate counts -/

/-- A message of version `1` to `5` and type `0` to `34` that loci accepts and that is not dropped
is delivered once more often than its dup cell says. -/
lemma frameOutput_of_not_drops {L : Loci} {T : Tables} {rand : ℕ} {m : Message L}
    (h : ¬ T.drops m.version m.type rand) :
    frameOutput L T rand (.whole m.bytes) =
      .ok (List.replicate (1 + (T.dup m.version m.type).toNat) m.bytes).flatten := by
  rw [frameOutput, Frame.whole, actionInject_message, if_neg h, Runs.ok_bind]
  simp [sentFor]

/-- The cell makes `n` copies of a message: it holds `n - 1`, and `on_flow_read` delivers a message
of its version and type that is not dropped `n` times. -/
def Tables.Copies (T : Tables) (v : Fin 5) (t : Fin 35) (n : ℕ) : Prop :=
  (T.dup v t).toNat + 1 = n ∧
    ∀ (L : Loci) (m : Message L) (rand : ℕ), m.version = v → m.type = t → ¬ T.drops v t rand →
      frameOutput L T rand (.whole m.bytes) = .ok (List.replicate n m.bytes).flatten

/-- There are `n` copies of a message exactly if the count in its cell is one less. -/
lemma Tables.copies_iff {T : Tables} {v : Fin 5} {t : Fin 35} {n : ℕ} :
    T.Copies v t n ↔ (T.dup v t).toNat + 1 = n := by
  refine ⟨fun h => h.1, fun h => ⟨h, ?_⟩⟩
  rintro L m rand rfl rfl hdrop
  rw [frameOutput_of_not_drops hdrop, Nat.add_comm, h]

/-- A `DUP` rule for `n` copies is exact or refused: below two copies it is refused; from two on it
is stored exactly, or it is refused because one copy less does not fit a `counter_t`. A refused rule
changes nothing. -/
def ExactOrRefused (T T' : Tables) (ret : ℕ) (ofpVer ofpType : ℤ) (n : ℕ) : Prop :=
  if n < 2 then ret = 1 ∧ T' = T
  else (ret = 0 ∧ ∀ v t, Covers ofpVer ofpType v t → T'.Copies v t n) ∨
    255 < n - 1 ∧ ret = 1 ∧ T' = T

section Dup

variable {past : Past} {c : RowCall}

/-- **The numbers that a `DUP` rule stores exactly or refuses.** For every table state and every
valid `DUP` row whose first argument named `r` is a string of digits for an `int`: the call changes
nothing but the covered cells of the dup table. What it does is exact or refused if and only if the
number is from `1` to `256`, or is `1` modulo `256`.

**Proof sketch.** The number is taken modulo `256` before it is decremented, and the rule is refused
if nothing is left. -/
theorem dup_exact_iff (row : ValidRow past c) (hact : normalizeActionType row.action = actionIdDup)
    (ds : List UInt8) (hds : Digits ds) (hint : digitsValue ds ≤ 2147483647)
    (hr : argIn row.args (cstr "r") = some ⟨cstr "r", some ds⟩) (T : Tables) :
    ∃ ret T' m', attackerAddRule past T c.mem c.data c.len = .ok (ret, T', m') ∧
      T'.drop = T.drop ∧ (∀ v t, ¬ Covers row.ofpVer row.ofpType v t → T'.dup v t = T.dup v t) ∧
      (ExactOrRefused T T' ret row.ofpVer row.ofpType (digitsValue ds) ↔
        1 ≤ digitsValue ds ∧ digitsValue ds ≤ 256 ∨ digitsValue ds % 256 = 1) := by
  have hcount := dupCountOf_int (digitsValue ds)
  obtain ⟨m', hmeans⟩ := row.means_dup hact
  rw [hr, Option.map_some, Arg.typed, Option.map_some, Option.getD_some,
    typedText_digits hds hint] at hmeans
  generalize dupCountOf (some (.int (digitsValue ds))) = count at hcount hmeans
  generalize digitsValue ds = n at hcount ⊢
  by_cases hlt : count < 1
  · -- nothing is left of the number
    rw [if_pos hlt] at hmeans
    rw [UInt8.lt_iff_toNat_lt, hcount] at hlt
    have h1 : (1 : UInt8).toNat = 1 := rfl
    have hadd := attackerAddRule_eq T hmeans trivial
    rw [if_pos rfl] at hadd
    refine ⟨1, _, m', hadd, rfl, fun v t _ => rfl, ?_⟩
    unfold ExactOrRefused
    rw [Tables.apply_refused]
    split_ifs with hn
    · exact iff_of_true ⟨rfl, rfl⟩ (by omega)
    · exact iff_of_true (Or.inr ⟨by omega, rfl, rfl⟩) (by omega)
  · rw [if_neg hlt] at hmeans
    rw [UInt8.lt_iff_toNat_lt, hcount] at hlt
    have h1 : (1 : UInt8).toNat = 1 := rfl
    have hadd := attackerAddRule_eq T hmeans row.type_known
    rw [if_neg (by simp)] at hadd
    refine ⟨0, _, m', hadd, rfl, fun v t hcov => if_neg hcov, ?_⟩
    have hcell : ∀ v t, Covers row.ofpVer row.ofpType v t →
        (T.apply (.dup row.ofpVer row.ofpType count)).dup v t = count := fun v t hcov => if_pos hcov
    unfold ExactOrRefused
    split_ifs with hn
    · exact iff_of_false (fun h => absurd h.1 (by decide)) (by omega)
    · constructor
      · rintro (⟨-, h⟩ | ⟨-, h, -⟩)
        · obtain ⟨v, t, hcov⟩ := row.exists_covers
          have := (h v t hcov).1
          rw [hcell v t hcov, hcount] at this
          omega
        · exact absurd h (by decide)
      · intro h
        refine Or.inl ⟨rfl, fun v t hcov => Tables.copies_iff.mpr ?_⟩
        rw [hcell v t hcov, hcount]
        omega

/-- `r=3` is stored as two more copies. -/
theorem dup_exact_hello :
    ∃ T' m' c, c = RowCall.alone "1,1,*,1.0,Hello,*,DUP,r=3" ∧
      attackerAddRule (fun _ _ => none) Tables.zero c.mem c.data c.len = .ok (0, T', m') ∧
      T'.Copies 0 0 3 := by
  let row : ValidRow (fun _ _ => none) (.alone "1,1,*,1.0,Hello,*,DUP,r=3") :=
    { version := cstr "1.0"
      msgType := cstr "Hello"
      action := cstr "DUP"
      args := cstr "r=3"
      split := RowCall.split_of_eval (by decide +kernel)
      version_known := by decide
      type_known := Or.inr (by decide +kernel)
      args_inOrder :=
        inOrder_single (by decide) ⟨114, by decide, by decide, by decide⟩ (by decide) }
  obtain ⟨ret, T', m', hadd, -, -, hiff⟩ := dup_exact_iff row (by decide) (cstr "3")
    (by decide +kernel) (by decide) (by decide +kernel) Tables.zero
  have hthree : digitsValue (cstr "3") = 3 := by decide
  rw [hthree, ExactOrRefused, if_neg (by decide)] at hiff
  rcases hiff.mpr (Or.inl (by decide)) with ⟨rfl, h⟩ | ⟨h, -⟩
  · exact ⟨T', m', _, rfl, hadd, h 0 0 ⟨Or.inr (by decide), Or.inr (by decide +kernel)⟩⟩
  · exact absurd h (by decide)

/-- No copies are stored as `255` more, and `258` copies as one more. -/
theorem dup_not_exact :
    ∃ T₁ T₂ m₁ m₂ c₁ c₂, c₁ = RowCall.alone "1,1,*,1.0,Hello,*,DUP,r=0" ∧
      c₂ = RowCall.alone "1,1,*,1.0,Hello,*,DUP,r=258" ∧
      attackerAddRule (fun _ _ => none) Tables.zero c₁.mem c₁.data c₁.len = .ok (0, T₁, m₁) ∧
      attackerAddRule (fun _ _ => none) Tables.zero c₂.mem c₂.data c₂.len = .ok (0, T₂, m₂) ∧
      T₁.dup 0 0 = 255 ∧ T₂.dup 0 0 = 1 := by
  obtain ⟨T₁, m₁, h₁, hcell₁⟩ := attackerAddRule_of_eval (fun _ _ => none) Tables.zero
    (.alone "1,1,*,1.0,Hello,*,DUP,r=0") (fun T => T.dup 0 0) 0 255 (by decide +kernel)
  obtain ⟨T₂, m₂, h₂, hcell₂⟩ := attackerAddRule_of_eval (fun _ _ => none) Tables.zero
    (.alone "1,1,*,1.0,Hello,*,DUP,r=258") (fun T => T.dup 0 0) 0 1 (by decide +kernel)
  exact ⟨T₁, T₂, m₁, m₂, _, _, rfl, rfl, h₁, h₂, hcell₁, hcell₂⟩

end Dup

end Mproxy
