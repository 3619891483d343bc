import Mproxy.Rules.ArgsRun
import Mproxy.Rules.Split

set_option relaxedAutoImplicit false
set_option autoImplicit false

/-!
# The format of the arguments

A list of arguments is written as names and `name=value` pairs with a delimiter between them, and
blanks wherever they do not cut a name or a value apart. `args_parse` gives back what was written.

## Main definitions

* `Mproxy.Word`, `Mproxy.ArgLayout`, `Mproxy.ArgsLayout` — how a list of arguments is written.
* `Mproxy.ArgNode.Says` — what `args.h` promises of the node of an argument.

## Main results

* `Mproxy.isFloat_eq_zero_iff`, `Mproxy.isFloat_eq_one_iff` — the strings `is_float` takes for an
  integer and for a float.
* `Mproxy.argsParse_layout` — `args_parse` inverts the format.
-/

namespace Mproxy

open Memory

/-! ## The type of a value -/

/-- A string of digits. -/
def Digits (v : List UInt8) : Prop := v ≠ [] ∧ ∀ c ∈ v, isDigit c = true

/-- A string of digits with exactly one dot. -/
def DigitsDot (v : List UInt8) : Prop := (∀ c ∈ v, isDigit c = true ∨ c = dot) ∧ v.count dot = 1

instance (v : List UInt8) : Decidable (Digits v) := inferInstanceAs (Decidable (_ ∧ _))

instance (v : List UInt8) : Decidable (DigitsDot v) := inferInstanceAs (Decidable (_ ∧ _))

/-- The loop of `is_float` counts the dots. -/
lemma isFloatLoop_eq (v : List UInt8) (dotCount : ℤ) :
    isFloatLoop v dotCount =
      if (v.all fun c => isDigit c || c == dot) = true ∧ dotCount + v.count dot ≤ 1 then
        dotCount + v.count dot
      else -1 := by
  induction v generalizing dotCount with
  | nil =>
    simp only [isFloatLoop, List.all_nil, true_and, List.count_nil, Nat.cast_zero, add_zero]
    split_ifs <;> first | rfl | omega
  | cons c v ih =>
    rw [isFloatLoop]
    by_cases hdot : c = dot
    · subst hdot
      rw [if_pos rfl, ih, List.count_cons_self]
      have hall : ((dot :: v).all fun c => isDigit c || c == dot) =
          v.all fun c => isDigit c || c == dot := by simp
      have hsum : dotCount + 1 + (v.count dot : ℤ) = dotCount + ((v.count dot + 1 : ℕ) : ℤ) := by
        push_cast
        ring
      simp only [hall, hsum]
    · rw [if_neg hdot, List.count_cons_of_ne hdot]
      by_cases hdigit : isDigit c = true
      · have hall : ((c :: v).all fun d => isDigit d || d == dot) =
            v.all fun d => isDigit d || d == dot := by simp [hdigit]
        rw [if_pos hdigit, ih]
        simp only [hall]
      · rw [if_neg hdigit, if_neg]
        rintro ⟨hall, -⟩
        rw [List.all_cons, Bool.and_eq_true, Bool.or_eq_true, beq_iff_eq] at hall
        rcases hall.1 with h | h
        · exact hdigit h
        · exact hdot h

/-- `is_float` takes exactly the strings of digits for integers. -/
lemma isFloat_eq_zero_iff (v : List UInt8) : isFloat v = 0 ↔ Digits v := by
  unfold isFloat Digits
  by_cases hv : v = []
  · simp [hv]
  rw [if_neg hv, isFloatLoop_eq]
  simp only [hv, zero_add, ne_eq, not_false_eq_true, true_and, List.all_eq_true, Bool.or_eq_true,
    beq_iff_eq]
  constructor
  · intro h
    split_ifs at h with hall
    have hcount : dot ∉ v := List.count_eq_zero.mp (by exact_mod_cast h)
    intro c hc
    exact (hall.1 c hc).resolve_right fun heq => hcount (heq ▸ hc)
  · intro hall
    have hcount : v.count dot = 0 := List.count_eq_zero.mpr fun h => absurd (hall dot h) (by decide)
    rw [if_pos ⟨fun c hc => Or.inl (hall c hc), by rw [hcount]; decide⟩, hcount]
    rfl

/-- `is_float` takes exactly the strings of digits with one dot for floats. -/
lemma isFloat_eq_one_iff (v : List UInt8) : isFloat v = 1 ↔ DigitsDot v := by
  unfold isFloat DigitsDot
  by_cases hv : v = []
  · simp [hv]
  rw [if_neg hv, isFloatLoop_eq]
  simp only [zero_add, List.all_eq_true, Bool.or_eq_true, beq_iff_eq]
  constructor
  · intro h
    split_ifs at h with hall
    exact ⟨hall.1, by exact_mod_cast h⟩
  · rintro ⟨hall, hcount⟩
    rw [if_pos ⟨hall, by rw [hcount]; decide⟩, hcount]
    rfl

/-- A digit is no space and no sign. -/
lemma isDigit_cases {c : UInt8} (h : isDigit c = true) : isSpace c = false ∧ c ≠ 45 ∧ c ≠ 43 := by
  unfold isDigit at h
  unfold isSpace
  simp only [Bool.and_eq_true, decide_eq_true_eq, UInt8.le_iff_toNat_le] at h
  have h48 : (48 : UInt8).toNat = 48 := rfl
  have h57 : (57 : UInt8).toNat = 57 := rfl
  rw [h48, h57] at h
  refine ⟨?_, ?_, ?_⟩
  · simp only [Bool.or_eq_false_iff, beq_eq_false_iff_ne, Bool.and_eq_false_iff,
      decide_eq_false_iff_not, UInt8.le_iff_toNat_le, not_le]
    refine ⟨?_, Or.inr ?_⟩
    · rintro rfl
      exact absurd h.1 (by decide)
    · have h13 : (13 : UInt8).toNat = 13 := rfl
      omega
  · rintro rfl
    exact absurd h.1 (by decide)
  · rintro rfl
    exact absurd h.1 (by decide)

/-- A string of digits stands for its value. -/
lemma strtol_digits {v : List UInt8} (hv : Digits v) (h : digitsValue v ≤ 9223372036854775807) :
    strtol v = digitsValue v := by
  obtain ⟨hne, hall⟩ := hv
  obtain ⟨c, t, rfl⟩ := List.exists_cons_of_ne_nil hne
  obtain ⟨hspace, hminus, hplus⟩ := isDigit_cases (hall c List.mem_cons_self)
  have htake : (c :: t).takeWhile isDigit = c :: t := List.takeWhile_eq_self_iff.mpr hall
  unfold strtol
  rw [List.dropWhile_cons_of_neg (by simp [hspace])]
  simp only
  split
  · exact absurd (List.cons.inj ‹_›).1 hminus
  · exact absurd (List.cons.inj ‹_›).1 hplus
  · rw [htake, if_neg Bool.false_ne_true]
    exact min_eq_right (by exact_mod_cast h)

/-- `atoi` gives the number that a string of digits stands for, if it is an `int`. -/
lemma atoi_digits {v : List UInt8} (hv : Digits v) (h : digitsValue v ≤ 2147483647) :
    atoi v = digitsValue v := by
  rw [atoi, strtol_digits hv (by omega)]
  exact Int.bmod_eq_of_le (by omega) (by omega)

/-! ## How arguments are written -/

/-- A name or a value: it has no blanks at its ends, though it may have some inside. -/
structure Word (d : ArgsDelim) where
  text : List UInt8
  no_nul : nul ∉ text
  no_equals : equalsSign ∉ text
  no_delim : d.val ∉ text
  no_lead : ∃ c ∈ text.head?, isWhitespace c = false
  no_trail : ∃ c ∈ text.getLast?, isWhitespace c = false

/-- Blanks, as many as one likes. -/
abbrev Blanks := { s : List UInt8 // Blank s }

/-- A value with the blanks on both sides of the `=`. -/
structure ValueLayout (d : ArgsDelim) where
  beforeEquals : Blanks
  afterEquals : Blanks
  value : Word d

/-- An argument with the blanks around it. -/
structure ArgLayout (d : ArgsDelim) where
  before : Blanks
  name : Word d
  value : Option (ValueLayout d)
  after : Blanks

/-- A list of arguments, with a delimiter and blanks behind the last one if one likes. There are no
blanks before the first name. -/
structure ArgsLayout (d : ArgsDelim) where
  first : ArgLayout d
  no_lead : first.before.val = []
  others : List (ArgLayout d)
  trailing : Option Blanks

section Layout

variable {d : ArgsDelim}

/-- The bytes of a value with its `=`. -/
def ValueLayout.text (v : ValueLayout d) : List UInt8 :=
  v.beforeEquals.val ++ equalsSign :: (v.afterEquals.val ++ v.value.text)

namespace ArgLayout

variable (p : ArgLayout d)

/-- The bytes of an argument without the blanks before it. -/
def core : List UInt8 :=
  p.name.text ++ ((match p.value with
    | none => []
    | some v => v.text) ++ p.after.val)

/-- The bytes of an argument. -/
def text : List UInt8 := p.before.val ++ p.core

/-- The argument that is written. -/
def arg : Arg := ⟨p.name.text, p.value.map fun v => v.value.text⟩

end ArgLayout

namespace ArgsLayout

variable (l : ArgsLayout d)

/-- The segments behind the first one. -/
def segments : List (List UInt8) :=
  l.others.map ArgLayout.text ++ (l.trailing.map Subtype.val).toList

/-- The string. -/
def text : List UInt8 := argsText d.val l.first.text l.segments

/-- The arguments that are written. -/
def args : List Arg := (l.first :: l.others).map ArgLayout.arg

end ArgsLayout

/-! ## What is written is what is read -/

/-- There is no other character in a blank text. -/
lemma notMem_of_blank {s : List UInt8} {c : UInt8} (hs : Blank s) (hc : isWhitespace c = false) :
    c ∉ s := by
  intro h
  have := hs c h
  rw [hc] at this
  exact Bool.false_ne_true this

/-- Blanks at the end are trimmed. -/
lemma trimEnd_append {s ws : List UInt8} (hs : ∃ c ∈ s.getLast?, isWhitespace c = false)
    (hws : Blank ws) : trimEnd (s ++ ws) = s := by
  obtain ⟨c, hc, hblank⟩ := hs
  obtain ⟨s, rfl⟩ := List.getLast?_eq_some_iff.mp hc
  rw [trimEnd, List.rdropWhile, List.reverse_append,
    List.dropWhile_append_of_pos fun c hc => hws c (List.mem_reverse.mp hc), List.reverse_append,
    List.reverse_singleton, List.singleton_append, List.dropWhile_cons_of_neg (by simp [hblank]),
    List.reverse_cons, List.reverse_reverse]

/-- Inside a token nothing but a `=` counts. -/
lemma foldl_next_token (name : Option (List UInt8)) (token : List UInt8) {s : List UInt8}
    (hs : equalsSign ∉ s) :
    s.foldl ArgScan.next ⟨name, token, false⟩ = ⟨name, token ++ s, false⟩ := by
  induction s generalizing token with
  | nil => rw [List.foldl_nil, List.append_nil]
  | cons c s ih =>
    have hc : c ≠ equalsSign := fun h => hs (h ▸ List.mem_cons_self)
    rw [List.foldl_cons, ArgScan.next, if_neg Bool.false_ne_true, if_neg hc,
      ih _ fun h => hs (List.mem_cons_of_mem c h), List.append_assoc, List.singleton_append]

namespace ArgLayout

variable (p : ArgLayout d)

/-- What is read of an argument. -/
lemma scanOf_core : ∃ token, scanOf p.core = ⟨p.value.map fun _ => p.name.text, token, false⟩ ∧
    trimEnd token = (p.value.map fun v => v.value.text).getD p.name.text := by
  have hblank : ∀ b : Blanks, equalsSign ∉ b.val := fun b => notMem_of_blank b.property rfl
  unfold scanOf core
  cases p.value with
  | none =>
    refine ⟨p.name.text ++ p.after.val, ?_, trimEnd_append p.name.no_trail p.after.property⟩
    rw [List.nil_append, List.foldl_append, foldl_next_token _ _ p.name.no_equals,
      foldl_next_token _ _ (hblank p.after)]
    rfl
  | some v =>
    obtain ⟨c, hc, hfirm⟩ := v.value.no_lead
    obtain ⟨s, hs⟩ := List.head?_eq_some_iff.mp hc
    have hno := v.value.no_equals
    rw [hs] at hno
    refine ⟨v.value.text ++ p.after.val, ?_, trimEnd_append v.value.no_trail p.after.property⟩
    simp only [ValueLayout.text, hs, List.append_assoc, List.cons_append, List.foldl_append,
      List.foldl_cons]
    rw [foldl_next_token _ _ p.name.no_equals, foldl_next_token _ _ (hblank v.beforeEquals)]
    have hequals : ArgScan.next ⟨none, [] ++ p.name.text ++ v.beforeEquals.val, false⟩ equalsSign =
        ⟨some p.name.text, [], true⟩ := by
      rw [ArgScan.next, if_neg Bool.false_ne_true, if_pos rfl]
      simp [trimEnd_append p.name.no_trail v.beforeEquals.property]
    rw [hequals, foldl_next_blank v.afterEquals.property, ArgScan.next, if_pos rfl,
      if_neg (by simp [hfirm]), foldl_next_token _ _ fun h => hno (List.mem_cons_of_mem c h),
      foldl_next_token _ _ (hblank p.after)]
    simp

/-- The bytes of an argument stand for it. -/
lemma argOf_core : argOf p.core = p.arg := by
  obtain ⟨token, hscan, htrim⟩ := p.scanOf_core
  rw [argOf, hscan, ArgScan.arg, arg]
  cases hvalue : p.value with
  | none =>
    rw [hvalue] at htrim
    simp only [Option.map_none] at htrim ⊢
    rw [htrim, Option.getD_none]
  | some v =>
    rw [hvalue] at htrim
    simp only [Option.map_some] at htrim ⊢
    rw [htrim, Option.getD_some]

/-- They do not end behind a `=`. -/
lemma not_openEnd_core : ¬ OpenEnd p.core := by
  obtain ⟨token, hscan, -⟩ := p.scanOf_core
  rw [OpenEnd, hscan]
  exact Bool.false_ne_true

/-- They start with a character of the name. -/
lemma firm_core : Firm p.core := by
  obtain ⟨c, hc, hfirm⟩ := p.name.no_lead
  refine ⟨c, List.mem_head?_append_of_mem_head? hc, hfirm, ?_⟩
  rintro rfl
  exact p.name.no_equals (List.mem_of_mem_head? hc)

/-- The blanks before an argument are those that are skipped. -/
lemma lead_text : lead p.text = p.before.val ∧ body p.text = p.core := by
  obtain ⟨c, hc, hfirm, -⟩ := p.firm_core
  obtain ⟨s, hs⟩ := List.head?_eq_some_iff.mp hc
  rw [text, hs]
  exact Padded.lead_of_head p.before.property hfirm

/-- There is no delimiter in an argument, and no terminator. -/
lemma notMem_text : d.val ∉ p.text ∧ nul ∉ p.text := by
  have hblank : ∀ b : Blanks, d.val ∉ b.val ∧ nul ∉ b.val := fun b =>
    ⟨notMem_of_blank b.property d.not_blank, notMem_of_blank b.property rfl⟩
  have hnul : nul ≠ equalsSign := by decide
  unfold text core
  cases p.value with
  | none =>
    simp [hblank, p.name.no_delim, p.name.no_nul]
  | some v =>
    simp [ValueLayout.text, hblank, p.name.no_delim, p.name.no_nul, v.value.no_delim,
      v.value.no_nul, d.ne_equals, hnul]

end ArgLayout

namespace ArgsLayout

variable (l : ArgsLayout d)

/-- A node is made of every segment with an argument in it, and of no other. -/
lemma yielding_segments (others : List (ArgLayout d)) (trailing : Option Blanks) :
    yielding (others.map ArgLayout.text ++ (trailing.map Subtype.val).toList) =
      others.map ArgLayout.text := by
  induction others with
  | nil =>
    cases trailing with
    | none => rfl
    | some b =>
      have hbody : body b.val = [] := List.dropWhile_eq_nil_iff.mpr b.property
      simp [yielding, hbody]
  | cons p others ih =>
    obtain ⟨c, hc, -⟩ := p.firm_core
    have hbody : body p.text ≠ [] := by
      intro h
      rw [p.lead_text.2] at h
      rw [h] at hc
      cases hc
    rw [List.map_cons, List.cons_append, yielding, if_neg fun h => hbody h.2, ih]

/-- The first argument has no blanks before it. -/
lemma text_first : l.first.text = l.first.core := by
  rw [ArgLayout.text, l.no_lead, List.nil_append]

/-- The string starts with the first name. -/
lemma exists_text : ∃ c t, l.text = c :: t ∧ isWhitespace c = false := by
  obtain ⟨R, htext, -⟩ := argsText_split d l.first.text l.segments
  obtain ⟨c, hc, hfirm, -⟩ := l.first.firm_core
  obtain ⟨t, ht⟩ := List.head?_eq_some_iff.mp hc
  exact ⟨c, t ++ R, by rw [text, htext, l.text_first, ht, List.cons_append], hfirm⟩

/-- What the segments of a list say is what was written. -/
lemma argsOf_segments : argsOf (l.first.text :: l.segments) = l.args := by
  rw [argsOf, segments, yielding_segments, l.text_first, l.first.argOf_core, args, List.map_cons,
    List.map_map]
  refine congrArg _ (List.map_congr_left fun p _ => ?_)
  rw [Function.comp_apply, p.lead_text.2, p.argOf_core]

/-- The segments of a layout are in good order. -/
lemma segmented_segments : Segmented (l.first.text :: l.segments) := by
  refine ⟨by rw [l.text_first]; exact l.first.not_openEnd_core, fun u hu => ?_⟩
  rw [segments, yielding_segments] at hu
  obtain ⟨p, -, rfl⟩ := List.mem_map.mp hu
  rw [p.lead_text.2]
  exact ⟨p.not_openEnd_core, Or.inr p.firm_core⟩

/-- There is no delimiter in a segment, and no terminator. -/
lemma notMem_segments : ∀ s ∈ l.first.text :: l.segments, d.val ∉ s ∧ nul ∉ s := by
  intro s hs
  rcases List.mem_cons.mp hs with rfl | hs
  · exact l.first.notMem_text
  · rcases List.mem_append.mp hs with hs | hs
    · obtain ⟨p, -, rfl⟩ := List.mem_map.mp hs
      exact p.notMem_text
    · obtain ⟨b, -, rfl⟩ := Option.map_eq_some_iff.mp (Option.mem_toList.mp hs)
      exact ⟨notMem_of_blank b.property d.not_blank, notMem_of_blank b.property rfl⟩

end ArgsLayout

/-! ## What is promised of a node -/

/-- What `args.h` promises of the node of an argument: its name, and the type and value that the
text of the value stands for. -/
def ArgNode.Says (m : List UInt8) (node : ArgNode) (a : Arg) : Prop :=
  cstring m node.name = some a.name ∧
    match a.value with
    | none => node.value = .noval
    | some v =>
      if Digits v then
        ∃ i, node.value = .int i ∧ (digitsValue v ≤ 2147483647 → i = digitsValue v)
      else if DigitsDot v then node.value = .float (atof v)
      else ∃ p, node.value = .str p ∧ cstring m p = some v

/-- A node that stands for an argument says what is promised. -/
lemma ArgNode.Is.says {m : List UInt8} {node : ArgNode} {a : Arg} (h : node.Is m a) :
    node.Says m a := by
  obtain ⟨name, value⟩ := node
  obtain ⟨aname, avalue⟩ := a
  obtain ⟨hname, hvalue⟩ := h
  refine ⟨hname, ?_⟩
  cases avalue with
  | none => exact hvalue
  | some v =>
    simp only at hvalue ⊢
    split_ifs with hdigits hdot
    · have h₀ := (isFloat_eq_zero_iff v).mpr hdigits
      cases value with
      | noval => exact hvalue.elim
      | int i => exact ⟨i, rfl, fun hle => by rw [hvalue.2, atoi_digits hdigits hle]⟩
      | float f => exact absurd (h₀.symm.trans hvalue.1) (by decide)
      | str p => exact absurd h₀ hvalue.1
    · have h₁ := (isFloat_eq_one_iff v).mpr hdot
      cases value with
      | noval => exact hvalue.elim
      | int i => exact absurd (h₁.symm.trans hvalue.1) (by decide)
      | float f => rw [hvalue.2]
      | str p => exact absurd h₁ hvalue.2.1
    · cases value with
      | noval => exact hvalue.elim
      | int i => exact absurd ((isFloat_eq_zero_iff v).mp hvalue.1) hdigits
      | float f => exact absurd ((isFloat_eq_one_iff v).mp hvalue.1) hdot
      | str p => exact ⟨p, rfl, hvalue.2.2⟩

/-- `args_find` returns the first node with the name, if there is one. -/
lemma argsFind_eq {m : List UInt8} {nodes : List ArgNode} {args : List Arg}
    (h : List.Forall₂ (ArgNode.Is m) nodes args) (name : List UInt8) :
    argsFind m nodes name =
      some (nodes.find? fun node => decide (cstring m node.name = some name)) := by
  induction h with
  | nil => rfl
  | @cons node a nodes args hnode _ ih =>
    rw [argsFind, hnode.1, List.find?_cons]
    by_cases hname : a.name = name
    · simp [hname, hnode.1]
    · simp [hname, hnode.1, ih]

/-- The node that is found stands for the first argument with the name. -/
lemma find_rel {m : List UInt8} {nodes : List ArgNode} {args : List Arg}
    (h : List.Forall₂ (ArgNode.Is m) nodes args) (name : List UInt8) :
    Option.Rel (ArgNode.Is m) (nodes.find? fun node => decide (cstring m node.name = some name))
      (args.find? fun a => decide (a.name = name)) := by
  induction h with
  | nil => exact .none
  | @cons node a nodes args hnode _ ih =>
    rw [List.find?_cons, List.find?_cons]
    by_cases hname : a.name = name
    · simpa [hname, hnode.1] using Option.Rel.some hnode
    · simpa [hname, hnode.1] using ih

/-- What is parsed of a list of arguments that is written in the format. -/
lemma argsParse_layout_is (l : ArgsLayout d) (A B : List UInt8) :
    ∃ S nodes, S.length = l.text.length ∧
      argsParse (A ++ (l.text ++ nul :: B)) A.length d.val = some (A ++ (S ++ nul :: B), nodes) ∧
      List.Forall₂ (ArgNode.Is (A ++ (S ++ nul :: B))) nodes l.args := by
  have hfirm : Firm l.first.text := by
    rw [l.text_first]
    exact l.first.firm_core
  obtain ⟨S, nodes, hS, hnodes, hrun⟩ := argsRuns_segments d (A := A) l.notMem_segments
    l.segmented_segments (Or.inr hfirm) []
  refine ⟨S, nodes, hS, argsParse_eq_some.mpr ((hrun B _).mpr rfl), ?_⟩
  rw [l.argsOf_segments] at hnodes
  refine hnodes.imp fun node a h => ?_
  have := h.append B
  simpa using this

/-- **`args_parse` inverts the format.** For every list of arguments, whatever blanks lie around the
names and values and whether or not there is a delimiter behind the last argument, and wherever in
memory the string lies: `args_parse` returns a node for each argument, in order, with its name, and
with the type and value that the text of the value stands for; and `args_find` returns the first
node with a name.

**Proof sketch.** Every segment of the string is in good order and stands for the argument that is
written there, so `argsRuns_segments` gives the nodes. -/
theorem argsParse_layout (d : ArgsDelim) (l : ArgsLayout d) (A B : List UInt8) :
    ∃ m nodes, argsParse (A ++ (l.text ++ nul :: B)) A.length d.val = some (m, nodes) ∧
      List.Forall₂ (ArgNode.Says m) nodes l.args ∧
      ∀ name, argsFind m nodes name =
        some (nodes.find? fun node => decide (cstring m node.name = some name)) := by
  obtain ⟨S, nodes, -, hparse, hnodes⟩ := argsParse_layout_is l A B
  exact ⟨_, nodes, hparse, hnodes.imp fun _ _ h => h.says, argsFind_eq hnodes⟩

/-- A value of digits that is no `int` is not a string either: it is taken for an `int` and wraps.
-/
theorem argsParse_wraps :
    ∃ m node, argsParse (cstr "p=2147483648" ++ [nul]) 0 attackerArgsDelim = some (m, [node]) ∧
      cstring m node.name = some (cstr "p") ∧ node.value = .int (-2147483648) := by
  refine ⟨cstr "p" ++ nul :: (cstr "2147483648" ++ [nul]), ⟨0, .int (-2147483648)⟩, ?_, ?_, rfl⟩
  · decide +kernel
  · decide +kernel

end Layout

end Mproxy
