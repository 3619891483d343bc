import Mproxy.Flow.Allocation
import Mproxy.Rules.History

set_option relaxedAutoImplicit false
set_option autoImplicit false

/-!
# Accesses to the attack tables

The tables have a row for each of the versions `1` to `5` and a column for each of the message types
`0` to `34`. Two checks let something else through. The header check of `action_inject` compares the
unsigned version with its upper bound only, so a frame of version `0` reads the row before the first
one. And `normalize_ofp_msg_type` compares a numeric type with the length of the alias array instead
of its last index, so the type `35` is accepted for all versions and for version `5` if the memory
behind the alias array happens not to be `NULL` there.

## Main definitions

* `Mproxy.VersionZero` — the frames that read outside the tables.
* `Mproxy.RowCall.StrayType` — the rows that may write outside them.

## Main results

* `Mproxy.actionInject_tableIndex_iff` — exactly the frames of version `0` read outside the tables.
* `Mproxy.attackerApplyRule_tableIndex_iff` — exactly the rules of type `35` write outside them.
* `Mproxy.tables_in_range` — without such rows and frames every access is in range.
-/

namespace Mproxy

open Framing Memory

/-- A frame of version `0` that passes the header check. -/
def VersionZero (f : Frame UInt8) : Prop :=
  (f.view.getD 0 0).toNat = 0 ∧ (f.view.getD 1 0).toNat ≤ ofpMsgTypeMax

instance (f : Frame UInt8) : Decidable (VersionZero f) := inferInstanceAs (Decidable (_ ∧ _))

/-- A row of eight columns whose message type is the number `35`, for all versions or for version
`5`, where the memory behind the alias array is not `NULL` at that index. -/
def RowCall.StrayType (past : Past) (c : RowCall) : Prop :=
  ∃ m F version msgTypeText, csvParse c.mem c.data c.len = some (m, F) ∧
    F.ret.length = attackerRowNumFields ∧ cstring m (F.ret.getD 3 0) = some version ∧
    cstring m (F.ret.getD 4 0) = some msgTypeText ∧ isInt msgTypeText = true ∧
    atoi msgTypeText = 35 ∧ (normalizeOfpVerStr version = 0 ∨ normalizeOfpVerStr version = 5) ∧
    (past (normalizeOfpVerStr version).toNat 35).isSome

/-! ## Frames -/

section Frames

variable {L : Loci} {T : Tables}

/-- **Exactly the frames of version `0` read outside the tables.** -/
lemma actionInject_tableIndex_iff {f : Frame UInt8} (hf : 8 ≤ f.view.length ∧ f.len ≤ f.view.length)
    (rand : ℕ) (dupCount : UInt8) :
    actionInject L T rand f.view f.len dupCount = .error .tableIndex ↔ VersionZero f := by
  rcases frame_cases (L := L) (T := T) hf rand dupCount with
    ⟨hhdr, hinj⟩ | ⟨hhdr, -, hver, hinj⟩ | ⟨v, t, hcell, hinj⟩
  · rw [hinj]
    refine ⟨fun h => (by cases h), fun h => ?_⟩
    have hvalid : isValidOfpHeader (f.view.getD 0 0).toNat (f.view.getD 1 0).toNat = true := by
      rw [isValidOfpHeader_iff, h.1]
      have := h.2
      unfold ofpMsgTypeMax at this
      omega
    rw [HeaderRejected, hvalid] at hhdr
    cases hhdr
  · rw [HeaderRejected, Bool.not_eq_false, isValidOfpHeader_iff] at hhdr
    refine ⟨fun _ => ⟨hver, ?_⟩, fun _ => hinj⟩
    unfold ofpMsgTypeMax
    omega
  · rw [hinj]
    refine ⟨fun h => ?_, fun h => ?_⟩
    · split_ifs at h
      cases h
    · have := hcell.1
      have := h.1
      omega

/-- A fault of a call where there is memory is a fault of `action_inject` on the frame. -/
lemma tableInject_error {ρ : ℕ → ℕ} {n : ℕ} {s : List UInt8} {dupCount : UInt8} {e : Fault}
    (hhdr : ofpFraming.hdr ≤ s.length) (hlen : ofpFraming.announced s ≤ s.length)
    (hfault : tableInject L T ρ n s (ofpFraming.announced s) dupCount = .error e) :
    (8 ≤ (ofpFraming.first s).view.length ∧
        (ofpFraming.first s).len ≤ (ofpFraming.first s).view.length) ∧
      actionInject L T (ρ n) (ofpFraming.first s).view (ofpFraming.first s).len 0 = .error e :=
  allocInject_error (μ := fun _ => .granted) hhdr hlen hfault

/-- `action_inject` reads outside the tables on frames of version `0` only. -/
lemma tableInject_faultsOnly (ρ : ℕ → ℕ) :
    FaultsOnly (tableInject L T ρ) .tableIndex VersionZero := by
  intro n s dupCount hhdr hlen hfault
  obtain ⟨hf, hinj⟩ := tableInject_error hhdr hlen hfault
  exact (actionInject_tableIndex_iff hf (ρ n) 0).mp hinj

end Frames

/-! ## Rows -/

section Rows

variable {past : Past}

/-- An access to the memory is none to a table. -/
lemma ofMem_ne_tableIndex {α : Type} (o : Option α) : ofMem o ≠ .error .tableIndex := by
  cases o <;> simp [ofMem]

/-- Parsing a row makes no access to the tables. -/
lemma attackerParseRule_ne_tableIndex (m : List UInt8) (data len : ℕ) :
    attackerParseRule past m data len ≠ .error .tableIndex := by
  intro h
  rcases Runs.bind_eq_error.mp h with h | ⟨⟨m₁, F⟩, -, h⟩
  · exact ofMem_ne_tableIndex _ h
  simp only at h
  split_ifs at h
  rcases Runs.bind_eq_error.mp h with h | ⟨version, -, h⟩
  · exact ofMem_ne_tableIndex _ h
  rcases Runs.bind_eq_error.mp h with h | ⟨msgTypeText, -, h⟩
  · exact ofMem_ne_tableIndex _ h
  rcases Runs.bind_eq_error.mp h with h | ⟨action, -, h⟩
  · exact ofMem_ne_tableIndex _ h
  unfold ruleOfFields at h
  simp only at h
  split_ifs at h
  · rcases Runs.bind_eq_error.mp h with h | ⟨p, -, h⟩
    · exact ofMem_ne_tableIndex _ h
    · cases h
  · rcases Runs.bind_eq_error.mp h with h | ⟨p, -, h⟩
    · exact ofMem_ne_tableIndex _ h
    · split_ifs at h

/-- **Exactly the rules whose type has no column write outside the tables.** -/
lemma attackerApplyRule_tableIndex_iff (T : Tables) {r : Rule} (hsound : r.Sound) :
    attackerApplyRule T r = .error .tableIndex ↔ ¬ r.InRange := by
  by_cases hrange : r.InRange
  · rw [attackerApplyRule_eq T hsound hrange]
    simp [hrange]
  · simp only [hrange, not_false_eq_true, iff_true]
    cases r with
    | refused => exact absurd trivial hrange
    | unimplemented actionType => exact absurd trivial hrange
    | drop ofpVer msgType prob =>
      have htype : 35 ≤ msgType := (hsound.2.1.resolve_left hrange).ge
      rw [attackerApplyRule, fillTable_eq_error T.drop prob ofpVer htype, Runs.error_bind]
    | dup ofpVer msgType dupCount =>
      have htype : 35 ≤ msgType := (hsound.2.1.resolve_left hrange).ge
      rw [attackerApplyRule, fillTable_eq_error T.dup dupCount ofpVer htype, Runs.error_bind]

/-- A message type that has no column is the number `35`, for all versions or for version `5`. -/
lemma normalizeOfpMsgType_stray {ver : ℕ} {s : List UInt8}
    (h : normalizeOfpMsgType past ver s = 35) :
    isInt s = true ∧ atoi s = 35 ∧ (ver = 0 ∨ ver = 5) ∧ (past ver 35).isSome := by
  have hle := ofpMsgAliasLen_le ver
  rcases normalizeOfpMsgType_cases past ver s with
    herr | hall | ⟨i, hi, hsome, hlt | ⟨hlen, hint, hatoi⟩⟩
  · rw [h] at herr
    exact absurd herr (by decide)
  · rw [h] at hall
    exact absurd hall (by decide)
  · rw [h] at hi
    omega
  · have hi35 : i = 35 := by
      rw [h] at hi
      omega
    subst hi35
    have hver : ver = 0 ∨ ver = 5 := by
      rcases Nat.lt_or_ge ver 6 with hv | hv
      · match ver, hv with
        | 0, _ => exact Or.inl rfl
        | 1, _ => exact absurd hlen (by decide)
        | 2, _ => exact absurd hlen (by decide)
        | 3, _ => exact absurd hlen (by decide)
        | 4, _ => exact absurd hlen (by decide)
        | 5, _ => exact Or.inr rfl
      · have hnone : ofpMsgAliasLen[ver]? = none := List.getElem?_eq_none hv
        rw [List.getD_eq_getElem?_getD, hnone] at hlen
        exact absurd hlen (by decide)
    have hpast : aliasAt past ver 35 = past ver 35 := by
      rcases hver with rfl | rfl <;> rfl
    rw [hpast] at hsome
    exact ⟨hint, hatoi, hver, hsome⟩

/-- A row whose rule is out of range has a stray type. -/
lemma attackerParseRule_stray {c : RowCall} {r : Rule} {m' : List UInt8}
    (h : attackerParseRule past c.mem c.data c.len = .ok (r, m')) (hrange : ¬ r.InRange) :
    c.StrayType past := by
  have hstray : ∀ msgType, (TypeInRange msgType ∨ msgType = 35) → ¬ TypeInRange msgType →
      msgType = 35 := fun _ h h' => h.resolve_left h'
  obtain ⟨⟨m, F⟩, hcsv, h⟩ := Runs.bind_eq_ok.mp h
  simp only at h
  split_ifs at h with hnum
  · cases h
    exact absurd trivial hrange
  obtain ⟨version, hversion, h⟩ := Runs.bind_eq_ok.mp h
  obtain ⟨msgTypeText, htext, h⟩ := Runs.bind_eq_ok.mp h
  obtain ⟨action, -, h⟩ := Runs.bind_eq_ok.mp h
  have hsound := ruleOfFields_sound h
  have htype : normalizeOfpMsgType past (normalizeOfpVerStr version).toNat msgTypeText = 35 ∧
      normalizeOfpVerStr version ≠ ofpVerErr := by
    unfold ruleOfFields at h
    simp only at h
    split_ifs at h with hver _ _ _ _
    · cases h
      exact absurd trivial hrange
    · cases h
      exact absurd trivial hrange
    · cases h
      exact absurd trivial hrange
    · obtain ⟨p, -, h⟩ := Runs.bind_eq_ok.mp h
      cases h
      exact ⟨hstray _ hsound.2.1 hrange, hver⟩
    · obtain ⟨p, -, h⟩ := Runs.bind_eq_ok.mp h
      split_ifs at h
      · cases h
        exact absurd trivial hrange
      · cases h
        exact ⟨hstray _ hsound.2.1 hrange, hver⟩
    · cases h
      exact absurd trivial hrange
  obtain ⟨hint, hatoi, hver, hpast⟩ := normalizeOfpMsgType_stray htype.1
  have hver' := (normalizeOfpVerStr_range version).resolve_left htype.2
  exact ⟨m, F, version, msgTypeText, ofMem_eq_ok.mp hcsv, not_not.mp hnum, ofMem_eq_ok.mp hversion,
    ofMem_eq_ok.mp htext, hint, hatoi, by omega, hpast⟩

/-- One call of `attacker_add_rule` on a row without a stray type. -/
lemma addRuleStep_ne_tableIndex {c : RowCall} (hc : ¬ c.StrayType past) (T : Tables) :
    addRuleStep past T c ≠ .error .tableIndex := by
  intro h
  rcases Runs.bind_eq_error.mp h with h | ⟨p, -, h⟩
  · rcases Runs.bind_eq_error.mp h with h | ⟨⟨r, m'⟩, hparse, h⟩
    · exact attackerParseRule_ne_tableIndex _ _ _ h
    · rcases Runs.bind_eq_error.mp h with h | ⟨q, -, h⟩
      · have := (attackerApplyRule_tableIndex_iff T (attackerParseRule_sound hparse)).mp h
        exact hc (attackerParseRule_stray hparse this)
      · cases h
  · cases h

end Rows

/-- **Accesses to the tables.** Let `attacker_add_rule` be called on any sequence of rows without a
stray type, and let then any run of read events, on a client of either side, receive a stream none
of whose frames passes the header check with version `0`. Then no write and no read of the tables
is out of range.

**Proof sketch.** A rule is written outside the tables only if its type is `35`, which needs a stray
type (`normalizeOfpMsgType_stray`). The callback faults only where `action_inject` does on a frame
of the stream (`session_no_fault`), and there exactly on those of version `0`. -/
theorem tables_in_range (past : Past) (calls : List RowCall)
    (hcalls : ∀ c ∈ calls, ¬ c.StrayType past) (L : Loci) (ρ : ℕ → ℕ) (fresh : ℕ → UInt8)
    (evs : List ReadEvent)
    (hevs : ∀ f, ofpFraming.FrameOf (evs.map ReadEvent.chunk).flatten f → ¬ VersionZero f) :
    Runs.run (addRuleStep past) Tables.zero calls ≠ .error .tableIndex ∧
    ∀ T, Runs.run (sessionStep (tableInject L T ρ)) (.start fresh 0) evs ≠ .error .tableIndex := by
  refine ⟨?_, fun T => session_no_fault (tableInject_faultsOnly ρ) hevs⟩
  have hstep : ∀ (T : Tables) (c : RowCall) (T' : Tables), True → ¬ c.StrayType past →
      addRuleStep past T c = .ok T' → True := fun _ _ _ _ _ _ => trivial
  exact Runs.no_fault hstep (fun T c _ hc => addRuleStep_ne_tableIndex hc T) trivial hcalls

/-- A rule for all messages and a session of one message of version `1`; behind the alias array for
all versions lies a string. -/
theorem tables_in_range_one :
    Runs.run (addRuleStep fun _ _ => some (cstr "Hello")) Tables.zero
        [.alone "1,1,*,*,*,*,DROP,p=30"] ≠ .error .tableIndex ∧
      ∀ T, Runs.run (sessionStep (tableInject Loci.lenient T fun _ => 0)) (.start (fun _ => 0) 0)
        [.plain [1, 0, 0, 8, 0, 0, 0, 1]] ≠ .error .tableIndex := by
  refine tables_in_range (fun _ _ => some (cstr "Hello")) [.alone "1,1,*,*,*,*,DROP,p=30"] ?_
    Loci.lenient (fun _ => 0) (fun _ => 0) [.plain [1, 0, 0, 8, 0, 0, 0, 1]] ?_
  · intro c hc
    obtain rfl := List.mem_singleton.mp hc
    rintro ⟨m, F, version, msgTypeText, hcsv, -, -, htext, hint, -⟩
    have heval : (csvParse (RowCall.alone "1,1,*,*,*,*,DROP,p=30").mem 1
        (RowCall.alone "1,1,*,*,*,*,DROP,p=30").len).bind
          (fun p => cstring p.1 (p.2.ret.getD 4 0)) = some (cstr "*") := by
      decide +kernel
    rw [show (1 : ℕ) = (RowCall.alone "1,1,*,*,*,*,DROP,p=30").data from rfl, hcsv,
      Option.bind_some, htext, Option.some.injEq] at heval
    rw [heval] at hint
    exact absurd hint (by decide)
  · intro f hf
    cases hf with
    | here => decide
    | later _ _ _ h =>
      cases h with
      | here hhdr => exact absurd hhdr (by decide)
      | later hhdr => exact absurd hhdr (by decide)

/-- A frame of version `0` and type `0` passes the header check and reads outside the drop table,
with zeroed tables and no rule at all. -/
theorem version_zero_out_of_range :
    isValidOfpHeader 0 0 = true ∧
      ofpFraming.FrameOf [0, 0, 0, 8, 0, 0, 0, 0] (.whole [0, 0, 0, 8, 0, 0, 0, 0]) ∧
      Runs.run (sessionStep (tableInject Loci.lenient Tables.zero fun _ => 0))
        (.start (fun _ => 0) 0) [.plain [0, 0, 0, 8, 0, 0, 0, 0]] = .error .tableIndex := by
  have hcut : ofpFraming.Cuts [0, 0, 0, 8, 0, 0, 0, 0] [.whole [0, 0, 0, 8, 0, 0, 0, 0]] [] :=
    .frame (by decide) (by decide) (by decide) (.stuck (by decide))
  refine ⟨by decide, .here (by decide) (by decide) (by decide), ?_⟩
  rw [session_plain_error_iff _ hcut]
  rfl

end Mproxy
