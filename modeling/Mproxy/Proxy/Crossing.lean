import Mproxy.Proxy.Steps
import Mproxy.TableRange

set_option relaxedAutoImplicit false
set_option autoImplicit false

/-!
# Connections never cross

Every step of the process keeps the invariant `System.Paired`. So in every run, whatever
fails in it and in whatever order clients are created, read from and deleted, what is read from a
client is written to its mate or nowhere, and no client is used after it was deleted.

## Main definitions

* `Mproxy.System.Similar` — what a step leaves alone that creates and deletes no client.

## Main results

* `Mproxy.System.Paired.systemStep`, `Mproxy.System.run_paired` — every step and every run keep the
  invariant.
* `Mproxy.System.Paired.systemStep_writes` — what a step writes to which client.
* `Mproxy.connections_never_cross` — the connections of different pairs have nothing to do with each
  other.
-/

namespace Mproxy

section Crossing

variable {σ : Type}

namespace System

variable {s s' : System σ} {p q : ClientPtr} {c : Client}

/-! ## Steps that create and delete no client -/

/-- What a step leaves alone that creates and deletes no client: the clients apart from their
buffers, and what the map points to. -/
structure Similar (s s' : System σ) : Prop where
  kept : ∀ q d, s.clients q = some d → ∃ d', s'.clients q = some d' ∧ d'.fd = d.fd ∧
    d'.fwFd = d.fwFd ∧ d'.Established
  only : ∀ q, s.clients q = none → s'.clients q = none
  clientMap : ∀ f q, s'.clientMap.find f = some (some q) ↔ s.clientMap.find f = some (some q)
  isOpen : ∀ f, s'.isOpen f = s.isOpen f
  next : s.next ≤ s'.next
  threads : s'.threads = s.threads
  pairs : s'.pairs = s.pairs

/-- Each client behind such a step was there before it, with the same descriptors. -/
lemma Similar.back (hsim : s.Similar s') {d' : Client} (hq : s'.clients q = some d') :
    ∃ d, s.clients q = some d ∧ d'.fd = d.fd ∧ d'.fwFd = d.fwFd ∧ d'.Established := by
  cases hd : s.clients q with
  | none =>
    rw [hsim.only q hd] at hq
    cases hq
  | some d =>
    obtain ⟨e, he, hrest⟩ := hsim.kept q d hd
    rw [hq] at he
    obtain rfl := Option.some.inj he
    exact ⟨d, rfl, hrest⟩

/-- A step that does not touch the clients is such a step, if it leaves the pointers in the map. -/
lemma SameClients.similar (h : s.Paired) (hsame : s.SameClients s')
    (hmap : ∀ f q, s'.clientMap.find f = some (some q) ↔ s.clientMap.find f = some (some q)) :
    s.Similar s' where
  kept q d hq := ⟨d, (hsame.clients q).trans hq, rfl, rfl, h.established q d hq⟩
  only q hq := (hsame.clients q).trans hq
  clientMap := hmap
  isOpen := hsame.isOpen
  next := hsame.next
  threads := hsame.threads
  pairs := hsame.pairs

/-- A read callback is such a step. -/
lemma ReadBy.similar (hread : s.ReadBy p c s') : s.Similar s' where
  kept q d hq := by
    obtain ⟨d', hq', hfd, hfw, hest, -⟩ := hread.kept q d hq
    exact ⟨d', hq', hfd, hfw, hest⟩
  only := hread.only
  clientMap f q := by
    rw [hread.clientMap]
    split_ifs
    · constructor
      · intro h
        exact find_of_getD (Option.some.inj h)
      · intro h
        rw [h]
        rfl
    · rfl
  isOpen f := by rw [hread.isOpen]
  next := hread.next.ge
  threads := hread.threads
  pairs := hread.pairs

/-- The mates are the same behind such a step. -/
lemma Similar.mates (hsim : s.Similar s') : s'.Mates p q ↔ s.Mates p q := by
  rw [Mates, Mates, hsim.pairs]

/-- A step that creates and deletes no client keeps the invariant. -/
lemma Paired.of_similar (h : s.Paired) (hsim : s.Similar s') : s'.Paired where
  mapped f p hf := by
    obtain ⟨c, hc, hfd⟩ := h.mapped f p ((hsim.clientMap f p).mp hf)
    obtain ⟨c', hc', hfd', -⟩ := hsim.kept p c hc
    exact ⟨c', hc', hfd'.trans hfd⟩
  listed p c hp := by
    obtain ⟨d, hd, hfd, -⟩ := hsim.back hp
    rw [hfd, hsim.clientMap]
    exact h.listed p d hd
  opened p c hp := by
    obtain ⟨d, hd, hfd, -⟩ := hsim.back hp
    rw [hfd, hsim.isOpen]
    exact h.opened p d hd
  established p c hp := by
    obtain ⟨d, -, -, -, hest⟩ := hsim.back hp
    exact hest
  mated p c hp hne := by
    obtain ⟨d, hd, hfd, hfw, -⟩ := hsim.back hp
    rw [hfw] at hne ⊢
    obtain ⟨q, e, hfind, he, hefw, hmates⟩ := h.mated p d hd hne
    obtain ⟨e', he', -, hefw', -⟩ := hsim.kept q e he
    exact ⟨q, e', (hsim.clientMap _ _).mpr hfind, he', by rw [hefw', hefw, hfd],
      hsim.mates.mpr hmates⟩
  running p := by
    rw [hsim.threads, h.running]
    constructor
    · rintro ⟨c, hc⟩
      obtain ⟨c', hc', -⟩ := hsim.kept p c hc
      exact ⟨c', hc'⟩
    · rintro ⟨c, hc⟩
      obtain ⟨d, hd, -⟩ := hsim.back hc
      exact ⟨d, hd⟩
  nodup := by
    rw [hsim.threads]
    exact h.nodup
  old p c hp := by
    obtain ⟨d, hd, -⟩ := hsim.back hp
    exact (h.old p d hd).trans_le hsim.next
  mates_old p q hpq := (h.mates_old p q (hsim.mates.mp hpq)).trans_le hsim.next
  mates_ne p q hpq := h.mates_ne p q (hsim.mates.mp hpq)
  mates_unique p q r hpq hpr := h.mates_unique p q r (hsim.mates.mp hpq) (hsim.mates.mp hpr)

/-! ## Deletion -/

/-- What the deletion of a client leaves of another one: it may forget the descriptor of its pair.
-/
lemma Deleted.back_eq (hdel : s.Deleted p c s') {d' : Client} (hq : s'.clients q = some d') :
    q ≠ p ∧ ∃ d, s.clients q = some d ∧ (d' = d ∨ d' = { d with fwFd := -1 }) := by
  have hq' := hdel.clients q
  rw [hq] at hq'
  split_ifs at hq' with hqp hpair
  · cases hd : s.clients q with
    | none =>
      rw [hd] at hq'
      cases hq'
    | some d =>
      rw [hd] at hq'
      exact ⟨hqp, d, rfl, Or.inr (Option.some.inj hq')⟩
  · exact ⟨hqp, d', hq'.symm, Or.inl rfl⟩

/-- The same in terms of the fields: the descriptor stays, an established client stays established,
and the descriptor of the pair is kept or forgotten. -/
lemma Deleted.back (hdel : s.Deleted p c s') {d' : Client} (hq : s'.clients q = some d') :
    q ≠ p ∧ ∃ d, s.clients q = some d ∧ d'.fd = d.fd ∧ (d.Established → d'.Established) ∧
      (d' = d ∨ d'.fwFd = -1) := by
  obtain ⟨hqp, d, hd, rfl | rfl⟩ := hdel.back_eq hq
  · exact ⟨hqp, d', hd, rfl, id, Or.inl rfl⟩
  · exact ⟨hqp, d, hd, rfl, fun hest => ⟨hest.1, hest.2, hest.3, hest.4⟩, Or.inr rfl⟩

/-- Another client is still there. -/
lemma Deleted.kept (hdel : s.Deleted p c s') {d : Client} (hne : q ≠ p)
    (hq : s.clients q = some d) :
    ∃ d', s'.clients q = some d' ∧ (s.clientMap.find c.fwFd ≠ some (some q) → d' = d) := by
  rw [hdel.clients, if_neg hne, hq]
  split_ifs with hpair
  · exact ⟨_, rfl, fun h => absurd hpair h⟩
  · exact ⟨d, rfl, fun _ => rfl⟩

/-- Other clients are found where they were. -/
lemma Deleted.find_iff (hdel : s.Deleted p c s') {f : ℤ} (hf : f ≠ c.fd) :
    s'.clientMap.find f = some (some q) ↔ s.clientMap.find f = some (some q) := by
  rw [hdel.clientMap, if_neg hf]
  split_ifs
  · constructor
    · intro h
      exact find_of_getD (Option.some.inj h)
    · intro h
      rw [h]
      rfl
  · rfl

/-- **The deletion of a client keeps the invariant.** The mate, if it is there, forgets the
descriptor of the deleted client; every other client has another descriptor, and so has its mate. -/
lemma Paired.of_deleted (h : s.Paired) (hp : s.clients p = some c) (hdel : s.Deleted p c s') :
    Paired { s' with threads := s'.threads.erase p } where
  mapped f q hf := by
    have hne : f ≠ c.fd := by
      rintro rfl
      have := hdel.clientMap c.fd
      rw [if_pos rfl] at this
      rw [this] at hf
      cases hf
    obtain ⟨d, hd, hfd⟩ := h.mapped f q ((hdel.find_iff hne).mp hf)
    have hqp : q ≠ p := by
      rintro rfl
      obtain rfl := Option.some.inj (hp.symm.trans hd)
      exact hne hfd.symm
    obtain ⟨d', hd', -⟩ := hdel.kept hqp hd
    obtain ⟨-, e, he, hfd', -⟩ := hdel.back hd'
    obtain rfl := Option.some.inj (hd.symm.trans he)
    exact ⟨d', hd', hfd'.trans hfd⟩
  listed q d' hq := by
    obtain ⟨hne, d, hd, hfd, -⟩ := hdel.back hq
    rw [hfd]
    exact (hdel.find_iff fun heq => hne (h.fd_inj hd hp heq)).mpr (h.listed q d hd)
  opened q d' hq := by
    obtain ⟨hne, d, hd, hfd, -⟩ := hdel.back hq
    have hother : d.fd ≠ c.fd := fun heq => hne (h.fd_inj hd hp heq)
    rw [hfd]
    refine ⟨(h.opened q d hd).1, ?_⟩
    exact (hdel.isOpen d.fd).trans ((if_neg fun hc => hother hc.1).trans (h.opened q d hd).2)
  established q d' hq := by
    obtain ⟨-, d, hd, -, hest, -⟩ := hdel.back hq
    exact hest (h.established q d hd)
  mated q d' hq hne := by
    obtain ⟨hqp, d, hd, hfd, -, hfw⟩ := hdel.back hq
    obtain rfl := hfw.resolve_right hne
    obtain ⟨r, e, hfind, he, hefw, hmates⟩ := h.mated q d' hd hne
    obtain ⟨hefd, -⟩ := h.pair_found hd hfind he
    -- the mate is not the deleted client: that one's mate has forgotten its descriptor
    have hrp : r ≠ p := by
      rintro rfl
      obtain rfl := Option.some.inj (hp.symm.trans he)
      have hq' := hdel.clients q
      rw [if_neg hqp, hefw, if_pos (h.listed q d' hd), hq, hd] at hq'
      exact hne (congrArg Client.fwFd (Option.some.inj hq'))
    have hkeep : s.clientMap.find c.fwFd ≠ some (some r) := by
      intro hc
      obtain ⟨-, hfw', -⟩ := h.pair_found hp hc he
      exact hqp (h.fd_inj hd hp (hefw.symm.trans hfw'))
    obtain ⟨e', he', hsame⟩ := hdel.kept hrp he
    obtain rfl := hsame hkeep
    refine ⟨r, e', (hdel.find_iff ?_).mpr hfind, he', hefw, ?_⟩
    · rw [← hefd]
      exact fun heq => hrp (h.fd_inj he hp heq)
    · rw [Mates, show System.pairs _ = s.pairs from hdel.pairs]
      exact hmates
  running q := by
    show q ∈ s'.threads.erase p ↔ _
    rw [hdel.threads, h.nodup.mem_erase_iff, h.running]
    constructor
    · rintro ⟨hne, d, hd⟩
      obtain ⟨d', hd', -⟩ := hdel.kept hne hd
      exact ⟨d', hd'⟩
    · rintro ⟨d', hd'⟩
      obtain ⟨hne, d, hd, -⟩ := hdel.back hd'
      exact ⟨hne, d, hd⟩
  nodup := by
    show (s'.threads.erase p).Nodup
    rw [hdel.threads]
    exact h.nodup.erase p
  old q d' hq := by
    obtain ⟨-, d, hd, -⟩ := hdel.back hq
    exact (h.old q d hd).trans_eq hdel.next.symm
  mates_old q r hqr := by
    rw [Mates, show System.pairs _ = s.pairs from hdel.pairs] at hqr
    exact (h.mates_old q r hqr).trans_eq hdel.next.symm
  mates_ne q r hqr := by
    rw [Mates, show System.pairs _ = s.pairs from hdel.pairs] at hqr
    exact h.mates_ne q r hqr
  mates_unique q r t hqr hqt := by
    rw [Mates, show System.pairs _ = s.pairs from hdel.pairs] at hqr hqt
    exact h.mates_unique q r t hqr hqt

/-! ## Creation -/

section Creation

variable {inFd outFd : ℤ}

/-- The mates behind the creation of a pair: those there were, and the two new clients. -/
lemma Accepted.mates_iff (hacc : s.Accepted inFd outFd s') : s'.Mates p q ↔
    s.Mates p q ∨ p = s.next ∧ q = s.next + 1 ∨ p = s.next + 1 ∧ q = s.next := by
  unfold Mates
  rw [hacc.pairs]
  simp only [List.mem_append, List.mem_singleton, Prod.mk.injEq]
  tauto

/-- The clients that are older than the pair are as they were. -/
lemma Accepted.clients_old (hacc : s.Accepted inFd outFd s') (hq : q < s.next) :
    s'.clients q = s.clients q := by
  obtain ⟨inCd, outCd, -, -, hclients⟩ := hacc.clients
  rw [hclients, if_neg (hq.trans (Nat.lt_succ_self _)).ne, if_neg hq.ne]

/-- Older descriptors are found as they were. -/
lemma Accepted.find_old (hacc : s.Accepted inFd outFd s') {f : ℤ} (ho : f ≠ outFd) (hi : f ≠ inFd) :
    s'.clientMap.find f = s.clientMap.find f := by
  rw [hacc.clientMap, if_neg ho, if_neg hi]

/-- A client behind the creation of a pair is the second one, the first one, or an older one. -/
lemma Accepted.back (h : s.Paired) (hacc : s.Accepted inFd outFd s') {d : Client}
    (hq : s'.clients q = some d) :
    (q = s.next + 1 ∧ d.fd = outFd ∧ d.fwFd = inFd ∧ d.Established) ∨
      (q = s.next ∧ d.fd = inFd ∧ d.fwFd = outFd ∧ d.Established) ∨
      q < s.next ∧ s.clients q = some d := by
  obtain ⟨inCd, outCd, ⟨hifd, hifw, hiest, -⟩, ⟨hofd, hofw, hoest, -⟩, hclients⟩ := hacc.clients
  rw [hclients] at hq
  split_ifs at hq with ho hi
  · obtain rfl := Option.some.inj hq
    exact Or.inl ⟨ho, hofd, hofw, hoest⟩
  · obtain rfl := Option.some.inj hq
    exact Or.inr (Or.inl ⟨hi, hifd, hifw, hiest⟩)
  · exact Or.inr (Or.inr ⟨h.old q d hq, hq⟩)

/-- The two new clients, which forward to each other. -/
lemma Accepted.new_pair (hacc : s.Accepted inFd outFd s') : ∃ inCd outCd,
    (s'.clients s.next = some inCd ∧ inCd.fd = inFd ∧ inCd.fwFd = outFd) ∧
      s'.clients (s.next + 1) = some outCd ∧ outCd.fd = outFd ∧ outCd.fwFd = inFd := by
  obtain ⟨inCd, outCd, ⟨hifd, hifw, -⟩, ⟨hofd, hofw, -⟩, hclients⟩ := hacc.clients
  refine ⟨inCd, outCd, ⟨?_, hifd, hifw⟩, ?_, hofd, hofw⟩
  · rw [hclients, if_neg (Nat.lt_succ_self _).ne, if_pos rfl]
  · rw [hclients, if_pos rfl]

/-- The client of the outgoing connection is found under its descriptor. -/
lemma Accepted.find_out (hacc : s.Accepted inFd outFd s') :
    s'.clientMap.find outFd = some (some (s.next + 1)) := by
  rw [hacc.clientMap, if_pos rfl]

/-- The client of the incoming connection is found under its descriptor, which is another one. -/
lemma Accepted.find_in (hacc : s.Accepted inFd outFd s') (hne : outFd ≠ inFd) :
    s'.clientMap.find inFd = some (some s.next) := by
  rw [hacc.clientMap, if_neg hne.symm, if_pos rfl]

variable {it : Iteration} (h : s.Paired) (hreach : s.ReachesNew it)
  (hacc : s.Accepted it.inFd it.outFd s')

include h hreach in
/-- No older client has a descriptor of the pair, because these were closed. -/
lemma Paired.fd_ne {d : Client} (hd : s.clients q = some d) :
    d.fd ≠ it.outFd ∧ d.fd ≠ it.inFd := by
  have hopen := (h.opened q d hd).2
  constructor
  · intro heq
    rw [heq, hreach.out_closed] at hopen
    cases hopen
  · intro heq
    rw [heq, hreach.in_closed] at hopen
    cases hopen

include h hacc in
/-- What the map points to is there, also behind the creation of a pair. -/
lemma Paired.accepted_mapped (f : ℤ) (p : ClientPtr) (hf : s'.clientMap.find f = some (some p)) :
    ∃ c, s'.clients p = some c ∧ c.fd = f := by
  obtain ⟨inCd, outCd, ⟨hin, hifd, -⟩, hout, hofd, -⟩ := hacc.new_pair
  rw [hacc.clientMap] at hf
  split_ifs at hf with ho hi
  · obtain rfl := Option.some.inj (Option.some.inj hf)
    exact ⟨outCd, hout, hofd.trans ho.symm⟩
  · obtain rfl := Option.some.inj (Option.some.inj hf)
    exact ⟨inCd, hin, hifd.trans hi.symm⟩
  · obtain ⟨c, hc, hfd⟩ := h.mapped f p hf
    exact ⟨c, (hacc.clients_old (h.old p c hc)).trans hc, hfd⟩

include h hreach hacc in
/-- The new clients stand in the map, and the older ones still do. -/
lemma Paired.accepted_listed (p : ClientPtr) (c : Client) (hp : s'.clients p = some c) :
    s'.clientMap.find c.fd = some (some p) := by
  obtain ⟨rfl, hfd, -⟩ | ⟨rfl, hfd, -⟩ | ⟨-, hc⟩ := hacc.back h hp
  · rw [hfd, hacc.find_out]
  · rw [hfd, hacc.find_in hreach.ne]
  · obtain ⟨hout, hin⟩ := h.fd_ne hreach hc
    rw [hacc.find_old hout hin]
    exact h.listed p c hc

include h hreach hacc in
/-- The descriptors of all clients are open: those of the new ones were opened for them. -/
lemma Paired.accepted_opened (p : ClientPtr) (c : Client) (hp : s'.clients p = some c) :
    0 ≤ c.fd ∧ s'.isOpen c.fd = true := by
  rw [hacc.isOpen]
  obtain ⟨-, hfd, -⟩ | ⟨-, hfd, -⟩ | ⟨-, hc⟩ := hacc.back h hp
  · exact ⟨hfd ▸ hreach.out_nonneg, if_pos (Or.inl hfd)⟩
  · exact ⟨hfd ▸ hreach.in_nonneg, if_pos (Or.inr hfd)⟩
  · rw [if_neg (not_or.mpr (h.fd_ne hreach hc))]
    exact h.opened p c hc

include h hreach hacc in
/-- The new clients are each other's mates; an older client still finds its mate, whose descriptor
is not one of theirs. -/
lemma Paired.accepted_mated (p : ClientPtr) (c : Client) (hp : s'.clients p = some c)
    (hne : c.fwFd ≠ -1) : ∃ q d, s'.clientMap.find c.fwFd = some (some q) ∧
      s'.clients q = some d ∧ d.fwFd = c.fd ∧ s'.Mates p q := by
  obtain ⟨inCd, outCd, ⟨hin, hifd, hifw⟩, hout, hofd, hofw⟩ := hacc.new_pair
  obtain ⟨rfl, hfd, hfw, -⟩ | ⟨rfl, hfd, hfw, -⟩ | ⟨-, hc⟩ := hacc.back h hp
  · exact ⟨s.next, inCd, hfw ▸ hacc.find_in hreach.ne, hin, hifw.trans hfd.symm,
      hacc.mates_iff.mpr (Or.inr (Or.inr ⟨rfl, rfl⟩))⟩
  · exact ⟨s.next + 1, outCd, hfw ▸ hacc.find_out, hout, hofw.trans hfd.symm,
      hacc.mates_iff.mpr (Or.inr (Or.inl ⟨rfl, rfl⟩))⟩
  · obtain ⟨q, d, hfind, hd, hdfw, hmates⟩ := h.mated p c hc hne
    obtain ⟨hdfd, -⟩ := h.pair_found hc hfind hd
    obtain ⟨hfarOut, hfarIn⟩ := h.fd_ne hreach hd
    rw [hdfd] at hfarOut hfarIn
    exact ⟨q, d, (hacc.find_old hfarOut hfarIn).trans hfind,
      (hacc.clients_old (h.old q d hd)).trans hd, hdfw, hacc.mates_iff.mpr (Or.inl hmates)⟩

include h hacc in
/-- Each of the new clients has a thread, and so has each older one. -/
lemma Paired.accepted_running (p : ClientPtr) :
    p ∈ s'.threads ↔ ∃ c, s'.clients p = some c := by
  obtain ⟨inCd, outCd, ⟨hin, -⟩, hout, -⟩ := hacc.new_pair
  rw [hacc.threads, List.mem_append, h.running]
  constructor
  · rintro (⟨c, hc⟩ | hp)
    · exact ⟨c, (hacc.clients_old (h.old p c hc)).trans hc⟩
    · rcases List.mem_pair.mp hp with rfl | rfl
      · exact ⟨outCd, hout⟩
      · exact ⟨inCd, hin⟩
  · rintro ⟨c, hc⟩
    obtain ⟨rfl, -⟩ | ⟨rfl, -⟩ | ⟨-, hc'⟩ := hacc.back h hc
    · exact Or.inr (List.mem_pair.mpr (Or.inl rfl))
    · exact Or.inr (List.mem_pair.mpr (Or.inr rfl))
    · exact Or.inl ⟨c, hc'⟩

include h hacc in
/-- The threads of the new clients are new. -/
lemma Paired.accepted_nodup : s'.threads.Nodup := by
  have hold : ∀ p ∈ s.threads, p < s.next := by
    intro p hp
    obtain ⟨c, hc⟩ := (h.running p).mp hp
    exact h.old p c hc
  rw [hacc.threads, List.nodup_append']
  refine ⟨h.nodup, by simp, ?_⟩
  intro p hp hpair
  rcases List.mem_pair.mp hpair with rfl | rfl
  · exact absurd (hold _ hp) (Nat.lt_succ_self _).asymm
  · exact absurd (hold _ hp) (lt_irrefl _)

include h hacc in
/-- The new clients are older than the next one. -/
lemma Paired.accepted_old (p : ClientPtr) (c : Client) (hp : s'.clients p = some c) :
    p < s'.next := by
  rw [hacc.next]
  obtain ⟨rfl, -⟩ | ⟨rfl, -⟩ | ⟨hlt, -⟩ := hacc.back h hp
  · exact Nat.lt_succ_self _
  · exact Nat.lt_add_of_pos_right (by decide)
  · exact hlt.trans (Nat.lt_add_of_pos_right (by decide))

include h hacc in
/-- Mates are older than the next client, also the new ones. -/
lemma Paired.accepted_mates_old (p q : ClientPtr) (hpq : s'.Mates p q) : p < s'.next := by
  rw [hacc.next]
  rcases hacc.mates_iff.mp hpq with hold | ⟨rfl, -⟩ | ⟨rfl, -⟩
  · exact (h.mates_old p q hold).trans (Nat.lt_add_of_pos_right (by decide))
  · exact Nat.lt_add_of_pos_right (by decide)
  · exact Nat.lt_succ_self _

include h hacc in
/-- The new clients are nobody else's mates, because they are new. -/
lemma Paired.accepted_mates_unique (p q r : ClientPtr) (hpq : s'.Mates p q) (hpr : s'.Mates p r) :
    q = r := by
  have hne : s.next ≠ s.next + 1 := (Nat.lt_succ_self _).ne
  rcases hacc.mates_iff.mp hpq with hq | ⟨rfl, rfl⟩ | ⟨rfl, rfl⟩
  · rcases hacc.mates_iff.mp hpr with hr | ⟨rfl, -⟩ | ⟨rfl, -⟩
    · exact h.mates_unique p q r hq hr
    · exact absurd (h.mates_old _ _ hq) (lt_irrefl _)
    · exact absurd (h.mates_old _ _ hq) (Nat.lt_succ_self _).asymm
  · rcases hacc.mates_iff.mp hpr with hr | ⟨-, rfl⟩ | ⟨heq, -⟩
    · exact absurd (h.mates_old _ _ hr) (lt_irrefl _)
    · rfl
    · exact absurd heq hne
  · rcases hacc.mates_iff.mp hpr with hr | ⟨heq, -⟩ | ⟨-, rfl⟩
    · exact absurd (h.mates_old _ _ hr) (Nat.lt_succ_self _).asymm
    · exact absurd heq.symm hne
    · rfl

include h hreach hacc in
/-- **The creation of a pair keeps the invariant**, if its descriptors were closed. -/
lemma Paired.of_accepted : s'.Paired where
  mapped := h.accepted_mapped hacc
  listed := h.accepted_listed hreach hacc
  opened := h.accepted_opened hreach hacc
  established p c hp := by
    obtain ⟨-, -, -, hest⟩ | ⟨-, -, -, hest⟩ | ⟨-, hc⟩ := hacc.back h hp
    · exact hest
    · exact hest
    · exact h.established p c hc
  mated := h.accepted_mated hreach hacc
  running := h.accepted_running hacc
  nodup := h.accepted_nodup hacc
  old := h.accepted_old hacc
  mates_old := h.accepted_mates_old hacc
  mates_ne p q hpq := by
    rcases hacc.mates_iff.mp hpq with hold | ⟨rfl, rfl⟩ | ⟨rfl, rfl⟩
    · exact h.mates_ne p q hold
    · exact (Nat.lt_succ_self _).ne
    · exact (Nat.lt_succ_self _).ne'
  mates_unique := h.accepted_mates_unique hacc

end Creation

/-! ## Every step -/

section EveryStep

variable {inject : Inject σ} {a : Action}

/-- A round of the listener that creates no pair changes no pointer in the map. -/
lemma Paired.abandoned_iff (h : s.Paired) {left erased : ℤ} (hleft : s.isOpen left = false)
    (herased : s.isOpen erased = false)
    (hmap : ∀ f, s'.clientMap.find f = if f = erased then none
      else if f = left then some none else s.clientMap.find f) (f : ℤ) (q : ClientPtr) :
    s'.clientMap.find f = some (some q) ↔ s.clientMap.find f = some (some q) := by
  rw [hmap]
  split_ifs with he hl
  · exact iff_of_false (by simp) (h.find_closed (Or.inr (he ▸ herased)) q)
  · exact iff_of_false (by simp) (h.find_closed (Or.inr (hl ▸ hleft)) q)
  · rfl

/-- A round of the listener keeps the invariant. -/
lemma Paired.of_listen (h : s.Paired) {it : Iteration} (hout : s.ListenOutcome it (.ok s')) :
    s'.Paired := by
  cases hout with
  | idle _ => exact h
  | stopped _ _ =>
    exact h.of_similar (SameClients.similar h ⟨fun _ => rfl, fun _ => rfl, le_rfl, rfl, rfl⟩
      fun _ _ => Iff.rfl)
  | refused _ hsame _ hmap =>
    exact h.of_similar (hsame.similar h fun f q => by rw [hmap])
  | abandoned hlate hsame _ left erased hfds hmap =>
    refine h.of_similar (hsame.similar h (h.abandoned_iff ?_ ?_ hmap))
    · rcases hfds with ⟨rfl, -⟩ | ⟨rfl, -⟩
      · exact hlate.1.in_closed
      · exact hlate.1.out_closed
    · rcases hfds with ⟨-, rfl⟩ | ⟨-, rfl⟩
      · exact hlate.1.out_closed
      · exact hlate.1.in_closed
  | accepted hreach _ hacc => exact h.of_accepted hreach hacc

/-- **Every step keeps the invariant.** -/
lemma Paired.systemStep (h : s.Paired) (hstep : systemStep inject s a = .ok s') : s'.Paired := by
  cases h.effect hstep with
  | listen hout => exact h.of_listen hout
  | noRead => exact h
  | read _ hby => exact h.of_similar hby.similar
  | noDelete => exact h
  | delete hc hdel => exact h.of_deleted hc hdel
  | housekeep hkept =>
    refine h.of_similar (hkept.toSameClients.similar h fun f q => ?_)
    rcases hkept.clientMap f with heq | ⟨rfl, hnone⟩
    · rw [heq]
    · rw [hnone]
      exact iff_of_false nofun (h.find_closed (Or.inl (by decide)) q)

/-- **What a step writes to which client, and what it reads from which**: only the read callback of
a client reads from it, and only that of its mate writes to it. -/
lemma Paired.systemStep_writes (h : s.Paired) (hstep : Mproxy.systemStep inject s a = .ok s')
    {d' : Client} (hq : s'.clients q = some d') :
    s.clients q = none ∧ d'.Fresh ∨ ∃ d, s.clients q = some d ∧
      (d'.written = d.written ∨ ∃ p ev, a = .read p ev ∧ s.Mates p q) ∧
      (d'.received = d.received ∨ ∃ ev, a = .read q ev) := by
  -- a step that leaves the client as it is
  have hsame : s'.clients q = s.clients q → s.clients q = none ∧ d'.Fresh ∨
      ∃ d, s.clients q = some d ∧
        (d'.written = d.written ∨ ∃ p ev, a = .read p ev ∧ s.Mates p q) ∧
        (d'.received = d.received ∨ ∃ ev, a = .read q ev) := fun hclients =>
    Or.inr ⟨d', hclients.symm.trans hq, Or.inl rfl, Or.inl rfl⟩
  cases h.effect hstep with
  | listen hout =>
    cases hout with
    | idle _ => exact hsame rfl
    | stopped _ _ => exact hsame rfl
    | refused _ hs _ _ => exact hsame (hs.clients q)
    | abandoned _ hs _ _ _ _ _ => exact hsame (hs.clients q)
    | accepted _ _ hacc =>
      obtain ⟨inCd, outCd, ⟨-, -, -, hin⟩, ⟨-, -, -, hout⟩, hclients⟩ := hacc.clients
      have hq' := hclients q
      rw [hq] at hq'
      split_ifs at hq' with hqo hqi
      · obtain rfl := Option.some.inj hq'
        exact Or.inl ⟨h.new_free q (hqo ▸ Nat.le_succ _), hout⟩
      · obtain rfl := Option.some.inj hq'
        exact Or.inl ⟨h.new_free q hqi.ge, hin⟩
      · exact hsame (hq.trans hq')
  | noRead => exact hsame rfl
  | @read p ev c _ _ hby =>
    obtain ⟨d, hd, -⟩ := hby.similar.back hq
    obtain ⟨d'', hq', -, -, -, hreceived, hwritten⟩ := hby.kept q d hd
    obtain rfl := Option.some.inj (hq.symm.trans hq')
    refine Or.inr ⟨d, hd, ?_, ?_⟩
    · by_cases hmates : s.Mates p q
      · exact Or.inr ⟨p, ev, rfl, hmates⟩
      · exact Or.inl (hwritten hmates)
    · by_cases hqp : q = p
      · exact Or.inr ⟨ev, by rw [hqp]⟩
      · exact Or.inl (hreceived hqp)
  | noDelete => exact hsame rfl
  | delete _ hdel =>
    obtain ⟨-, d, hd, rfl | rfl⟩ := hdel.back_eq hq
    · exact Or.inr ⟨d', hd, Or.inl rfl, Or.inl rfl⟩
    · exact Or.inr ⟨d, hd, Or.inl rfl, Or.inl rfl⟩
  | housekeep hkept => exact hsame (hkept.clients q)

/-- **No step uses a client after it was deleted**, if `action_inject` does not. -/
lemma Paired.systemStep_no_useAfterFree (h : s.Paired)
    (hinj : FaultsOnly inject .useAfterFree fun _ => False) :
    Mproxy.systemStep inject s a ≠ .error .useAfterFree := by
  intro hstep
  cases a with
  | listen it =>
    have hout := h.listen it
    rw [show s.startListen it = .error .useAfterFree from hstep] at hout
    cases hout
  | read p ev =>
    rcases flowRead_cases h inject p ev with ⟨-, hread⟩ | ⟨c, -, hout⟩
    · exact absurd (hread.symm.trans hstep) nofun
    · rw [show s.flowRead inject p ev = .error .useAfterFree from hstep] at hout
      cases hout with
      | fault hrun => exact onFlowRead_no_fault hinj [] (fun _ _ => id) hrun
  | delete p =>
    rcases endThread_cases h p with ⟨-, hend⟩ | ⟨c, s₁, -, -, hend⟩
    · exact absurd (hend.symm.trans hstep) nofun
    · exact absurd (hend.symm.trans hstep) nofun
  | housekeep first =>
    obtain ⟨s₁, hkeep, -⟩ := housekeep_cases h first
    exact absurd (hkeep.symm.trans hstep) nofun

end EveryStep

/-- **Every run keeps the invariant.** -/
theorem run_paired {inject : Inject σ} {env : σ} {as : List Action}
    (hrun : Runs.run (Mproxy.systemStep inject) (start env) as = .ok s) : s.Paired := by
  have hinv : ∀ (s : System σ) (a : Action) (s' : System σ), s.Paired → True →
      Mproxy.systemStep inject s a = .ok s' → s'.Paired := fun _ _ _ h _ hstep => h.systemStep hstep
  exact Runs.invariant hinv (start_paired env) (fun _ _ => trivial) hrun

end System

end Crossing

/-- `action_inject` uses no object that was freed. -/
lemma tableInject_no_useAfterFree (L : Loci) (T : Tables) (ρ : ℕ → ℕ) :
    FaultsOnly (tableInject L T ρ) .useAfterFree fun _ => False := by
  intro n s dupCount hhdr hlen hfault
  obtain ⟨hf, hinj⟩ := tableInject_error hhdr hlen hfault
  rcases frame_cases (L := L) (T := T) hf (ρ n) 0 with ⟨-, h⟩ | ⟨-, -, -, h⟩ | ⟨v, t, -, h⟩
  · rw [h] at hinj
    cases hinj
  · rw [h] at hinj
    cases hinj
  · rw [h] at hinj
    split_ifs at hinj
    cases hinj

/-- **Connections never cross.** Take any run of the process from its start: rounds of the listener,
read callbacks, deletions of clients and rounds of housekeeping, in any order, and with any answers
from their surroundings. No client is used after it was deleted. In every state that is reached,
what the map points to is a client that is there, under its descriptor; and a client whose pair is
not known to be closed finds its mate, the client that was created in the same round of the
listener, which forwards to it. In every step from there a client is only written to in the read
callback of its mate.

**Proof sketch.** The invariant `System.Paired` holds at the start and is kept by every step, so it
holds in every state reached (`System.run_paired`). It gives the first two statements at once, and
the others by what a single step can do (`System.Paired.systemStep_writes`). -/
theorem connections_never_cross (L : Loci) (T : Tables) (ρ : ℕ → ℕ) (as : List Action) :
    Runs.run (systemStep (tableInject L T ρ)) (System.start 0) as ≠ .error .useAfterFree ∧
    ∀ s, Runs.run (systemStep (tableInject L T ρ)) (System.start 0) as = .ok s →
      (∀ f p, s.clientMap.find f = some (some p) → ∃ c, s.clients p = some c ∧ c.fd = f) ∧
      (∀ p c, s.clients p = some c → c.fwFd ≠ -1 → ∃ q d, s.clientMap.find c.fwFd = some (some q) ∧
        s.clients q = some d ∧ d.fwFd = c.fd ∧ ∀ r, s.Mates p r ↔ r = q) ∧
      ∀ a s', systemStep (tableInject L T ρ) s a = .ok s' → ∀ q d', s'.clients q = some d' →
        s.clients q = none ∧ d'.Fresh ∨ ∃ d, s.clients q = some d ∧
          (d'.written = d.written ∨ ∃ p ev, a = .read p ev ∧ s.Mates p q) ∧
          (d'.received = d.received ∨ ∃ ev, a = .read q ev) := by
  constructor
  · have hinv : ∀ (s : System ℕ) (a : Action) (s' : System ℕ), s.Paired → True →
        systemStep (tableInject L T ρ) s a = .ok s' → s'.Paired :=
      fun s a s' h _ hstep => h.systemStep hstep
    exact Runs.no_fault hinv
      (fun s a h _ => h.systemStep_no_useAfterFree (tableInject_no_useAfterFree L T ρ))
      (System.start_paired 0) fun _ _ => trivial
  · intro s hrun
    have h := System.run_paired hrun
    refine ⟨h.mapped, fun p c hp hne => ?_, fun a s' hstep q d' hq => h.systemStep_writes hstep hq⟩
    obtain ⟨q, d, hfind, hd, hfw, hmates⟩ := h.mated p c hp hne
    refine ⟨q, d, hfind, hd, hfw, fun r => ⟨fun hr => h.mates_unique p r q hr hmates, ?_⟩⟩
    rintro rfl
    exact hmates

end Mproxy
