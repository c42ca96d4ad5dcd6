/-
# Replicated logs: the general theory

The mathematics that a leader-based replicated log rests on, over an arbitrary
type `S` of servers, an arbitrary payload type `β` and an arbitrary family of
quorums.  Nothing here knows how terms are raised, how votes are collected or how
records travel: a `Ledger` only says what there is to know about a moment of a run,

* the current term and the log of every server;
* the winner of each term and the log this leader built (`won`, `llog`);
* which server has accepted which prefix of which leader's log (`acc`).

This file has the log-matching layer.  Its invariant `Matching` says that every log
is chained: each of its entries sits on top of exactly the entries that the leader of
its term had below it (`Chained`).  Two chained logs that agree on the term of a
position agree up to that position (`Chained.take_eq`).

The four operations `move`, `elect`, `append` and `accept` are all that ever happens
to a ledger, and `Extends` is the order in which ledgers evolve along a run.
-/
import Mathlib

namespace ReplicatedLog

/-- A log entry: the term it was created in and its payload. -/
abbrev Entry (β : Type*) := ℕ × β

/-- A moment of a run of a replicated log. -/
structure Ledger (S β : Type*) where
  /-- The current term of each server. -/
  term : S → ℕ
  /-- The log of each server. -/
  log : S → List (Entry β)
  /-- The server that won each term, if any did. -/
  won : ℕ → Option S
  /-- The log that the leader of each term built. -/
  llog : ℕ → List (Entry β)
  /-- `acc s T n`: in term `T` server `s` accepted the first `n` entries of the
  log of the leader of `T`. -/
  acc : S → ℕ → ℕ → Prop

variable {S β : Type*}

/-! ## Chained logs -/

/-- Every entry of `l` sits on top of the entries that the leader of its term had
below it. -/
def Chained (llog : ℕ → List (Entry β)) (l : List (Entry β)) : Prop :=
  ∀ k e, l[k]? = some e → l.take (k + 1) <+: llog e.1

theorem chained_nil (llog : ℕ → List (Entry β)) : Chained llog [] := by
  intro k e h
  simp at h

theorem Chained.of_isPrefix {llog : ℕ → List (Entry β)} {l l' : List (Entry β)}
    (h : Chained llog l) (hp : l' <+: l) : Chained llog l' := by
  intro k e hk
  obtain ⟨t, rfl⟩ := hp
  have hlt : k < l'.length := (List.getElem?_eq_some_iff.mp hk).1
  have hk' : (l' ++ t)[k]? = some e := by
    rw [List.getElem?_append_left hlt]
    exact hk
  have := h k e hk'
  rwa [List.take_append_of_le_length (by omega)] at this

theorem Chained.mono {llog llog' : ℕ → List (Entry β)} {l : List (Entry β)}
    (hle : ∀ T, llog T <+: llog' T) (h : Chained llog l) : Chained llog' l :=
  fun k e hk => (h k e hk).trans (hle e.1)

/-- A chained log stays chained when the entry put on top of it completes a prefix
of the log of the leader of its term. -/
theorem Chained.concat {llog : ℕ → List (Entry β)} {l : List (Entry β)} {e : Entry β}
    (h : Chained llog l) (he : l ++ [e] <+: llog e.1) : Chained llog (l ++ [e]) := by
  intro k a hk
  rcases Nat.lt_or_ge k l.length with hlt | hge
  · rw [List.getElem?_append_left hlt] at hk
    rw [List.take_append_of_le_length (by omega)]
    exact h k a hk
  · have hlt := (List.getElem?_eq_some_iff.mp hk).1
    rw [List.length_append, List.length_singleton] at hlt
    have hkl : k = l.length := by omega
    subst hkl
    rw [List.getElem?_concat_length, Option.some.injEq] at hk
    subst hk
    rwa [List.take_of_length_le (by simp)]

/-- Two prefixes of one list of the same length are equal. -/
theorem eq_of_isPrefix_of_length {l l' L : List (Entry β)} (h : l <+: L) (h' : l' <+: L)
    (hlen : l.length = l'.length) : l = l' :=
  (List.prefix_of_prefix_length_le h h' hlen.le).eq_of_length hlen

/-- **Log matching.**  Two chained logs whose entries at one position have the same
term agree up to and including that position. -/
theorem Chained.take_eq {llog : ℕ → List (Entry β)} {l l' : List (Entry β)} {k : ℕ}
    {e e' : Entry β} (h : Chained llog l) (h' : Chained llog l')
    (hk : l[k]? = some e) (hk' : l'[k]? = some e') (hterm : e.1 = e'.1) :
    l.take (k + 1) = l'.take (k + 1) := by
  have h1 := h k e hk
  have h2 := h' k e' hk'
  rw [← hterm] at h2
  have hlt := (List.getElem?_eq_some_iff.mp hk).1
  have hlt' := (List.getElem?_eq_some_iff.mp hk').1
  refine eq_of_isPrefix_of_length h1 h2 ?_
  rw [List.length_take, List.length_take]
  omega

/-- The entry at a position of a prefix. -/
theorem getElem?_of_isPrefix {l L : List (Entry β)} {k : ℕ} {e : Entry β}
    (hp : l <+: L) (hk : l[k]? = some e) : L[k]? = some e := by
  obtain ⟨t, rfl⟩ := hp
  rw [List.getElem?_append_left (List.getElem?_eq_some_iff.mp hk).1]
  exact hk

/-! ## Log matching -/

/-- The invariant of the log-matching layer. -/
structure Matching (L : Ledger S β) : Prop where
  /-- The logs of the servers are chained. -/
  log_chained : ∀ s, Chained L.llog (L.log s)
  /-- The logs of the leaders are chained. -/
  llog_chained : ∀ T, Chained L.llog (L.llog T)
  /-- No entry is from the future of its server. -/
  log_term : ∀ s, ∀ e ∈ L.log s, e.1 ≤ L.term s
  /-- No entry of a leader's log is from a later term. -/
  llog_term : ∀ T, ∀ e ∈ L.llog T, e.1 ≤ T
  /-- A term without a winner has no leader's log. -/
  llog_none : ∀ T, L.won T = none → L.llog T = []

/-- The terms along a chained log do not decrease. -/
theorem Matching.term_le_of_le {L : Ledger S β} (h : Matching L) {l : List (Entry β)}
    (hl : Chained L.llog l) {j k : ℕ} {d e : Entry β}
    (hj : l[j]? = some d) (hk : l[k]? = some e) (hjk : j ≤ k) : d.1 ≤ e.1 := by
  have hp := hl k e hk
  refine h.llog_term e.1 d (hp.subset ?_)
  refine List.mem_of_getElem? (i := j) ?_
  rw [List.getElem?_take, if_pos (by omega)]
  exact hj

/-! ## The operations on a ledger -/

/-- Server `s` changes its own term and log; no leader's log is touched. -/
def Ledger.move [DecidableEq S] (L : Ledger S β) (s : S) (t : ℕ) (l : List (Entry β)) : Ledger S β :=
  { L with term := Function.update L.term s t, log := Function.update L.log s l }

/-- Server `s` wins its current term: its log is the first log of that leader. -/
def Ledger.elect (L : Ledger S β) (s : S) : Ledger S β :=
  { L with
    won := Function.update L.won (L.term s) (some s)
    llog := Function.update L.llog (L.term s) (L.log s) }

/-- The leader `s` of its current term creates an entry. -/
def Ledger.append [DecidableEq S] (L : Ledger S β) (s : S) (x : β) : Ledger S β :=
  { L with
    log := Function.update L.log s (L.log s ++ [(L.term s, x)])
    llog := Function.update L.llog (L.term s) (L.log s ++ [(L.term s, x)]) }

/-- Server `s` accepts `n` entries of the leader of its current term. -/
def Ledger.accept (L : Ledger S β) (s : S) (n : ℕ) : Ledger S β :=
  { L with acc := fun v T m => L.acc v T m ∨ (v = s ∧ T = L.term s ∧ m = n) }

theorem Matching.move [DecidableEq S] {L : Ledger S β} (h : Matching L) {s : S} {t : ℕ} {l : List (Entry β)}
    (ht : L.term s ≤ t) (hl : Chained L.llog l) (hterm : ∀ e ∈ l, e.1 ≤ t) :
    Matching (L.move s t l) where
  log_chained := by
    intro v
    by_cases hv : v = s
    · subst hv
      simpa [Ledger.move] using hl
    · simpa [Ledger.move, Function.update_of_ne hv] using h.log_chained v
  llog_chained := h.llog_chained
  log_term := by
    intro v
    by_cases hv : v = s
    · subst hv
      simpa [Ledger.move] using hterm
    · simpa [Ledger.move, Function.update_of_ne hv] using h.log_term v
  llog_term := h.llog_term
  llog_none := h.llog_none

/-- Electing a leader only adds a leader's log where there was none. -/
theorem Matching.llog_le_elect {L : Ledger S β} (h : Matching L) {s : S}
    (hnew : L.won (L.term s) = none) (T : ℕ) : L.llog T <+: (L.elect s).llog T := by
  by_cases hT : T = L.term s
  · subst hT
    rw [h.llog_none _ hnew]
    exact List.nil_prefix
  · simp [Ledger.elect, Function.update_of_ne hT]

theorem Matching.elect {L : Ledger S β} (h : Matching L) {s : S}
    (hnew : L.won (L.term s) = none) : Matching (L.elect s) where
  log_chained := fun v => (h.log_chained v).mono (h.llog_le_elect hnew)
  llog_chained := by
    intro T
    refine Chained.mono (h.llog_le_elect hnew) ?_
    by_cases hT : T = L.term s
    · subst hT
      simpa [Ledger.elect] using h.log_chained s
    · simpa [Ledger.elect, Function.update_of_ne hT] using h.llog_chained T
  log_term := h.log_term
  llog_term := by
    intro T
    by_cases hT : T = L.term s
    · subst hT
      simpa [Ledger.elect] using h.log_term s
    · simpa [Ledger.elect, Function.update_of_ne hT] using h.llog_term T
  llog_none := by
    intro T hT
    by_cases hTs : T = L.term s
    · subst hTs
      simp [Ledger.elect] at hT
    · simp only [Ledger.elect, Function.update_of_ne hTs] at hT ⊢
      exact h.llog_none T hT

/-- A leader's log only grows at its end. -/
theorem Ledger.llog_le_append [DecidableEq S] {L : Ledger S β} {s : S} (x : β)
    (hlog : L.log s = L.llog (L.term s)) (T : ℕ) : L.llog T <+: (L.append s x).llog T := by
  by_cases hT : T = L.term s
  · subst hT
    simp [Ledger.append, hlog]
  · simp [Ledger.append, Function.update_of_ne hT]

theorem Matching.append [DecidableEq S] {L : Ledger S β} (h : Matching L) {s : S} (x : β)
    (hwon : L.won (L.term s) ≠ none) (hlog : L.log s = L.llog (L.term s)) :
    Matching (L.append s x) := by
  have hle := L.llog_le_append x hlog
  have hchain : Chained (L.append s x).llog (L.log s ++ [(L.term s, x)]) := by
    refine ((h.log_chained s).mono hle).concat ?_
    simp [Ledger.append]
  have hbound : ∀ e ∈ L.log s ++ [(L.term s, x)], e.1 ≤ L.term s := by
    intro e he
    rcases List.mem_append.mp he with he | he
    · exact h.log_term s e he
    · rw [List.mem_singleton] at he
      rw [he]
  constructor
  · intro v
    by_cases hv : v = s
    · subst hv
      simpa [Ledger.append] using hchain
    · simpa [Ledger.append, Function.update_of_ne hv] using (h.log_chained v).mono hle
  · intro T
    by_cases hT : T = L.term s
    · subst hT
      simpa [Ledger.append] using hchain
    · simpa [Ledger.append, Function.update_of_ne hT] using (h.llog_chained T).mono hle
  · intro v
    by_cases hv : v = s
    · subst hv
      simpa [Ledger.append] using hbound
    · simpa [Ledger.append, Function.update_of_ne hv] using h.log_term v
  · intro T
    by_cases hT : T = L.term s
    · subst hT
      simpa [Ledger.append] using hbound
    · simpa [Ledger.append, Function.update_of_ne hT] using h.llog_term T
  · intro T hT
    by_cases hTs : T = L.term s
    · subst hTs
      exact absurd hT hwon
    · simp only [Ledger.append, Function.update_of_ne hTs]
      exact h.llog_none T hT

/-- Acceptances are not seen by the log-matching layer. -/
theorem Matching.accept {L : Ledger S β} (h : Matching L) (s : S) (n : ℕ) :
    Matching (L.accept s n) :=
  ⟨h.log_chained, h.llog_chained, h.log_term, h.llog_term, h.llog_none⟩

/-! ## How ledgers evolve -/

/-- `Extends L L'`: the ledger `L'` comes after `L` in a run.  Terms rise, winners
stay, a leader's log only grows by entries of its own term, and an acceptance that
is new was made in a term that is not over. -/
structure Extends (L L' : Ledger S β) : Prop where
  term_le : ∀ s, L.term s ≤ L'.term s
  won_le : ∀ T, L.won T ≠ none → L'.won T = L.won T
  llog_le : ∀ T, L.llog T <+: L'.llog T
  llog_new : ∀ T, L.won T ≠ none → ∀ e ∈ (L'.llog T).drop (L.llog T).length, e.1 = T
  acc_le : ∀ s T n, L.acc s T n → L'.acc s T n
  acc_new : ∀ s T n, L'.acc s T n → L.acc s T n ∨ L.term s ≤ T

theorem Extends.refl (L : Ledger S β) : Extends L L where
  term_le := fun _ => le_rfl
  won_le := fun _ _ => rfl
  llog_le := fun _ => List.prefix_rfl
  llog_new := by
    intro T _ e he
    simp at he
  acc_le := fun _ _ _ h => h
  acc_new := fun _ _ _ h => Or.inl h

theorem Extends.trans {L L' L'' : Ledger S β} (h : Extends L L') (h' : Extends L' L'') :
    Extends L L'' where
  term_le := fun s => (h.term_le s).trans (h'.term_le s)
  won_le := by
    intro T hT
    rw [h'.won_le T (by rw [h.won_le T hT]; exact hT), h.won_le T hT]
  llog_le := fun T => (h.llog_le T).trans (h'.llog_le T)
  llog_new := by
    intro T hT e he
    obtain ⟨t, ht⟩ := h.llog_le T
    obtain ⟨t', ht'⟩ := h'.llog_le T
    rw [← ht', ← ht, List.append_assoc, List.drop_left, List.mem_append] at he
    rcases he with he | he
    · refine h.llog_new T hT e ?_
      rw [← ht, List.drop_left]
      exact he
    · refine h'.llog_new T (by rw [h.won_le T hT]; exact hT) e ?_
      rw [← ht', List.drop_left]
      exact he
  acc_le := fun s T n hacc => h'.acc_le s T n (h.acc_le s T n hacc)
  acc_new := by
    intro s T n hacc
    rcases h'.acc_new s T n hacc with hacc | hle
    · exact h.acc_new s T n hacc
    · exact Or.inr ((h.term_le s).trans hle)

theorem extends_move [DecidableEq S] {L : Ledger S β} {s : S} {t : ℕ} {l : List (Entry β)}
    (ht : L.term s ≤ t) : Extends L (L.move s t l) := by
  refine { Extends.refl L with term_le := ?_ }
  intro v
  by_cases hv : v = s
  · subst hv
    simpa [Ledger.move] using ht
  · simp [Ledger.move, Function.update_of_ne hv]

theorem extends_elect {L : Ledger S β} (h : Matching L) {s : S}
    (hnew : L.won (L.term s) = none) : Extends L (L.elect s) where
  term_le := fun _ => le_rfl
  won_le := by
    intro T hT
    have hne : T ≠ L.term s := fun heq => hT (heq ▸ hnew)
    simp [Ledger.elect, Function.update_of_ne hne]
  llog_le := h.llog_le_elect hnew
  llog_new := by
    intro T hT e he
    have hne : T ≠ L.term s := fun heq => hT (heq ▸ hnew)
    simp [Ledger.elect, Function.update_of_ne hne] at he
  acc_le := fun _ _ _ h => h
  acc_new := fun _ _ _ h => Or.inl h

theorem extends_append [DecidableEq S] {L : Ledger S β} {s : S} (x : β)
    (hlog : L.log s = L.llog (L.term s)) : Extends L (L.append s x) where
  term_le := fun _ => le_rfl
  won_le := fun _ _ => rfl
  llog_le := L.llog_le_append x hlog
  llog_new := by
    intro T _ e he
    by_cases hT : T = L.term s
    · subst hT
      simp only [Ledger.append, Function.update_self, hlog, List.drop_left,
        List.mem_singleton] at he
      rw [he]
    · simp [Ledger.append, Function.update_of_ne hT] at he
  acc_le := fun _ _ _ h => h
  acc_new := fun _ _ _ h => Or.inl h

theorem extends_accept (L : Ledger S β) (s : S) (n : ℕ) : Extends L (L.accept s n) :=
  { Extends.refl L with
    acc_le := fun _ _ _ h => Or.inl h
    acc_new := by
      rintro v T m (h | ⟨rfl, rfl, _⟩)
      · exact Or.inl h
      · exact Or.inr le_rfl }

end ReplicatedLog
