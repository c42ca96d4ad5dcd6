/-
# Leader completeness for replicated logs

The second layer of the theory of `ReplicatedLog.lean`, still over arbitrary servers,
payloads and quorums.  A prefix of a leader's log is *chosen* (`ChosenIn`) when a
quorum accepted it in the term its last entry was created in.  The invariant `Sound`
adds to log matching what is known about acceptances and about the voters of every
winner, and gives

* `Sound.chosen_isPrefix_llog`: a chosen prefix is a prefix of the log of every later
  leader;
* `Sound.committed_total`: any two committed prefixes are comparable.

The facts that a system keeps in its messages and threads are monotone for `Extends`
(`VoteSafe.mono`, `ChosenIn.mono`, `Committed.mono`), and each of the four operations
keeps `Sound` under a side condition on the one server that acts.
-/
import OpenNebula.ReplicatedLog

namespace ReplicatedLog

variable {S β : Type*}

/-! ## Up-to-date logs -/

/-- The term of the last entry, `0` for the empty log. -/
def lastTerm (l : List (Entry β)) : ℕ := (l.getLast?.map Prod.fst).getD 0

/-- `UpToDate l l'`: the log `l` is at least as up to date as `l'`; its last term is
later, or the same with at least as many entries. -/
def UpToDate (l l' : List (Entry β)) : Prop :=
  lastTerm l' < lastTerm l ∨ (lastTerm l' = lastTerm l ∧ l'.length ≤ l.length)

theorem lastTerm_eq {l : List (Entry β)} {e : Entry β} (h : l[l.length - 1]? = some e) :
    lastTerm l = e.1 := by
  rw [lastTerm, List.getLast?_eq_getElem?, h]
  rfl

/-- A log whose last term is positive has a last entry, of that term. -/
theorem exists_last_of_lastTerm_pos {l : List (Entry β)} (h : 0 < lastTerm l) :
    ∃ e, l[l.length - 1]? = some e ∧ e.1 = lastTerm l := by
  cases hq : l[l.length - 1]? with
  | none =>
    rw [lastTerm, List.getLast?_eq_getElem?, hq] at h
    simp at h
  | some e => exact ⟨e, rfl, (lastTerm_eq hq).symm⟩

/-- The term of the entry at an index that counts from `1`; the index `0` has term `0`. -/
def termAt (l : List (Entry β)) : ℕ → ℕ
  | 0 => 0
  | i + 1 => ((l[i]?).map Prod.fst).getD 0

theorem termAt_succ {l : List (Entry β)} {i : ℕ} {e : Entry β} (h : l[i]? = some e) :
    termAt l (i + 1) = e.1 := by
  rw [termAt, h]
  rfl

theorem lastTerm_eq_termAt (l : List (Entry β)) : lastTerm l = termAt l l.length := by
  rw [lastTerm, List.getLast?_eq_getElem?]
  cases l with
  | nil => rfl
  | cons e l => simp [termAt]

theorem lastTerm_concat (l : List (Entry β)) (e : Entry β) : lastTerm (l ++ [e]) = e.1 := by
  simp [lastTerm]

/-- The entry at a positive index within the log. -/
theorem exists_entry {l : List (Entry β)} {i : ℕ} (hpos : 0 < i) (hle : i ≤ l.length) :
    ∃ x, l[i - 1]? = some (termAt l i, x) := by
  obtain ⟨k, rfl⟩ := Nat.exists_eq_succ_of_ne_zero hpos.ne'
  have hk : l[k]? = some l[k] := List.getElem?_eq_getElem (by omega)
  refine ⟨l[k].2, ?_⟩
  rw [Nat.succ_sub_one, hk, termAt_succ hk]

/-- Two chained logs that have the same term at an index agree up to it. -/
theorem Chained.take_eq_of_termAt {llog : ℕ → List (Entry β)} {l l' : List (Entry β)} {i : ℕ}
    (h : Chained llog l) (h' : Chained llog l') (hi : i ≤ l.length) (hi' : i ≤ l'.length)
    (hterm : termAt l i = termAt l' i) : l.take i = l'.take i := by
  rcases Nat.eq_zero_or_pos i with rfl | hpos
  · rw [List.take_zero, List.take_zero]
  · obtain ⟨x, hx⟩ := exists_entry hpos hi
    obtain ⟨x', hx'⟩ := exists_entry hpos hi'
    have := h.take_eq h' hx hx' hterm
    rwa [Nat.sub_add_cancel hpos] at this

/-- A chained log that matches another one just below an entry can take this entry over. -/
theorem Chained.splice {llog : ℕ → List (Entry β)} {l l' : List (Entry β)} {e : Entry β}
    (h : Chained llog l) (h' : Chained llog l') (he : l'[l.length]? = some e)
    (hterm : termAt l l.length = termAt l' l.length) : l ++ [e] = l'.take (l.length + 1) := by
  have hlt := (List.getElem?_eq_some_iff.mp he).1
  have htake := h.take_eq_of_termAt h' le_rfl (by omega) hterm
  rw [List.take_length] at htake
  rw [List.take_add_one, he, ← htake]
  rfl

/-! ## Acceptances, votes and commitments -/

/-- The first `m` entries of the leader of `T` are overruled by the time of term
`U`: some leader of a term in between does not have them. -/
def Overruled (L : Ledger S β) (T m U : ℕ) : Prop :=
  ∃ T', T < T' ∧ T' ≤ U ∧ L.won T' ≠ none ∧ ¬ (L.llog T).take m <+: L.llog T'

/-- `VoteSafe L v T U l`: server `v` can have cast a vote in term `T` while its log was
`l`.  What `v` had accepted before is in `l`, unless a leader up to term `U` overruled
it. -/
structure VoteSafe (L : Ledger S β) (v : S) (T U : ℕ) (l : List (Entry β)) : Prop where
  chained : Chained L.llog l
  term_le : T ≤ L.term v
  keeps : ∀ T' n m, T' < T → L.acc v T' n → m ≤ n →
    (L.llog T').take m <+: l ∨ Overruled L T' m U

section Quorums

variable (Quorum : Finset S → Prop)

/-- The invariant of the leader-completeness layer. -/
structure Sound (L : Ledger S β) : Prop extends Matching L where
  /-- An acceptance is of a leader's log, and is kept until it is overruled. -/
  acc_spec : ∀ s T n, L.acc s T n →
    L.won T ≠ none ∧ T ≤ L.term s ∧ n ≤ (L.llog T).length ∧
      ∀ m ≤ n, (L.llog T).take m <+: L.log s ∨ Overruled L T m (L.term s)
  /-- A winner was elected by a quorum of voters whose logs were not more up to
  date than the log it was elected with. -/
  won_spec : ∀ T, L.won T ≠ none → ∃ l₀ Q, l₀ <+: L.llog T ∧ (∀ e ∈ l₀, e.1 < T) ∧ Quorum Q ∧
    ∀ v ∈ Q, ∃ l, VoteSafe L v T (T - 1) l ∧ UpToDate l₀ l

/-- The entry at position `k` of the leader of `T` is of this term, and a quorum has
accepted it in this term. -/
def ChosenIn (L : Ledger S β) (T k : ℕ) : Prop :=
  (∃ x, (L.llog T)[k]? = some (T, x)) ∧
    ∃ Q, Quorum Q ∧ ∀ v ∈ Q, ∃ n, k < n ∧ L.acc v T n

/-- `Committed L U P`: the prefix `P` is part of what was chosen up to term `U`. -/
def Committed (L : Ledger S β) (U : ℕ) (P : List (Entry β)) : Prop :=
  P = [] ∨ ∃ T k, T ≤ U ∧ ChosenIn Quorum L T k ∧ P <+: (L.llog T).take (k + 1)

end Quorums

/-! ## Leader completeness -/

section Completeness

variable {Quorum : Finset S → Prop} {L : Ledger S β}

/-- A nonempty chained log is a prefix of the log of the leader of its last term. -/
theorem Chained.isPrefix_last {llog : ℕ → List (Entry β)} {l : List (Entry β)} {e : Entry β}
    (h : Chained llog l) (he : l[l.length - 1]? = some e) : l <+: llog e.1 := by
  have hlt := (List.getElem?_eq_some_iff.mp he).1
  have := h _ _ he
  rwa [List.take_of_length_le (by omega)] at this

/-- If the log of a voter holds the chosen prefix and the candidate's log is at least
as up to date, then the candidate's log holds it too.  This is where the entry has to
be of the term in which it was accepted. -/
theorem Sound.upToDate_carries (h : Sound Quorum L) {T T' k : ℕ} {x : β}
    (hk : (L.llog T)[k]? = some (T, x)) {l l₀ : List (Entry β)}
    (hl : Chained L.llog l) (hheld : (L.llog T).take (k + 1) <+: l)
    (hl₀ : l₀ <+: L.llog T') (hlt : ∀ e ∈ l₀, e.1 < T') (hup : UpToDate l₀ l)
    (ih : ∀ T₁, T < T₁ → T₁ < T' → L.won T₁ ≠ none → (L.llog T).take (k + 1) <+: L.llog T₁) :
    (L.llog T).take (k + 1) <+: L.llog T' := by
  have hkl : l[k]? = some (T, x) := by
    refine getElem?_of_isPrefix hheld ?_
    rw [List.getElem?_take, if_pos (by omega)]
    exact hk
  have hklt : k < l.length := (List.getElem?_eq_some_iff.mp hkl).1
  obtain ⟨d, hd⟩ : ∃ d, l[l.length - 1]? = some d :=
    ⟨_, List.getElem?_eq_getElem (by omega)⟩
  have hTd : T ≤ d.1 := h.term_le_of_le hl hkl hd (by omega)
  have hch₀ : Chained L.llog l₀ := (h.llog_chained T').of_isPrefix hl₀
  have hdl : lastTerm l = d.1 := lastTerm_eq hd
  rcases hup with hgt | ⟨heq, hlen⟩
  · -- a later last term: its leader already has the chosen prefix
    obtain ⟨e, he, hel⟩ := exists_last_of_lastTerm_pos (l := l₀) (by omega)
    have hmem : e ∈ l₀ := List.mem_of_getElem? he
    have hpre : l₀ <+: L.llog e.1 := hch₀.isPrefix_last he
    have hwon : L.won e.1 ≠ none := by
      intro hnone
      rw [h.llog_none _ hnone, List.prefix_nil] at hpre
      rw [hpre] at hmem
      simp at hmem
    have hP := ih e.1 (by omega) (hlt e hmem) hwon
    rcases Nat.le_total ((L.llog T).take (k + 1)).length l₀.length with hle | hle
    · exact (List.prefix_of_prefix_length_le hP hpre hle).trans hl₀
    · have hsub := (List.prefix_of_prefix_length_le hpre hP hle).subset hmem
      have := h.llog_term T e (List.mem_of_mem_take hsub)
      omega
  · -- the same last term: both logs are prefixes of one leader's log
    obtain ⟨e, he⟩ : ∃ e, l₀[l₀.length - 1]? = some e :=
      ⟨_, List.getElem?_eq_getElem (by omega)⟩
    have hpre₀ := hch₀.isPrefix_last he
    have hpre := hl.isPrefix_last hd
    rw [← hdl, heq, lastTerm_eq he] at hpre
    exact (hheld.trans (List.prefix_of_prefix_length_le hpre hpre₀ hlen)).trans hl₀

/-- **Leader completeness.**  What a quorum accepted in the term of its last entry is
a prefix of the log of every later leader.  The induction is on the later term: the two
quorums meet in a voter that accepted before it voted. -/
theorem Sound.chosen_isPrefix_llog (h : Sound Quorum L)
    (hinter : ∀ Q Q', Quorum Q → Quorum Q' → ∃ v ∈ Q, v ∈ Q') {T k : ℕ}
    (hc : ChosenIn Quorum L T k) :
    ∀ T', T < T' → L.won T' ≠ none → (L.llog T).take (k + 1) <+: L.llog T' := by
  intro T'
  induction T' using Nat.strong_induction_on with
  | _ T' ih =>
    intro hTT' hwon
    obtain ⟨⟨x, hk⟩, Q, hQ, hacc⟩ := hc
    obtain ⟨l₀, Q', hl₀, hlt, hQ', hvotes⟩ := h.won_spec T' hwon
    obtain ⟨v, hv, hv'⟩ := hinter Q Q' hQ hQ'
    obtain ⟨n, hkn, hvacc⟩ := hacc v hv
    obtain ⟨l, hsafe, hup⟩ := hvotes v hv'
    have ih' : ∀ T₁, T < T₁ → T₁ < T' → L.won T₁ ≠ none →
        (L.llog T).take (k + 1) <+: L.llog T₁ := fun T₁ h1 h2 h3 => ih T₁ h2 h1 h3
    rcases hsafe.keeps T n (k + 1) hTT' hvacc hkn with hheld | ⟨T₁, h1, h2, h3, h4⟩
    · exact h.upToDate_carries hk hsafe.chained hheld hl₀ hlt hup ih'
    · exact absurd (ih' T₁ h1 (by omega) h3) h4

/-- Whoever accepted a chosen entry in its term still has it. -/
theorem Sound.chosen_held (h : Sound Quorum L)
    (hinter : ∀ Q Q', Quorum Q → Quorum Q' → ∃ v ∈ Q, v ∈ Q') {T k n : ℕ}
    (hc : ChosenIn Quorum L T k) {v : S} (hacc : L.acc v T n) (hkn : k < n) :
    (L.llog T).take (k + 1) <+: L.log v := by
  rcases (h.acc_spec v T n hacc).2.2.2 (k + 1) hkn with hheld | ⟨T', h1, -, h3, h4⟩
  · exact hheld
  · exact absurd (h.chosen_isPrefix_llog hinter hc T' h1 h3) h4

/-- What is committed up to term `U` is a prefix of the log of the leader of every term
from `U` on. -/
theorem Sound.committed_isPrefix_llog (h : Sound Quorum L)
    (hinter : ∀ Q Q', Quorum Q → Quorum Q' → ∃ v ∈ Q, v ∈ Q') {U T : ℕ} {P : List (Entry β)}
    (hP : Committed Quorum L U P) (hUT : U ≤ T) (hwon : L.won T ≠ none) : P <+: L.llog T := by
  rcases hP with rfl | ⟨T₀, k, hT₀, hc, hpre⟩
  · exact List.nil_prefix
  · rcases Nat.lt_or_ge T₀ T with hlt | hge
    · exact hpre.trans (h.chosen_isPrefix_llog hinter hc T hlt hwon)
    · have heq : T₀ = T := by omega
      subst heq
      exact hpre.trans (List.take_prefix _ _)

/-- **Any two committed prefixes are comparable.** -/
theorem Sound.committed_total (h : Sound Quorum L)
    (hinter : ∀ Q Q', Quorum Q → Quorum Q' → ∃ v ∈ Q, v ∈ Q') {U U' : ℕ}
    {P P' : List (Entry β)} (hP : Committed Quorum L U P) (hP' : Committed Quorum L U' P') :
    P <+: P' ∨ P' <+: P := by
  have hwon : ∀ {T k}, ChosenIn Quorum L T k → L.won T ≠ none := by
    rintro T k ⟨⟨x, hk⟩, -⟩ hnone
    simp [h.llog_none T hnone] at hk
  have hself : ∀ {T k}, ChosenIn Quorum L T k → Committed Quorum L T ((L.llog T).take (k + 1)) :=
    fun hc => Or.inr ⟨_, _, le_rfl, hc, List.prefix_rfl⟩
  rcases hP with rfl | ⟨T, k, -, hc, hpre⟩
  · exact Or.inl List.nil_prefix
  rcases hP' with rfl | ⟨T', k', -, hc', hpre'⟩
  · exact Or.inr List.nil_prefix
  rcases Nat.le_total T T' with hle | hle
  · exact List.prefix_or_prefix_of_prefix
      (hpre.trans (h.committed_isPrefix_llog hinter (hself hc) hle (hwon hc')))
      (hpre'.trans (List.take_prefix _ _))
  · exact List.prefix_or_prefix_of_prefix (hpre.trans (List.take_prefix _ _))
      (hpre'.trans (h.committed_isPrefix_llog hinter (hself hc') hle (hwon hc)))

end Completeness

/-! ## Monotonicity along a run -/

section Monotone

variable {Quorum : Finset S → Prop} {L L' : Ledger S β}

/-- What was a prefix of a leader's log up to a length it had stays the same prefix. -/
theorem Extends.take_llog (hext : Extends L L') {T m : ℕ} (hm : m ≤ (L.llog T).length) :
    (L'.llog T).take m = (L.llog T).take m := by
  obtain ⟨t, ht⟩ := hext.llog_le T
  rw [← ht, List.take_append_of_le_length hm]

/-- A leader's log that lacks a prefix of an earlier leader never gets it: it only grows
by entries of its own term. -/
theorem Overruled.mono (hm : Matching L) (hext : Extends L L') {T m U U' : ℕ}
    (hlen : m ≤ (L.llog T).length) (hU : U ≤ U') (h : Overruled L T m U) :
    Overruled L' T m U' := by
  obtain ⟨T', hTT', hT'U, hwon, hnot⟩ := h
  refine ⟨T', hTT', by omega, ?_, ?_⟩
  · rw [hext.won_le T' hwon]
    exact hwon
  · rw [hext.take_llog hlen]
    intro hpre
    apply hnot
    rcases Nat.le_total ((L.llog T).take m).length (L.llog T').length with hle | hle
    · exact List.prefix_of_prefix_length_le hpre (hext.llog_le T') hle
    · -- otherwise the prefix reaches into the new entries, which are of term `T'`
      obtain ⟨t, ht⟩ := List.prefix_of_prefix_length_le (hext.llog_le T') hpre hle
      cases t with
      | nil =>
        rw [List.append_nil] at ht
        rw [ht]
      | cons e t =>
        have hmemP : e ∈ (L.llog T).take m := by
          rw [← ht]
          simp
        obtain ⟨u, hu⟩ := hpre
        have hnew : e ∈ (L'.llog T').drop (L.llog T').length := by
          rw [← hu, ← ht]
          simp
        have h1 := hext.llog_new T' hwon e hnew
        have h2 := hm.llog_term T e (List.mem_of_mem_take hmemP)
        omega

/-- A vote that was safe when it was cast stays so: what is accepted later is accepted in
a later term. -/
theorem VoteSafe.mono (hs : Sound Quorum L) (hext : Extends L L') {v : S} {T U : ℕ}
    {l : List (Entry β)} (h : VoteSafe L v T U l) : VoteSafe L' v T U l where
  chained := h.chained.mono hext.llog_le
  term_le := h.term_le.trans (hext.term_le v)
  keeps := by
    intro T' n m hT' hacc hmn
    rcases hext.acc_new v T' n hacc with hacc | hge
    · have hlen : m ≤ (L.llog T').length := hmn.trans (hs.acc_spec v T' n hacc).2.2.1
      rw [hext.take_llog hlen]
      exact (h.keeps T' n m hT' hacc hmn).imp_right
        (Overruled.mono hs.toMatching hext hlen le_rfl)
    · have := h.term_le
      omega

theorem ChosenIn.mono (hext : Extends L L') {T k : ℕ} (h : ChosenIn Quorum L T k) :
    ChosenIn Quorum L' T k := by
  obtain ⟨⟨x, hk⟩, Q, hQ, hacc⟩ := h
  refine ⟨⟨x, getElem?_of_isPrefix (hext.llog_le T) hk⟩, Q, hQ, ?_⟩
  intro v hv
  obtain ⟨n, hkn, hn⟩ := hacc v hv
  exact ⟨n, hkn, hext.acc_le v T n hn⟩

theorem Committed.mono (hext : Extends L L') {U U' : ℕ} {P : List (Entry β)} (hU : U ≤ U')
    (h : Committed Quorum L U P) : Committed Quorum L' U' P := by
  rcases h with rfl | ⟨T, k, hT, hc, hpre⟩
  · exact Or.inl rfl
  · refine Or.inr ⟨T, k, hT.trans hU, hc.mono hext, hpre.trans ?_⟩
    obtain ⟨⟨x, hk⟩, -⟩ := hc
    have hlt := (List.getElem?_eq_some_iff.mp hk).1
    rw [hext.take_llog (by omega)]

/-- A part of what is committed is committed. -/
theorem Committed.of_isPrefix {U : ℕ} {P P' : List (Entry β)} (h : Committed Quorum L U P)
    (hp : P' <+: P) : Committed Quorum L U P' := by
  rcases h with rfl | ⟨T, k, hT, hc, hpre⟩
  · exact Or.inl (List.prefix_nil.mp hp)
  · exact Or.inr ⟨T, k, hT, hc, hp.trans hpre⟩

end Monotone

/-! ## The operations keep the invariant -/

section Preservation

variable {Quorum : Finset S → Prop} {L : Ledger S β}

/-- The part of `Sound` that does not depend on the logs of the servers is kept along
every extension that adds no winner. -/
theorem Sound.won_spec_mono {L' : Ledger S β} (h : Sound Quorum L) (hext : Extends L L')
    {T : ℕ} (hwon : L.won T ≠ none) : ∃ l₀ Q, l₀ <+: L'.llog T ∧ (∀ e ∈ l₀, e.1 < T) ∧
      Quorum Q ∧ ∀ v ∈ Q, ∃ l, VoteSafe L' v T (T - 1) l ∧ UpToDate l₀ l := by
  obtain ⟨l₀, Q, hpre, hlt, hQ, hv⟩ := h.won_spec T hwon
  refine ⟨l₀, Q, hpre.trans (hext.llog_le T), hlt, hQ, ?_⟩
  intro v hvQ
  obtain ⟨l, hsafe, hup⟩ := hv v hvQ
  exact ⟨l, hsafe.mono h hext, hup⟩

/-- One server changes its term and log: whatever it had accepted stays in its log or is
overruled. -/
theorem Sound.move [DecidableEq S] (h : Sound Quorum L) {s : S} {t : ℕ} {l : List (Entry β)}
    (ht : L.term s ≤ t) (hl : Chained L.llog l) (hterm : ∀ e ∈ l, e.1 ≤ t)
    (hkeep : ∀ T n m, L.acc s T n → m ≤ n → (L.llog T).take m <+: L.log s →
      (L.llog T).take m <+: l ∨ Overruled L T m t) :
    Sound Quorum (L.move s t l) := by
  have hext : Extends L (L.move s t l) := extends_move ht
  refine { h.toMatching.move ht hl hterm with acc_spec := ?_, won_spec := ?_ }
  · intro v T n hacc
    obtain ⟨hwon, hT, hlen, hm⟩ := h.acc_spec v T n hacc
    refine ⟨hwon, hT.trans (hext.term_le v), hlen, ?_⟩
    intro m hmn
    by_cases hv : v = s
    · subst hv
      have hov : Overruled L T m t → Overruled (L.move v t l) T m ((L.move v t l).term v) :=
        fun ho => Overruled.mono h.toMatching hext (hmn.trans hlen) (by simp [Ledger.move]) ho
      rcases hm m hmn with hpre | ho
      · refine (hkeep T n m hacc hmn hpre).imp ?_ hov
        intro hpre'
        simpa [Ledger.move] using hpre'
      · obtain ⟨T', h1, h2, h3, h4⟩ := ho
        exact Or.inr (hov ⟨T', h1, h2.trans ht, h3, h4⟩)
    · refine (hm m hmn).imp ?_ ?_
      · intro hpre
        simpa [Ledger.move, Function.update_of_ne hv] using hpre
      · exact Overruled.mono h.toMatching hext (hmn.trans hlen) (hext.term_le v)
  · exact fun T hT => h.won_spec_mono hext hT

/-- Before a term has a winner, nothing is overruled in it. -/
theorem VoteSafe.of_won_none {v : S} {T : ℕ} {l : List (Entry β)} (h : VoteSafe L v T T l)
    (hnone : L.won T = none) : VoteSafe L v T (T - 1) l := by
  refine { h with keeps := ?_ }
  intro T' n m hT' hacc hmn
  refine (h.keeps T' n m hT' hacc hmn).imp_right ?_
  rintro ⟨T₁, h1, h2, h3, h4⟩
  have hne : T₁ ≠ T := fun heq => h3 (heq ▸ hnone)
  exact ⟨T₁, h1, by omega, h3, h4⟩

/-- A vote cast now is safe with the log of this moment. -/
theorem Sound.voteSafe (h : Sound Quorum L) (v : S) :
    VoteSafe L v (L.term v) (L.term v) (L.log v) where
  chained := h.log_chained v
  term_le := le_rfl
  keeps := fun T' n m _ hacc hmn => (h.acc_spec v T' n hacc).2.2.2 m hmn

/-- A server wins its term with the votes of a quorum whose logs were not more up to date
than its own. -/
theorem Sound.elect (h : Sound Quorum L) {s : S} (hnew : L.won (L.term s) = none)
    (hlt : ∀ e ∈ L.log s, e.1 < L.term s) {Q : Finset S} (hQ : Quorum Q)
    (hvotes : ∀ v ∈ Q, ∃ l, VoteSafe L v (L.term s) (L.term s) l ∧ UpToDate (L.log s) l) :
    Sound Quorum (L.elect s) := by
  have hext : Extends L (L.elect s) := extends_elect h.toMatching hnew
  refine { h.toMatching.elect hnew with acc_spec := ?_, won_spec := ?_ }
  · intro v T n hacc
    obtain ⟨hwon, hT, hlen, hm⟩ := h.acc_spec v T n hacc
    have hne : T ≠ L.term s := fun heq => hwon (heq ▸ hnew)
    refine ⟨?_, hT, hlen.trans (hext.llog_le T).length_le, ?_⟩
    · rw [hext.won_le T hwon]
      exact hwon
    · intro m hmn
      rw [hext.take_llog (hmn.trans hlen)]
      exact (hm m hmn).imp_right
        (Overruled.mono h.toMatching hext (hmn.trans hlen) le_rfl)
  · intro T hT
    by_cases hTs : T = L.term s
    · subst hTs
      refine ⟨L.log s, Q, by simp [Ledger.elect], hlt, hQ, ?_⟩
      intro v hv
      obtain ⟨l, hsafe, hup⟩ := hvotes v hv
      exact ⟨l, (hsafe.of_won_none hnew).mono h hext, hup⟩
    · refine h.won_spec_mono hext ?_
      simpa [Ledger.elect, Function.update_of_ne hTs] using hT

/-- The leader of a term creates an entry. -/
theorem Sound.append [DecidableEq S] (h : Sound Quorum L) {s : S} (x : β)
    (hwon : L.won (L.term s) ≠ none) (hlog : L.log s = L.llog (L.term s)) :
    Sound Quorum (L.append s x) := by
  have hext : Extends L (L.append s x) := extends_append x hlog
  refine { h.toMatching.append x hwon hlog with acc_spec := ?_, won_spec := ?_ }
  · intro v T n hacc
    obtain ⟨hwonT, hT, hlen, hm⟩ := h.acc_spec v T n hacc
    refine ⟨hwonT, hT, hlen.trans (hext.llog_le T).length_le, ?_⟩
    intro m hmn
    rw [hext.take_llog (hmn.trans hlen)]
    refine (hm m hmn).imp ?_ (Overruled.mono h.toMatching hext (hmn.trans hlen) le_rfl)
    intro hpre
    by_cases hv : v = s
    · subst hv
      simpa [Ledger.append] using hpre.trans (List.prefix_append _ _)
    · simpa [Ledger.append, Function.update_of_ne hv] using hpre
  · exact fun T hT => h.won_spec_mono hext hT

/-- A server accepts a prefix of the leader of its term that its log holds. -/
theorem Sound.accept (h : Sound Quorum L) {s : S} {n : ℕ}
    (hwon : L.won (L.term s) ≠ none) (hlen : n ≤ (L.llog (L.term s)).length)
    (hheld : (L.llog (L.term s)).take n <+: L.log s) : Sound Quorum (L.accept s n) := by
  refine { h.toMatching.accept s n with acc_spec := ?_, won_spec := ?_ }
  · rintro v T m (hacc | ⟨rfl, rfl, rfl⟩)
    · exact h.acc_spec v T m hacc
    · refine ⟨hwon, le_rfl, hlen, fun k hk => Or.inl (List.IsPrefix.trans ?_ hheld)⟩
      exact List.take_prefix_take_left hk
  · exact fun T hT => h.won_spec_mono (extends_accept L s n) hT

end Preservation

end ReplicatedLog
