/-
# The leader's count of replicas

A leader does not ask its followers again which records they have.  It keeps for each follower
the index to send next (`next`) and the last index acknowledged (`match`), and for each record
that a writer waits for the number of replicas still missing (`to_commit`).  `Bookkeeping` says
how these belong together: the replicas that were counted for a record are followers whose
`match` has reached it and whose `next` is past it.  Each operation of `RaftManager` keeps it
under a condition on the state before: the places where the code can count a follower that does
not have the record, or count it twice.
-/
import OpenNebula.RaftManager

namespace RaftManager

/-- `next[f]`, `0` for a server that is no follower. -/
def nextOf (r : RaftManager) (f : ServerId) : ℕ := (r.next.lookup f).getD 0

/-- `match[f]`, `0` for a server that is no follower. -/
def matchOf (r : RaftManager) (f : ServerId) : ℕ := (r.matchIndex.lookup f).getD 0

/-- The followers that are counted for the record at `i`. -/
def counted (r : RaftManager) (i : ℕ) : Finset ServerId :=
  r.servers.toFinset.filter (fun f => i < r.nextOf f ∧ i ≤ r.matchOf f)

/-- The count of replicas of the leader `me` is right. -/
structure Bookkeeping (r : RaftManager) (me : ServerId) : Prop where
  mem : me ∈ r.servers
  size : r.numServers = r.servers.length
  keys : ∀ f, f ∈ r.next → f ∈ r.servers ∧ f ≠ me
  quota : ∀ i rr, r.requests.requests.lookup i = some (some rr) →
    0 < i ∧ 0 < rr.toCommit ∧ ((r.numServers / 2 : ℕ) : ℤ) ≤ rr.toCommit + (r.counted i).card

variable {r : RaftManager} {me f : ServerId} {i : ℕ}

theorem nextOf_of_notMem (h : f ∉ r.next) : r.nextOf f = 0 := by
  rw [nextOf, AList.lookup_eq_none.mpr h]
  rfl

theorem mem_counted : f ∈ r.counted i ↔ f ∈ r.servers ∧ i < r.nextOf f ∧ i ≤ r.matchOf f := by
  rw [counted, Finset.mem_filter, List.mem_toFinset]

theorem Bookkeeping.notMem_counted (h : r.Bookkeeping me) (i : ℕ) : me ∉ r.counted i := by
  intro hmem
  have hlt := (mem_counted.mp hmem).2.1
  have hnot : me ∉ r.next := fun hin => (h.keys me hin).2 rfl
  rw [nextOf_of_notMem hnot] at hlt
  omega

/-- The followers that are counted depend on `servers`, `next` and `match` only. -/
theorem counted_congr {r' : RaftManager} (hs : r'.servers = r.servers) (hn : r'.next = r.next)
    (hm : r'.matchIndex = r.matchIndex) (i : ℕ) : r'.counted i = r.counted i := by
  unfold counted nextOf matchOf
  rw [hs, hn, hm]

/-- Fewer registered requests and the same counts. -/
theorem Bookkeeping.of_requests (h : r.Bookkeeping me) {r' : RaftManager}
    (hs : r'.servers = r.servers) (hsize : r'.numServers = r.numServers) (hn : r'.next = r.next)
    (hm : r'.matchIndex = r.matchIndex)
    (hreq : ∀ i rr, r'.requests.requests.lookup i = some (some rr) →
      r.requests.requests.lookup i = some (some rr)) : r'.Bookkeeping me where
  mem := hs ▸ h.mem
  size := by rw [hsize, hs, h.size]
  keys := by
    rw [hs, hn]
    exact h.keys
  quota := by
    intro i rr hrr
    rw [counted_congr hs hn hm, hsize]
    exact h.quota i rr (hreq i rr hrr)

/-! ## `replicate_log` -/

/-- The replicas that `replicate_log` takes into account are the followers whose `next` is
past the record. -/
theorem replicas_eq {S : Finset ServerId} (hkeys : ∀ f, f ∈ r.next → f ∈ S) (i : ℕ) :
    r.replicas i = (S.filter (fun f => i < r.nextOf f)).card := by
  have hnodup : ((r.next.entries.filter (fun e : (_ : ServerId) × ℕ => i < e.2)).map
      Sigma.fst).Nodup :=
    (r.next.keys_nodup).sublist ((List.filter_sublist).map _)
  rw [replicas, ← List.length_map (f := Sigma.fst), ← List.toFinset_card_of_nodup hnodup]
  congr 1
  ext f
  rw [List.mem_toFinset, List.mem_map, Finset.mem_filter]
  constructor
  · rintro ⟨e, he, rfl⟩
    obtain ⟨hmem, hlt⟩ := List.mem_filter.mp he
    have hlook : r.next.lookup e.1 = some e.2 := AList.mem_lookup_iff.mpr hmem
    refine ⟨hkeys _ (AList.lookup_isSome.mp (by rw [hlook]; rfl)), ?_⟩
    rw [nextOf, hlook]
    simpa using hlt
  · rintro ⟨-, hlt⟩
    cases hlook : r.next.lookup f with
    | none =>
      rw [nextOf, hlook] at hlt
      exact absurd hlt (by simp)
    | some n =>
      rw [nextOf, hlook] at hlt
      refine ⟨⟨f, n⟩, List.mem_filter.mpr ⟨AList.mem_lookup_iff.mp hlook, ?_⟩, rfl⟩
      simpa using hlt

/-- A later record has no more replicas. -/
theorem replicas_anti (r : RaftManager) {i j : ℕ} (hij : i ≤ j) : r.replicas j ≤ r.replicas i := by
  have hkeys : ∀ f, f ∈ r.next → f ∈ r.next.keys.toFinset := fun f hf => List.mem_toFinset.mpr hf
  rw [replicas_eq hkeys, replicas_eq hkeys]
  apply Finset.card_le_card
  intro f hf
  rw [Finset.mem_filter] at hf ⊢
  exact ⟨hf.1, by omega⟩

/-- What becomes of `next` when one entry is replaced. -/
theorem nextOf_insert {r' : RaftManager} {k : ℕ} (hn : r'.next = r.next.insert f k)
    (g : ServerId) : r'.nextOf g = if g = f then k else r.nextOf g := by
  unfold nextOf
  rw [hn]
  by_cases hg : g = f
  · rw [if_pos hg, hg, AList.lookup_insert]
    rfl
  · rw [if_neg hg, AList.lookup_insert_ne hg]

/-- A follower that moves is one of those before. -/
theorem keys_insert {r' : RaftManager} {k : ℕ} (hf : f ∈ r.next) (hn : r'.next = r.next.insert f k) :
    (∀ g, g ∈ r.next → g ∈ r.next.keys.toFinset) ∧ ∀ g, g ∈ r'.next → g ∈ r.next.keys.toFinset := by
  refine ⟨fun g hg => List.mem_toFinset.mpr hg, fun g hg => List.mem_toFinset.mpr ?_⟩
  rw [hn, AList.mem_insert] at hg
  rcases hg with rfl | hg
  · exact hf
  · exact hg

/-- A follower that moves without passing a record changes nothing for that record. -/
theorem replicas_move {r' : RaftManager} {k : ℕ} (hf : f ∈ r.next)
    (hn : r'.next = r.next.insert f k) (hiff : i < k ↔ i < r.nextOf f) :
    r'.replicas i = r.replicas i := by
  obtain ⟨hkeys, hkeys'⟩ := keys_insert hf hn
  rw [replicas_eq hkeys, replicas_eq hkeys']
  congr 1
  apply Finset.filter_congr
  intro g _
  rw [nextOf_insert hn]
  by_cases hg : g = f
  · rw [if_pos hg, hg, hiff]
  · rw [if_neg hg]

/-- A follower that passes the record at `next[f]` is one replica more; it was a replica of all
the records before. -/
theorem replicas_pass {r' : RaftManager} {n : ℕ} (hf : r.next.lookup f = some n)
    (hn : r'.next = r.next.insert f (n + 1)) :
    r'.replicas n = r.replicas n + 1 ∧ ∀ j, j < n → r.replicas n + 1 ≤ r.replicas j := by
  have hmem : f ∈ r.next := AList.lookup_isSome.mp (by rw [hf]; rfl)
  have hnf : r.nextOf f = n := by
    rw [nextOf, hf]
    rfl
  obtain ⟨hkeys, hkeys'⟩ := keys_insert hmem hn
  have hnot : f ∉ r.next.keys.toFinset.filter (fun g => n < r.nextOf g) := by
    intro hin
    have := (Finset.mem_filter.mp hin).2
    omega
  constructor
  · rw [replicas_eq hkeys, replicas_eq hkeys', ← Finset.card_insert_of_notMem hnot]
    congr 1
    ext g
    rw [Finset.mem_insert, Finset.mem_filter, Finset.mem_filter, nextOf_insert hn]
    by_cases hg : g = f
    · rw [if_pos hg, hg]
      exact ⟨fun _ => Or.inl rfl, fun _ => ⟨hkeys f hmem, by omega⟩⟩
    · rw [if_neg hg]
      exact ⟨Or.inr, fun h => h.resolve_left hg⟩
  · intro j hj
    rw [replicas_eq hkeys, replicas_eq hkeys, ← Finset.card_insert_of_notMem hnot]
    apply Finset.card_le_card
    intro g hg
    rw [Finset.mem_insert, Finset.mem_filter] at hg
    rw [Finset.mem_filter]
    rcases hg with rfl | ⟨h1, h2⟩
    · exact ⟨hkeys g hmem, by omega⟩
    · exact ⟨h1, by omega⟩

/-- If no follower is past the record without having acknowledged it, the replicas that
`replicate_log` finds are those that are counted. -/
theorem Bookkeeping.replicas_eq_counted (h : r.Bookkeeping me)
    (hacked : ∀ f ∈ r.servers, i < r.nextOf f → i ≤ r.matchOf f) :
    r.replicas i = (r.counted i).card := by
  rw [replicas_eq (fun f hf => List.mem_toFinset.mpr (h.keys f hf).1), counted]
  congr 1
  ext f
  simp only [Finset.mem_filter, List.mem_toFinset]
  constructor
  · rintro ⟨hf, hlt⟩
    exact ⟨hf, hlt, hacked f hf hlt⟩
  · rintro ⟨hf, hlt, -⟩
    exact ⟨hf, hlt⟩

/-- `replicate_log` on a leader: what it leaves, and what is known when it commits. -/
theorem Bookkeeping.replicateLog (h : r.Bookkeeping me) (hl : r.state = .leader) (ticket : ℕ)
    (hi : 0 < i) (hacked : ∀ f ∈ r.servers, i < r.nextOf f → i ≤ r.matchOf f) :
    (r.replicateLog ticket i).1.Bookkeeping me ∧
      (∀ j, (r.replicateLog ticket i).2 = some j →
        j = i ∧ r.numServers / 2 ≤ (r.counted i).card) := by
  have hrep := h.replicas_eq_counted hacked
  unfold RaftManager.replicateLog
  rw [if_neg (by simpa using hl)]
  dsimp only
  split
  · rename_i hle
    refine ⟨h.of_requests rfl rfl rfl rfl ?_, ?_⟩
    · intro j rr hrr
      simp only [ReplicaRequestMap.remove, ReplicaRequestMap.notify] at hrr
      by_cases hj : j = i
      · rw [hj, AList.lookup_erase] at hrr
        exact absurd hrr (by simp)
      · rwa [AList.lookup_erase_ne hj] at hrr
    · intro j hj
      rw [Option.some.injEq] at hj
      exact ⟨hj.symm, by omega⟩
  · rename_i hgt
    refine ⟨⟨h.mem, h.size, h.keys, ?_⟩, by simp⟩
    intro j rr hrr
    simp only [ReplicaRequestMap.set] at hrr
    by_cases hj : j = i
    · rw [hj, AList.lookup_insert, Option.some.injEq, Option.some.injEq] at hrr
      subst hrr
      rw [hj]
      refine ⟨hi, ?_, ?_⟩
      · show (0 : ℤ) < ((r.numServers / 2 : ℕ) : ℤ) - (r.replicas i : ℤ)
        omega
      · show ((r.numServers / 2 : ℕ) : ℤ) ≤
          ((r.numServers / 2 : ℕ) : ℤ) - (r.replicas i : ℤ) + (r.counted i).card
        omega
    · rw [AList.lookup_insert_ne hj] at hrr
      exact h.quota j rr hrr

/-- `replicate_log` moves no follower. -/
theorem replicateLog_next (r : RaftManager) (ticket i : ℕ) :
    (r.replicateLog ticket i).1.next = r.next ∧
      (r.replicateLog ticket i).1.matchIndex = r.matchIndex := by
  unfold RaftManager.replicateLog
  split
  · exact ⟨rfl, rfl⟩
  · dsimp only
    split <;> exact ⟨rfl, rfl⟩

/-- `replicate_allocate` registers nothing yet. -/
theorem lookup_allocate (m : ReplicaRequestMap) (i j : ℕ) (rr : ReplicaRequest)
    (h : (m.allocate i).requests.lookup j = some (some rr)) :
    m.requests.lookup j = some (some rr) := by
  unfold ReplicaRequestMap.allocate at h
  split at h
  · exact h
  · by_cases hj : j = i
    · rw [hj, AList.lookup_insert] at h
      exact absurd h (by simp)
    · rwa [AList.lookup_insert_ne hj] at h

/-! ## `replicate_success` and `replicate_failure` -/

/-- What `add_replica` does to the request of the record. -/
theorem addReplica_cases (m : ReplicaRequestMap) (i : ℕ) :
    (∃ rr, m.requests.lookup i = some (some rr) ∧ rr.addReplica.toCommit = 0 ∧
        (m.addReplica i).1.requests = m.requests.erase i ∧ (m.addReplica i).2 = 0 ∧
        (m.addReplica i).1.answers = (rr.ticket, true) :: m.answers) ∨
      (∃ rr, m.requests.lookup i = some (some rr) ∧ rr.addReplica.toCommit ≠ 0 ∧
        (m.addReplica i).1.requests = m.requests.insert i (some rr.addReplica) ∧
        (m.addReplica i).2 ≠ 0 ∧ (m.addReplica i).1.answers = m.answers) ∨
      ((∀ rr, m.requests.lookup i ≠ some (some rr)) ∧ (m.addReplica i).1 = m ∧
        (m.addReplica i).2 ≠ 0) := by
  unfold ReplicaRequestMap.addReplica
  split
  · rename_i rr hrr
    dsimp only
    split
    · rename_i h0
      exact Or.inl ⟨rr, hrr, h0, rfl, rfl, rfl⟩
    · rename_i h0
      exact Or.inr (Or.inl ⟨rr, hrr, h0, rfl, h0, rfl⟩)
  · rename_i hnone
    exact Or.inr (Or.inr ⟨fun rr => hnone rr, rfl, by simp⟩)

/-- What `replicate_success` does for a follower. -/
theorem replicateSuccess_some {n m : ℕ} (hn : r.next.lookup f = some n)
    (hm : r.matchIndex.lookup f = some m) (dbLindex : ℕ) :
    (r.replicateSuccess f dbLindex).1.next = r.next.insert f (n + 1) ∧
      (r.replicateSuccess f dbLindex).1.matchIndex = r.matchIndex.insert f n ∧
      (r.replicateSuccess f dbLindex).1.requests = (r.requests.addReplica n).1 ∧
      (r.replicateSuccess f dbLindex).1.commit =
        (if (r.requests.addReplica n).2 = 0 then n else r.commit) ∧
      (r.replicateSuccess f dbLindex).2 =
        (if (r.requests.addReplica n).2 = 0 then some n else none) := by
  unfold replicateSuccess
  rw [hn, hm]
  exact ⟨rfl, rfl, rfl, rfl, rfl⟩

theorem replicateSuccess_none
    (h : r.next.lookup f = none ∨ r.matchIndex.lookup f = none) (dbLindex : ℕ) :
    r.replicateSuccess f dbLindex = (r, none) := by
  unfold replicateSuccess
  rcases h with h | h
  · rw [h]
  · rw [h]
    cases r.next.lookup f <;> rfl

/-- `replicate_success`: the follower is counted for the record at `next[f]`, once. -/
theorem Bookkeeping.replicateSuccess (h : r.Bookkeeping me) (f : ServerId) (dbLindex : ℕ) :
    (r.replicateSuccess f dbLindex).1.Bookkeeping me ∧
      (∀ j, (r.replicateSuccess f dbLindex).2 = some j →
        0 < j ∧ r.next.lookup f = some j ∧
        (∃ rr, r.requests.requests.lookup j = some (some rr) ∧ rr.toCommit = 1) ∧
        r.numServers / 2 ≤ ((r.replicateSuccess f dbLindex).1.counted j).card) := by
  cases hn : r.next.lookup f with
  | none =>
    rw [replicateSuccess_none (Or.inl hn)]
    exact ⟨h, by simp⟩
  | some n =>
  cases hm : r.matchIndex.lookup f with
  | none =>
    rw [replicateSuccess_none (Or.inr hm)]
    exact ⟨h, by simp⟩
  | some m =>
  have hsame := r.sameVote_replicateSuccess f dbLindex
  obtain ⟨hnext, hmatch, hreq, -, hres⟩ := replicateSuccess_some hn hm dbLindex
  have hfmem : f ∈ r.servers := (h.keys f (AList.lookup_isSome.mp (by rw [hn]; rfl))).1
  generalize r.replicateSuccess f dbLindex = res at hsame hnext hmatch hreq hres ⊢
  obtain ⟨r', c⟩ := res
  dsimp only at hsame hnext hmatch hreq hres ⊢
  have hnextOf := nextOf_insert hnext
  have hmatchOf : ∀ g, r'.matchOf g = if g = f then n else r.matchOf g := by
    intro g
    unfold matchOf
    rw [hmatch]
    by_cases hg : g = f
    · rw [if_pos hg, hg, AList.lookup_insert]
      rfl
    · rw [if_neg hg, AList.lookup_insert_ne hg]
  have hnf : r.nextOf f = n := by
    rw [nextOf, hn]
    rfl
  have hsub : ∀ j, r.counted j ⊆ r'.counted j := by
    intro j g hg
    rw [mem_counted] at hg ⊢
    rw [hsame.servers, hnextOf, hmatchOf]
    by_cases hgf : g = f
    · rw [hgf, hnf] at hg
      rw [if_pos hgf, if_pos hgf, hgf]
      exact ⟨hg.1, by omega, by omega⟩
    · rw [if_neg hgf, if_neg hgf]
      exact hg
  -- the follower was not counted for the record at `next[f]` before
  have hcard : (r.counted n).card + 1 ≤ (r'.counted n).card := by
    have hnot : f ∉ r.counted n := by
      intro hg
      have := (mem_counted.mp hg).2.1
      omega
    rw [← Finset.card_insert_of_notMem hnot]
    refine Finset.card_le_card (Finset.insert_subset ?_ (hsub n))
    rw [mem_counted, hsame.servers, hnextOf, hmatchOf, if_pos rfl, if_pos rfl]
    exact ⟨hfmem, by omega, le_rfl⟩
  have hquota : ∀ j rr, r.requests.requests.lookup j = some (some rr) →
      0 < j ∧ 0 < rr.toCommit ∧
        ((r.numServers / 2 : ℕ) : ℤ) ≤ rr.toCommit + (r'.counted j).card := by
    intro j rr hrr
    obtain ⟨h1, h2, h3⟩ := h.quota j rr hrr
    have := Finset.card_le_card (hsub j)
    exact ⟨h1, h2, by omega⟩
  have hbook : ∀ (hq : ∀ j rr, r'.requests.requests.lookup j = some (some rr) →
      0 < j ∧ 0 < rr.toCommit ∧
        ((r.numServers / 2 : ℕ) : ℤ) ≤ rr.toCommit + (r'.counted j).card),
      r'.Bookkeeping me := by
    intro hq
    refine ⟨hsame.servers ▸ h.mem, by rw [hsame.numServers, hsame.servers, h.size], ?_, ?_⟩
    · intro g hg
      rw [hnext, AList.mem_insert] at hg
      rw [hsame.servers]
      rcases hg with rfl | hg
      · exact h.keys g (AList.lookup_isSome.mp (by rw [hn]; rfl))
      · exact h.keys g hg
    · rw [hsame.numServers]
      exact hq
  rcases addReplica_cases r.requests n with
    ⟨rr, hrr, h0, hmap, hzero, -⟩ | ⟨rr, hrr, h0, hmap, hzero, -⟩ | ⟨hnone, hmap, hzero⟩
  · obtain ⟨hpos, htc, hq⟩ := h.quota n rr hrr
    have htc' : rr.toCommit = 1 := by
      simp only [ReplicaRequest.addReplica, if_pos htc] at h0
      omega
    refine ⟨hbook ?_, ?_⟩
    · intro j rr' hrr'
      rw [hreq, hmap] at hrr'
      by_cases hj : j = n
      · rw [hj, AList.lookup_erase] at hrr'
        exact absurd hrr' (by simp)
      · rw [AList.lookup_erase_ne hj] at hrr'
        exact hquota j rr' hrr'
    · intro j hj
      rw [hres, if_pos hzero, Option.some.injEq] at hj
      subst hj
      exact ⟨hpos, rfl, ⟨rr, hrr, htc'⟩, by omega⟩
  · refine ⟨hbook ?_, ?_⟩
    · intro j rr' hrr'
      rw [hreq, hmap] at hrr'
      by_cases hj : j = n
      · subst hj
        rw [AList.lookup_insert, Option.some.injEq, Option.some.injEq] at hrr'
        subst hrr'
        obtain ⟨hpos, htc, hq⟩ := h.quota j rr hrr
        simp only [ReplicaRequest.addReplica, if_pos htc] at h0 ⊢
        exact ⟨hpos, by omega, by omega⟩
      · rw [AList.lookup_insert_ne hj] at hrr'
        exact hquota j rr' hrr'
    · intro j hj
      rw [hres, if_neg hzero] at hj
      exact absurd hj (by simp)
  · refine ⟨hbook ?_, ?_⟩
    · intro j rr' hrr'
      rw [hreq, hmap] at hrr'
      exact hquota j rr' hrr'
    · intro j hj
      rw [hres, if_neg hzero] at hj
      exact absurd hj (by simp)

/-- After `replicate_success` the follower has acknowledged the record at `next[f]`. -/
theorem matchOf_replicateSuccess (r : RaftManager) (f : ServerId) (dbLindex : ℕ) (g : ServerId) :
    (r.replicateSuccess f dbLindex).1.matchOf g = r.matchOf g ∨
      (g = f ∧ r.next.lookup f = some ((r.replicateSuccess f dbLindex).1.matchOf g)) := by
  cases hn : r.next.lookup f with
  | none =>
    rw [replicateSuccess_none (Or.inl hn)]
    exact Or.inl rfl
  | some n =>
  cases hm : r.matchIndex.lookup f with
  | none =>
    rw [replicateSuccess_none (Or.inr hm)]
    exact Or.inl rfl
  | some m =>
  obtain ⟨-, hmatch, -⟩ := replicateSuccess_some hn hm dbLindex
  unfold matchOf
  rw [hmatch]
  by_cases hg : g = f
  · rw [hg, AList.lookup_insert]
    exact Or.inr ⟨rfl, rfl⟩
  · rw [AList.lookup_insert_ne hg]
    exact Or.inl rfl

/-- Setting `next[f]` to `k` takes back no replica that is counted. -/
def MayMove (r : RaftManager) (f : ServerId) (k : ℕ) : Prop :=
  ∀ e ∈ r.requests.requests.entries, e.2.isSome → e.1 < r.nextOf f → e.1 ≤ r.matchOf f → e.1 < k

instance (r : RaftManager) (f : ServerId) (k : ℕ) : Decidable (r.MayMove f k) :=
  inferInstanceAs (Decidable (∀ e ∈ r.requests.requests.entries, _))

/-- A change of `next[f]` that takes back no replica. -/
theorem Bookkeeping.move (h : r.Bookkeeping me) {r' : RaftManager} {k : ℕ} (hf : f ∈ r.next)
    (hs : r'.servers = r.servers) (hsize : r'.numServers = r.numServers)
    (hn : r'.next = r.next.insert f k) (hm : r'.matchIndex = r.matchIndex)
    (hreq : r'.requests = r.requests) (hmove : r.MayMove f k) : r'.Bookkeeping me where
  mem := hs ▸ h.mem
  size := by rw [hsize, hs, h.size]
  keys := by
    intro g hg
    rw [hn, AList.mem_insert] at hg
    rw [hs]
    rcases hg with rfl | hg
    · exact h.keys g hf
    · exact h.keys g hg
  quota := by
    intro j rr hrr
    rw [hreq] at hrr
    obtain ⟨h1, h2, h3⟩ := h.quota j rr hrr
    have hsub : r.counted j ⊆ r'.counted j := by
      intro g hg
      rw [mem_counted] at hg ⊢
      have hmatch : r'.matchOf g = r.matchOf g := by rw [matchOf, hm, matchOf]
      rw [hs, hmatch]
      refine ⟨hg.1, ?_, hg.2.2⟩
      unfold nextOf
      rw [hn]
      by_cases hgf : g = f
      · subst hgf
        rw [AList.lookup_insert]
        exact hmove ⟨j, some rr⟩ (AList.mem_lookup_iff.mp hrr) rfl hg.2.1 hg.2.2
      · rw [AList.lookup_insert_ne hgf]
        exact hg.2.1
    have := Finset.card_le_card hsub
    rw [hsize]
    exact ⟨h1, h2, by omega⟩

/-- What `replicate_failure` does: it moves `next[f]` back by one. -/
theorem replicateFailure_cases (r : RaftManager) (f : ServerId) :
    (r.replicateFailure f).requests = r.requests ∧
      (r.replicateFailure f).matchIndex = r.matchIndex ∧
      (r.replicateFailure f).commit = r.commit ∧
      ((r.replicateFailure f).next = r.next ∨
        (f ∈ r.next ∧ (r.replicateFailure f).next = r.next.insert f (r.nextOf f - 1))) := by
  unfold replicateFailure nextOf
  cases hn : r.next.lookup f with
  | none =>
    dsimp only
    split <;> exact ⟨rfl, rfl, rfl, Or.inl rfl⟩
  | some n =>
    have hf : f ∈ r.next := AList.lookup_isSome.mp (by rw [hn]; rfl)
    by_cases hpos : 0 < n
    · simp only [hpos, if_true]
      split <;> exact ⟨rfl, rfl, rfl, Or.inr ⟨hf, rfl⟩⟩
    · simp only [hpos, if_false]
      split <;> exact ⟨rfl, rfl, rfl, Or.inl rfl⟩

theorem Bookkeeping.replicateFailure (h : r.Bookkeeping me) (f : ServerId)
    (hmove : r.MayMove f (r.nextOf f - 1)) : (r.replicateFailure f).Bookkeeping me := by
  have hsame := r.sameVote_replicateFailure f
  obtain ⟨hreq, hm, -, hn | ⟨hf, hn⟩⟩ := r.replicateFailure_cases f
  · refine h.of_requests hsame.servers hsame.numServers hn hm ?_
    rw [hreq]
    exact fun _ _ hrr => hrr
  · exact h.move hf hsame.servers hsame.numServers hn hm hreq hmove

/-! ## `reset_index`, `add_server` and `leader` -/

theorem resetIndex_cases (r : RaftManager) (f : ServerId) (i : ℕ) :
    r.resetIndex f i = r ∨
      (f ∈ r.next ∧ r.resetIndex f i = { r with next := r.next.insert f (i + 1) }) := by
  unfold resetIndex
  cases hn : r.next.lookup f with
  | none => exact Or.inl rfl
  | some n => exact Or.inr ⟨AList.lookup_isSome.mp (by rw [hn]; rfl), rfl⟩

theorem Bookkeeping.resetIndex (h : r.Bookkeeping me) (f : ServerId) (i : ℕ)
    (hmove : r.MayMove f (i + 1)) : (r.resetIndex f i).Bookkeeping me := by
  rcases r.resetIndex_cases f i with heq | ⟨hf, heq⟩
  · rw [heq]
    exact h
  · rw [heq]
    exact h.move hf rfl rfl rfl rfl rfl hmove

/-- A server that is added has acknowledged nothing. -/
theorem matchOf_addServer (r : RaftManager) (f : ServerId) (i : ℕ) (g : ServerId) :
    (r.addServer f i).matchOf g = r.matchOf g := by
  unfold addServer
  split
  · rfl
  · unfold matchOf
    dsimp only
    split
    · rfl
    · rename_i hf
      by_cases hg : g = f
      · rw [hg, AList.lookup_insert, AList.lookup_eq_none.mpr hf]
        rfl
      · rw [AList.lookup_insert_ne hg]

/-- `add_server` for a new server, while no request counts on the old number of servers. -/
theorem Bookkeeping.addServer (h : r.Bookkeeping me) (hl : r.state = .leader) {f : ServerId}
    (i : ℕ) (hf : f ∉ r.servers)
    (hquota : r.numServers % 2 = 0 ∨ ∀ e ∈ r.requests.requests.entries, ¬ e.2.isSome) :
    (r.addServer f i).Bookkeeping me ∧ (r.addServer f i).servers = r.servers ++ [f] := by
  have hnext : f ∉ r.next := fun hin => hf (h.keys f hin).1
  have hmatch := r.matchOf_addServer f i
  have hres : (r.addServer f i).servers = r.servers ++ [f] ∧
      (r.addServer f i).numServers = r.numServers + 1 ∧
      (r.addServer f i).next = r.next.insert f (i + 1) ∧
      (r.addServer f i).requests = r.requests := by
    unfold RaftManager.addServer
    rw [if_neg (by simpa using hl)]
    exact ⟨if_neg hf, rfl, if_neg hnext, rfl⟩
  obtain ⟨hservers, hsize, hn, hreq⟩ := hres
  refine ⟨⟨?_, ?_, ?_, ?_⟩, hservers⟩
  · rw [hservers]
    exact List.mem_append_left _ h.mem
  · rw [hsize, hservers, List.length_append, h.size]
    rfl
  · intro g hg
    rw [hn, AList.mem_insert] at hg
    rw [hservers]
    rcases hg with rfl | hg
    · exact ⟨by simp, fun heq => hf (heq ▸ h.mem)⟩
    · exact ⟨List.mem_append_left _ (h.keys g hg).1, (h.keys g hg).2⟩
  · intro j rr hrr
    rw [hreq] at hrr
    obtain ⟨h1, h2, h3⟩ := h.quota j rr hrr
    have hsub : r.counted j ⊆ (r.addServer f i).counted j := by
      intro g hg
      rw [mem_counted] at hg ⊢
      rw [hmatch, hservers]
      refine ⟨List.mem_append_left _ hg.1, ?_, hg.2.2⟩
      have hgf : g ≠ f := fun heq => hf (heq ▸ hg.1)
      unfold nextOf
      rw [hn, AList.lookup_insert_ne hgf]
      exact hg.2.1
    have hcard := Finset.card_le_card hsub
    have heven : r.numServers % 2 = 0 := by
      refine hquota.resolve_right ?_
      intro hnone
      exact hnone ⟨j, some rr⟩ (AList.mem_lookup_iff.mp hrr) rfl
    rw [hsize]
    exact ⟨h1, h2, by omega⟩

/-- The keys of a map that is filled with one value for each element of a list. -/
theorem mem_foldl_insert (l : List ServerId) (k : ℕ) (m : AList (fun _ : ServerId => ℕ))
    (g : ServerId) : g ∈ l.foldl (fun m f => m.insert f k) m ↔ g ∈ l ∨ g ∈ m := by
  induction l generalizing m with
  | nil => simp
  | cons f l ih =>
    rw [List.foldl_cons, ih, AList.mem_insert, List.mem_cons]
    tauto

theorem lookup_foldl_insert (l : List ServerId) (k : ℕ) (m : AList (fun _ : ServerId => ℕ))
    (hm : ∀ g n, m.lookup g = some n → n = k) (g : ServerId) (n : ℕ)
    (h : (l.foldl (fun m f => m.insert f k) m).lookup g = some n) : n = k := by
  induction l generalizing m with
  | nil => exact hm g n h
  | cons f l ih =>
    refine ih (m.insert f k) ?_ h
    intro g' n' h'
    by_cases hg : g' = f
    · rw [hg, AList.lookup_insert, Option.some.injEq] at h'
      exact h'.symm
    · rw [AList.lookup_insert_ne hg] at h'
      exact hm g' n' h'

/-- A new leader has counted nothing yet. -/
theorem bookkeeping_leader {r' : RaftManager} {applied index : ℕ} {o : Option ℕ}
    (hr : r.leader me applied index = some (r', o)) (hmem : me ∈ r.servers)
    (hsize : r.numServers = r.servers.length) :
    r'.Bookkeeping me ∧ ∀ g, r'.matchOf g = 0 := by
  unfold RaftManager.leader at hr
  split at hr
  · exact absurd hr (by simp)
  · rw [Option.some.injEq, Prod.mk.injEq] at hr
    obtain ⟨rfl, -⟩ := hr
    refine ⟨⟨hmem, hsize, ?_, ?_⟩, ?_⟩
    · intro g hg
      rw [mem_foldl_insert] at hg
      rcases hg with hg | hg
      · rw [List.mem_filter, decide_eq_true_eq] at hg
        exact hg
      · exact absurd hg (AList.notMem_empty g)
    · intro j rr hrr
      have hempty : (∅ : AList (fun _ : ℕ => Option ReplicaRequest)).lookup j = some (some rr) := hrr
      rw [AList.lookup_empty] at hempty
      exact absurd hempty (by simp)
    · intro g
      unfold matchOf
      dsimp only
      cases hlook : (List.foldl (fun m f => AList.insert f 0 m) ∅
          (r.servers.filter (fun f => f ≠ me))).lookup g with
      | none => rfl
      | some n =>
        refine lookup_foldl_insert _ 0 ∅ ?_ g n hlook
        intro g' n' h'
        rw [AList.lookup_empty] at h'
        exact absurd h' (by simp)

end RaftManager
