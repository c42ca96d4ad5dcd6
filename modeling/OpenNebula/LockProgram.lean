/-
# Programs of one thread with a lock

A thread takes and frees a lock that is not recursive, and asks its surroundings (a database, another
component) questions whose answers are not known.  A program is the tree of what the thread does next
(`LockProgram`); a run follows the answers, and it ends at a self-lock if the thread takes the lock while
it holds it (`Runs`).

`Exact held bad p` says when the program `p` locks itself: exactly when an event of the kind `bad` is in
the run, and when the program ends the lock is held as it was at the start.  The rules below take a
program apart: a sequence (`Exact.bind`), a question (`Exact.query`, `Exact.query_bind`) and a part that
is run under the lock (`Exact.guarded`).
-/
import Mathlib

/-- A program of one thread: it ends with a result, takes or frees the lock, asks a question, or is not
looked at any further. -/
inductive LockProgram (Q : Type) (A : Q → Type) (α : Type) where
  | ret (a : α)
  | lock (k : LockProgram Q A α)
  | unlock (k : LockProgram Q A α)
  | ask (q : Q) (k : A q → LockProgram Q A α)
  | stop

namespace LockProgram

variable {Q : Type} {A : Q → Type} {α β : Type}

/-- One program after another. -/
def andThen : LockProgram Q A α → (α → LockProgram Q A β) → LockProgram Q A β
  | ret a, f => f a
  | lock k, f => lock (andThen k f)
  | unlock k, f => unlock (andThen k f)
  | ask q k, f => ask q fun a => andThen (k a) f
  | stop, _ => stop

instance : Monad (LockProgram Q A) where
  pure := ret
  bind := andThen

/-- A question, with its answer as the result. -/
def query (q : Q) : LockProgram Q A (A q) := ask q ret

/-- A program that is run under the lock. -/
def guarded (p : LockProgram Q A α) : LockProgram Q A α :=
  lock (p >>= fun a => unlock (ret a))

/-- A question and its answer. -/
abbrev Event (Q : Type) (A : Q → Type) : Type := Σ q, A q

/-- How a run ends: with a result and the lock held or not, at a lock that the thread itself holds, or
where the run is not looked at any further. -/
inductive Outcome (α : Type) where
  | done (held : Bool) (a : α)
  | selfLock
  | stopped

/-- The runs of a program from a state of the lock, with their events and their end. -/
inductive Runs : Bool → LockProgram Q A α → List (Event Q A) → Outcome α → Prop
  | ret (held : Bool) (a : α) : Runs held (ret a) [] (.done held a)
  | lock {k : LockProgram Q A α} {t : List (Event Q A)} {o : Outcome α} :
      Runs true k t o → Runs false (lock k) t o
  | selfLock (k : LockProgram Q A α) : Runs true (lock k) [] .selfLock
  | unlock {held : Bool} {k : LockProgram Q A α} {t : List (Event Q A)} {o : Outcome α} :
      Runs false k t o → Runs held (unlock k) t o
  | ask {held : Bool} {q : Q} {k : A q → LockProgram Q A α} {t : List (Event Q A)} {o : Outcome α}
      (a : A q) : Runs held (k a) t o → Runs held (ask q k) (⟨q, a⟩ :: t) o
  | stop (held : Bool) : Runs held stop [] .stopped

/-- **The runs of a sequence**: the first program ends and the second one goes on, or the run of the first
one breaks off. -/
theorem runs_andThen {p : LockProgram Q A α} {f : α → LockProgram Q A β} :
    ∀ {held : Bool} {t : List (Event Q A)} {o : Outcome β}, Runs held (p.andThen f) t o →
      (∃ held' a t₁ t₂, t = t₁ ++ t₂ ∧ Runs held p t₁ (.done held' a) ∧ Runs held' (f a) t₂ o) ∨
      (o = .selfLock ∧ Runs held p t .selfLock) ∨ (o = .stopped ∧ Runs held p t .stopped) := by
  induction p with
  | ret a =>
    intro held t o h
    exact Or.inl ⟨held, a, [], t, rfl, Runs.ret held a, h⟩
  | lock k ih =>
    intro held t o h
    cases h with
    | lock h =>
      rcases ih h with ⟨held', a, t₁, t₂, ht, hp, hf⟩ | ⟨ho, hp⟩ | ⟨ho, hp⟩
      · exact Or.inl ⟨held', a, t₁, t₂, ht, Runs.lock hp, hf⟩
      · exact Or.inr (Or.inl ⟨ho, Runs.lock hp⟩)
      · exact Or.inr (Or.inr ⟨ho, Runs.lock hp⟩)
    | selfLock => exact Or.inr (Or.inl ⟨rfl, Runs.selfLock k⟩)
  | unlock k ih =>
    intro held t o h
    cases h with
    | unlock h =>
      rcases ih h with ⟨held', a, t₁, t₂, ht, hp, hf⟩ | ⟨ho, hp⟩ | ⟨ho, hp⟩
      · exact Or.inl ⟨held', a, t₁, t₂, ht, Runs.unlock hp, hf⟩
      · exact Or.inr (Or.inl ⟨ho, Runs.unlock hp⟩)
      · exact Or.inr (Or.inr ⟨ho, Runs.unlock hp⟩)
  | ask q k ih =>
    intro held t o h
    cases h with
    | ask a h =>
      rcases ih a h with ⟨held', b, t₁, t₂, ht, hp, hf⟩ | ⟨ho, hp⟩ | ⟨ho, hp⟩
      · exact Or.inl ⟨held', b, ⟨q, a⟩ :: t₁, t₂, by rw [ht, List.cons_append], Runs.ask a hp, hf⟩
      · exact Or.inr (Or.inl ⟨ho, Runs.ask a hp⟩)
      · exact Or.inr (Or.inr ⟨ho, Runs.ask a hp⟩)
  | stop =>
    intro held t o h
    cases h with
    | stop => exact Or.inr (Or.inr ⟨rfl, Runs.stop held⟩)

/-- A part under the lock is a self-lock for a thread that holds it. -/
theorem runs_guarded_held {p : LockProgram Q A α} {f : α → LockProgram Q A β}
    {t : List (Event Q A)} {o : Outcome β} (h : Runs true (guarded p >>= f) t o) : o = .selfLock := by
  cases h with
  | selfLock => rfl

/-! ## When a program locks itself -/

/-- The program locks itself exactly in the runs with a bad event, and at its end the lock is held as it
was at the start. -/
structure Exact (held : Bool) (bad : Event Q A → Prop) (p : LockProgram Q A α) : Prop where
  selfLock_iff : ∀ t o, Runs held p t o → (o = .selfLock ↔ ∃ e ∈ t, bad e)
  held_eq : ∀ t held' a, Runs held p t (.done held' a) → held' = held

variable {held : Bool} {bad : Event Q A → Prop} {p : LockProgram Q A α} {f : α → LockProgram Q A β}

theorem Exact.pure (held : Bool) (bad : Event Q A → Prop) (a : α) :
    Exact held bad (pure a : LockProgram Q A α) := by
  constructor
  · intro t o h
    cases h with
    | ret => simp
  · intro t held' b h
    cases h with
    | ret => rfl

theorem Exact.stop (held : Bool) (bad : Event Q A → Prop) :
    Exact held bad (LockProgram.stop : LockProgram Q A α) := by
  constructor
  · intro t o h
    cases h with
    | stop => simp
  · intro t held' a h
    cases h

/-- **The rule of a sequence.** -/
theorem Exact.bind (hp : Exact held bad p) (hf : ∀ a, Exact held bad (f a)) :
    Exact held bad (p >>= f) := by
  constructor
  · intro t o h
    rcases runs_andThen h with ⟨held', a, t₁, t₂, rfl, hrun, hrest⟩ | ⟨rfl, hrun⟩ | ⟨rfl, hrun⟩
    · obtain rfl := hp.held_eq t₁ held' a hrun
      have hfirst := hp.selfLock_iff t₁ _ hrun
      have hnone : ¬ ∃ e ∈ t₁, bad e := fun hbad => absurd (hfirst.mpr hbad) (by simp)
      rw [(hf a).selfLock_iff t₂ o hrest]
      constructor
      · rintro ⟨e, he, hbad⟩
        exact ⟨e, List.mem_append_right _ he, hbad⟩
      · rintro ⟨e, he, hbad⟩
        rcases List.mem_append.mp he with he | he
        · exact absurd ⟨e, he, hbad⟩ hnone
        · exact ⟨e, he, hbad⟩
    · have hfirst := hp.selfLock_iff t _ hrun
      exact ⟨fun _ => hfirst.mp rfl, fun _ => rfl⟩
    · have hfirst := hp.selfLock_iff t _ hrun
      exact ⟨fun ho => absurd ho (by simp), fun hbad => absurd (hfirst.mpr hbad) (by simp)⟩
  · intro t held' b h
    rcases runs_andThen h with ⟨held₁, a, t₁, t₂, -, hrun, hrest⟩ | ⟨ho, -⟩ | ⟨ho, -⟩
    · obtain rfl := hp.held_eq t₁ held₁ a hrun
      exact (hf a).held_eq t₂ held' b hrest
    · exact absurd ho (by simp)
    · exact absurd ho (by simp)

/-- **The rule of a question**: after an answer that is bad, the thread has to lock itself. -/
theorem Exact.query_bind {q : Q} {f : A q → LockProgram Q A β}
    (hgood : ∀ a, ¬ bad ⟨q, a⟩ → Exact held bad (f a))
    (hbad : ∀ a, bad ⟨q, a⟩ → ∀ t o, Runs held (f a) t o → o = .selfLock) :
    Exact held bad (query q >>= f) := by
  constructor
  · intro t o h
    cases h with
    | ask a h =>
      by_cases ha : bad ⟨q, a⟩
      · exact ⟨fun _ => ⟨_, List.mem_cons_self, ha⟩, fun _ => hbad a ha _ _ h⟩
      · rw [(hgood a ha).selfLock_iff _ o h]
        constructor
        · rintro ⟨e, he, hone⟩
          exact ⟨e, List.mem_cons_of_mem _ he, hone⟩
        · rintro ⟨e, he, hone⟩
          rcases List.mem_cons.mp he with rfl | he
          · exact absurd hone ha
          · exact ⟨e, he, hone⟩
  · intro t held' b h
    cases h with
    | ask a h =>
      by_cases ha : bad ⟨q, a⟩
      · exact absurd (hbad a ha _ _ h) (by simp)
      · exact (hgood a ha).held_eq _ held' b h

/-- A question that has no bad answers. -/
theorem Exact.query {q : Q} (hgood : ∀ a, ¬ bad ⟨q, a⟩) : Exact held bad (query q : LockProgram Q A _) := by
  have h : Exact held bad (LockProgram.query q >>= (Pure.pure : A q → LockProgram Q A (A q))) :=
    Exact.query_bind (fun a _ => Exact.pure held bad a) fun a ha => absurd ha (hgood a)
  exact h

/-- **The rule of the lock.** -/
theorem Exact.guarded (hp : Exact true bad p) : Exact false bad (guarded p) := by
  have hunlock : ∀ {held' : Bool} {a : α} {t : List (Event Q A)} {o : Outcome α},
      Runs held' (unlock (ret a) : LockProgram Q A α) t o → t = [] ∧ o = .done false a := by
    intro held' a t o h
    cases h with
    | unlock h =>
      cases h with
      | ret => exact ⟨rfl, rfl⟩
  constructor
  · intro t o h
    cases h with
    | lock h =>
      rcases runs_andThen h with ⟨held', a, t₁, t₂, rfl, hrun, hrest⟩ | ⟨rfl, hrun⟩ | ⟨rfl, hrun⟩
      · obtain ⟨rfl, rfl⟩ := hunlock hrest
        have hfirst := hp.selfLock_iff t₁ _ hrun
        rw [List.append_nil, ← hfirst]
        exact ⟨fun ho => absurd ho (by simp), fun ho => absurd ho (by simp)⟩
      · exact hp.selfLock_iff t _ hrun
      · have hfirst := hp.selfLock_iff t _ hrun
        rw [← hfirst]
  · intro t held' a h
    cases h with
    | lock h =>
      rcases runs_andThen h with ⟨held₁, b, t₁, t₂, -, -, hrest⟩ | ⟨ho, -⟩ | ⟨ho, -⟩
      · have hdone := (hunlock hrest).2
        injection hdone
      · exact absurd ho (by simp)
      · exact absurd ho (by simp)

end LockProgram
