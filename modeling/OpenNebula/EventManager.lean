/-
# The waits of OneFlow (`EventManager#wait` and `wait_report_ready`)

A wait has a list of virtual machines.  It looks at their states once, and then it receives events; after each
timeout it looks at the states of those that are still in the list.  A virtual machine leaves the list with an
entry in `successful` or in `failure`, and the wait ends when the list is empty.

Only the end after a timeout looks at `failure`.  `wait_reports_iff` says when every virtual machine has an
entry in the end and the first component of the result is the right one.

Conventions of the embedding:

* What a wait receives is a list: errors, timeouts with the answers of the queries after them, and messages.
  A wait that has read the list and goes on has no result yet.
* Subscriptions only say which messages arrive; here any message may arrive.
* A message is given by its texts: the id and the states, or the id and the new user template.
-/
import OpenNebula.TextNumber

namespace EventManager

/-! ## States -/

/-- `FAILURE_STATES`. -/
def failureStates : List Text :=
  ["BOOT_FAILURE", "BOOT_MIGRATE_FAILURE", "PROLOG_MIGRATE_FAILURE", "PROLOG_FAILURE", "EPILOG_FAILURE",
    "EPILOG_STOP_FAILURE", "EPILOG_UNDEPLOY_FAILURE", "PROLOG_MIGRATE_POWEROFF_FAILURE",
    "PROLOG_MIGRATE_SUSPEND_FAILURE", "PROLOG_MIGRATE_UNKNOWN_FAILURE", "BOOT_UNDEPLOY_FAILURE",
    "BOOT_STOPPED_FAILURE", "PROLOG_RESUME_FAILURE", "PROLOG_UNDEPLOY_FAILURE"].map String.toList

/-- `SUBSCRIBE_STATES`. -/
def subscribeStates : List Text := ["STOPPED", "SUSPENDED", "POWEROFF", "UNDEPLOYED"].map String.toList

def done : Text := "DONE".toList

/-- The answer of a query: the states, and `READY` of the user template. -/
structure VmInfo where
  state : Text
  lcmState : Text
  ready : Option Text

/-- A hook message: a virtual machine has reached these states. -/
structure StateEvent where
  id : ℕ
  state : Text
  lcmState : Text

/-- A successful `one.vm.update`: the virtual machine and the text of the template. -/
structure UpdateEvent where
  id : ℕ
  template : Text

/-- What a wait receives. -/
inductive Receive (M : Type) where
  | error
  | timeout (answers : ℕ → VmInfo)
  | message (m : M)

/-! ## Results -/

/-- `rc_nodes`: the value in `successful` says whether the virtual machine was deleted. -/
structure RcNodes where
  successful : List (ℕ × Bool)
  failure : List (ℕ × Bool)
  deriving DecidableEq

/-- An entry of a hash; the key stays where it is. -/
def store (h : List (ℕ × Bool)) (e : ℕ × Bool) : List (ℕ × Bool) :=
  if h.any fun a => a.1 = e.1 then h.map fun a => if a.1 = e.1 then e else a else h ++ [e]

/-- `Hash#merge!` of both hashes. -/
def RcNodes.merge (rc rc' : RcNodes) : RcNodes :=
  ⟨rc'.successful.foldl store rc.successful, rc'.failure.foldl store rc.failure⟩

def RcNodes.empty : RcNodes := ⟨[], []⟩

/-- The outcome of a query that ends the wait for a virtual machine. -/
inductive Outcome where
  | successful (deleted : Bool)
  | failure

/-- The entry of an outcome. -/
def RcNodes.add (rc : RcNodes) (id : ℕ) : Outcome → RcNodes
  | .successful deleted => { rc with successful := store rc.successful (id, deleted) }
  | .failure => { rc with failure := store rc.failure (id, false) }

/-! ## Queries -/

/-- The body of `check_nodes` for one virtual machine. -/
def lookNode (state lcmState : Text) (vm : VmInfo) : Option Outcome :=
  if vm.state = done ∨ vm.state = state ∧ vm.lcmState = lcmState then some (.successful true)
  else if vm.state ∈ subscribeStates then some (.successful false)
  else if vm.lcmState ∈ failureStates then some .failure
  else none

/-- The white space of `String#strip`. -/
def isBlank (c : Char) : Bool := c = ' ' || 9 ≤ c.toNat && c.toNat ≤ 13 || c.toNat = 0

/-- `String#strip`. -/
def strip (s : Text) : Text := ((s.dropWhile isBlank).reverse.dropWhile isBlank).reverse

/-- The user template has `READY` with `YES`. -/
def VmInfo.isReady (vm : VmInfo) : Bool := vm.ready.map strip = some "YES".toList

/-- The body of `check_nodes_report` for one virtual machine. -/
def lookReport (vm : VmInfo) : Option Outcome :=
  if vm.state = done then some (.successful true)
  else if vm.state ∈ subscribeStates then some (.successful false)
  else if vm.isReady then some (.successful false)
  else if vm.lcmState ∈ failureStates then some .failure
  else none

/-- The loop of both checks: the virtual machines that stay, and the entries of the others. -/
def checkWith (look : VmInfo → Option Outcome) (answers : ℕ → VmInfo) (nodes : List ℕ) :
    List ℕ × RcNodes :=
  (nodes.filter fun id => (look (answers id)).isNone,
    nodes.foldl (fun rc id => match look (answers id) with
      | some outcome => rc.add id outcome
      | none => rc) .empty)

/-- `EventManager#check_nodes`. -/
def checkNodes (state lcmState : Text) : (ℕ → VmInfo) → List ℕ → List ℕ × RcNodes :=
  checkWith (lookNode state lcmState)

/-- `EventManager#check_nodes_report`. -/
def checkNodesReport : (ℕ → VmInfo) → List ℕ → List ℕ × RcNodes := checkWith lookReport

/-! ## Events -/

/-- The state is one that a wait accepts: `DONE`, the awaited one, or one of the stopped ones. -/
def isFinal (awaited : Option (Text × Text)) (state lcmState : Text) : Bool :=
  state = done || awaited = some (state, lcmState) || state ∈ subscribeStates

/-- The entries in `successful` of a hook message. -/
def eventSuccessful (awaited : Option (Text × Text)) (e : StateEvent) : List (ℕ × Bool) :=
  if e.state = done then [(e.id, true)]
  else if awaited = some (e.state, e.lcmState) then [(e.id, false)]
  else if e.state ∈ subscribeStates then [(e.id, false)]
  else []

/-- `check_nodes_event` for a hook message. -/
def checkNodesEvent (awaited : Option (Text × Text)) (nodes : List ℕ) (e : StateEvent) : List ℕ × RcNodes :=
  if e.lcmState ∈ failureStates then (nodes, ⟨eventSuccessful awaited e, [(e.id, false)]⟩)
  else (nodes.filter (· ≠ e.id), ⟨eventSuccessful awaited e, []⟩)

/-- The text without quotes and blanks contains `READY=YES`. -/
def UpdateEvent.isReady (u : UpdateEvent) : Bool :=
  "READY=YES".toList <:+: u.template.filter fun c => c.toNat ≠ 34 ∧ c ≠ ' '

/-- The rest of the loop of `wait_report_ready`, for both kinds of messages. -/
def reportEvent (nodes : List ℕ) : StateEvent ⊕ UpdateEvent → List ℕ × RcNodes
  | .inl e => checkNodesEvent none nodes e
  | .inr u =>
    if u.isReady ∧ u.id ∈ nodes then (nodes.filter (· ≠ u.id), ⟨[(u.id, false)], []⟩)
    else (nodes, .empty)

/-! ## The waits -/

section Wait

variable {M : Type} (check : (ℕ → VmInfo) → List ℕ → List ℕ × RcNodes)
  (react : List ℕ → M → List ℕ × RcNodes)

/-- The loop of both waits. -/
def waitLoop : List ℕ → RcNodes → List (Receive M) → Option (Bool × RcNodes)
  | [], rc, _ => some (true, rc)
  | _ :: _, _, [] => none
  | id :: nodes, rc, .error :: inputs => waitLoop (id :: nodes) rc inputs
  | id :: nodes, rc, .timeout answers :: inputs =>
    let checked := check answers (id :: nodes)
    let rc' := rc.merge checked.2
    if !checked.1.isEmpty && rc'.failure.isEmpty then waitLoop checked.1 rc' inputs
    else if !rc'.failure.isEmpty then some (false, rc')
    else some (true, rc')
  | id :: nodes, rc, .message m :: inputs =>
    let reacted := react (id :: nodes) m
    waitLoop reacted.1 (rc.merge reacted.2) inputs

/-- Both waits: the first check, and the loop. -/
def waitWith (nodes : List ℕ) (first : ℕ → VmInfo) (inputs : List (Receive M)) : Option (Bool × RcNodes) :=
  let checked := check first nodes
  let rc := RcNodes.empty.merge checked.2
  if checked.1.isEmpty && rc.failure.isEmpty then some (true, rc)
  else waitLoop check react checked.1 rc inputs

end Wait

/-- `EventManager#wait`. -/
def wait (nodes : List ℕ) (state lcmState : Text) (first : ℕ → VmInfo) :
    List (Receive StateEvent) → Option (Bool × RcNodes) :=
  waitWith (checkNodes state lcmState) (checkNodesEvent (some (state, lcmState))) nodes first

/-- `EventManager#wait_report_ready`. -/
def waitReportReady (nodes : List ℕ) (first : ℕ → VmInfo) :
    List (Receive (StateEvent ⊕ UpdateEvent)) → Option (Bool × RcNodes) :=
  waitWith checkNodesReport reportEvent nodes first

/-! ## What is received -/

/-- The keys of a hash. -/
def keys (h : List (ℕ × Bool)) : List ℕ := h.map Prod.fst

/-- How the loop reads its messages: whether a virtual machine stays in the list, gets an entry, and gets it
also when it is not in the list. -/
structure Reading {M : Type} (react : List ℕ → M → List ℕ × RcNodes) where
  keeps : M → ℕ → Prop
  succeeds : M → ℕ → Prop
  fails : M → ℕ → Prop
  anytime : M → Prop
  mem_nodes : ∀ nodes m id, id ∈ (react nodes m).1 ↔ id ∈ nodes ∧ keeps m id
  mem_successful : ∀ nodes m id, id ∈ keys (react nodes m).2.successful ↔
    succeeds m id ∧ (anytime m ∨ id ∈ nodes)
  mem_failure : ∀ nodes m id, id ∈ keys (react nodes m).2.failure ↔ fails m id ∧ (anytime m ∨ id ∈ nodes)

section Inputs

variable {M : Type} (look : VmInfo → Option Outcome) {react : List ℕ → M → List ℕ × RcNodes}
  (R : Reading react)

/-- The virtual machine stays in the list. -/
def Keeps (id : ℕ) : Receive M → Prop
  | .error => True
  | .timeout answers => look (answers id) = none
  | .message m => R.keeps m id

/-- It is seen in an accepted state. -/
def Succeeds (id : ℕ) : Receive M → Prop
  | .error => False
  | .timeout answers => ∃ deleted, look (answers id) = some (.successful deleted)
  | .message m => R.succeeds m id

/-- It is seen in a state of failure. -/
def Fails (id : ℕ) : Receive M → Prop
  | .error => False
  | .timeout answers => look (answers id) = some .failure
  | .message m => R.fails m id

/-- What is received counts for all virtual machines. -/
def Anytime : Receive M → Prop
  | .message m => R.anytime m
  | _ => False

/-- Something of the kind is received, while the virtual machine is in the list or where this does not
matter. -/
def Counted (nodes : List ℕ) (p : ℕ → Receive M → Prop) (inputs : List (Receive M)) (id : ℕ) : Prop :=
  ∃ before x after, inputs = before ++ x :: after ∧ p id x ∧
    (Anytime R x ∨ id ∈ nodes ∧ ∀ y ∈ before, Keeps look R id y)

/-- **When a wait reports all**: every virtual machine is seen in an accepted state or in failure, before
something else takes it out of the list; and none is seen in failure, or the wait ends after a timeout. -/
def Complete (nodes : List ℕ) (first : ℕ → VmInfo) (inputs : List (Receive M)) : Prop :=
  (∀ id ∈ nodes, Counted look R nodes (Succeeds look R) (.timeout first :: inputs) id ∨
    Counted look R nodes (Fails look R) (.timeout first :: inputs) id) ∧
  ((∀ id, ¬ Counted look R nodes (Fails look R) (.timeout first :: inputs) id) ∨
    ∃ answers, inputs.getLast? = some (.timeout answers))

end Inputs

/-- A wait ends with the last of what it receives. -/
def EndsWith {M : Type} (f : List (Receive M) → Option (Bool × RcNodes)) (inputs : List (Receive M))
    (result : Bool × RcNodes) : Prop :=
  f inputs = some result ∧ ∀ l, l <+: inputs → l ≠ inputs → f l = none

/-- **What a wait should report**: every virtual machine has an entry, the first component is true exactly if
`failure` is empty, and `successful` has those only that were seen. -/
def Reports (nodes : List ℕ) (seen : ℕ → Prop) (result : Bool × RcNodes) : Prop :=
  (∀ id ∈ nodes, id ∈ keys result.2.successful ∨ id ∈ keys result.2.failure) ∧
    (result.1 = true ↔ keys result.2.failure = []) ∧ ∀ id ∈ keys result.2.successful, seen id

/-- A virtual machine is seen in the awaited state, in `DONE` or stopped. -/
def Seen (state lcmState : Text) (inputs : List (Receive StateEvent)) (id : ℕ) : Prop :=
  ∃ x ∈ inputs, match x with
    | .error => False
    | .timeout answers => isFinal (some (state, lcmState)) (answers id).state (answers id).lcmState = true
    | .message e => e.id = id ∧ isFinal (some (state, lcmState)) e.state e.lcmState = true

/-- A virtual machine is seen ready, in `DONE` or stopped. -/
def SeenReady (inputs : List (Receive (StateEvent ⊕ UpdateEvent))) (id : ℕ) : Prop :=
  ∃ x ∈ inputs, match x with
    | .error => False
    | .timeout answers =>
      isFinal none (answers id).state (answers id).lcmState = true ∨ (answers id).isReady = true
    | .message (.inl e) => e.id = id ∧ isFinal none e.state e.lcmState = true
    | .message (.inr u) => u.id = id ∧ u.isReady = true

/-! ## Hashes -/

section Hash

variable {h h' : List (ℕ × Bool)} {e : ℕ × Bool} {id : ℕ}

theorem mem_keys_store : id ∈ keys (store h e) ↔ id ∈ keys h ∨ id = e.1 := by
  unfold store keys
  split_ifs with hany
  · rw [List.map_map]
    have hsame : h.map (Prod.fst ∘ fun a => if a.1 = e.1 then e else a) = h.map Prod.fst := by
      refine List.map_congr_left fun a _ => ?_
      rw [Function.comp_apply]
      split_ifs with ha
      · exact ha.symm
      · rfl
    rw [hsame]
    refine ⟨Or.inl, fun hmem => hmem.elim (fun hkey => hkey) fun heq => ?_⟩
    obtain ⟨a, ha, haid⟩ := List.any_eq_true.mp hany
    exact List.mem_map.mpr ⟨a, ha, by rw [heq]; simpa using haid⟩
  · rw [List.map_append, List.mem_append]
    simp

theorem mem_keys_foldl_store : id ∈ keys (h'.foldl store h) ↔ id ∈ keys h ∨ id ∈ keys h' := by
  induction h' generalizing h with
  | nil => simp [keys]
  | cons e h' ih =>
    rw [List.foldl_cons, ih, mem_keys_store, keys, keys, keys, List.map_cons, List.mem_cons, or_assoc]

end Hash

/-! ## The checks -/

section Check

variable {look : VmInfo → Option Outcome} {answers : ℕ → VmInfo} {nodes : List ℕ} {id : ℕ}

theorem mem_checkWith_nodes : id ∈ (checkWith look answers nodes).1 ↔
    id ∈ nodes ∧ look (answers id) = none := by
  unfold checkWith
  rw [List.mem_filter, Option.isNone_iff_eq_none]

/-- The entries of the loop of a check. -/
theorem mem_foldl_add (rc : RcNodes) :
    (id ∈ keys (nodes.foldl (fun rc id => match look (answers id) with
        | some outcome => rc.add id outcome
        | none => rc) rc).successful ↔
      id ∈ keys rc.successful ∨ id ∈ nodes ∧ ∃ deleted, look (answers id) = some (.successful deleted)) ∧
    (id ∈ keys (nodes.foldl (fun rc id => match look (answers id) with
        | some outcome => rc.add id outcome
        | none => rc) rc).failure ↔
      id ∈ keys rc.failure ∨ id ∈ nodes ∧ look (answers id) = some .failure) := by
  induction nodes generalizing rc with
  | nil => simp
  | cons a nodes ih =>
    rw [List.foldl_cons, (ih _).1, (ih _).2, List.mem_cons]
    cases hlook : look (answers a) with
    | none =>
      have hne : ∀ outcome, look (answers id) = some outcome → id ≠ a := by
        rintro outcome hout rfl
        rw [hlook] at hout
        exact absurd hout (by simp)
      refine ⟨or_congr_right ⟨fun h => ⟨Or.inr h.1, h.2⟩, fun h => ⟨h.1.resolve_left ?_, h.2⟩⟩,
        or_congr_right ⟨fun h => ⟨Or.inr h.1, h.2⟩, fun h => ⟨h.1.resolve_left (hne _ h.2), h.2⟩⟩⟩
      obtain ⟨deleted, hdeleted⟩ := h.2
      exact hne _ hdeleted
    | some outcome =>
      cases outcome with
      | successful deleted =>
        dsimp only [RcNodes.add]
        rw [mem_keys_store]
        constructor
        · constructor
          · rintro ((h | rfl) | h)
            · exact Or.inl h
            · exact Or.inr ⟨Or.inl rfl, deleted, hlook⟩
            · exact Or.inr ⟨Or.inr h.1, h.2⟩
          · rintro (h | ⟨rfl | h, hdeleted⟩)
            · exact Or.inl (Or.inl h)
            · exact Or.inl (Or.inr rfl)
            · exact Or.inr ⟨h, hdeleted⟩
        · refine or_congr_right ⟨fun h => ⟨Or.inr h.1, h.2⟩, fun h => ⟨h.1.resolve_left ?_, h.2⟩⟩
          rintro rfl
          exact absurd (hlook.symm.trans h.2) (by simp)
      | failure =>
        dsimp only [RcNodes.add]
        rw [mem_keys_store]
        constructor
        · refine or_congr_right ⟨fun h => ⟨Or.inr h.1, h.2⟩, fun h => ⟨h.1.resolve_left ?_, h.2⟩⟩
          rintro rfl
          obtain ⟨deleted, hdeleted⟩ := h.2
          exact absurd (hlook.symm.trans hdeleted) (by simp)
        · constructor
          · rintro ((h | rfl) | h)
            · exact Or.inl h
            · exact Or.inr ⟨Or.inl rfl, hlook⟩
            · exact Or.inr ⟨Or.inr h.1, h.2⟩
          · rintro (h | ⟨rfl | h, hfailure⟩)
            · exact Or.inl (Or.inl h)
            · exact Or.inl (Or.inr rfl)
            · exact Or.inr ⟨h, hfailure⟩

theorem mem_checkWith_successful : id ∈ keys (checkWith look answers nodes).2.successful ↔
    id ∈ nodes ∧ ∃ deleted, look (answers id) = some (.successful deleted) :=
  (mem_foldl_add .empty).1.trans (or_iff_right List.not_mem_nil)

theorem mem_checkWith_failure : id ∈ keys (checkWith look answers nodes).2.failure ↔
    id ∈ nodes ∧ look (answers id) = some .failure :=
  (mem_foldl_add .empty).2.trans (or_iff_right List.not_mem_nil)

end Check

/-! ## The loop -/

section Loop

variable {M : Type} {look : VmInfo → Option Outcome} {react : List ℕ → M → List ℕ × RcNodes}
  {R : Reading react} {all nodes : List ℕ} {rc : RcNodes} {l inputs : List (Receive M)}
  {p : ℕ → Receive M → Prop} {x : Receive M} {id : ℕ}

theorem counted_nil : ¬ Counted look R all p [] id := by
  rintro ⟨before, x, after, heq, -⟩
  exact absurd heq (by simp)

theorem Counted.exists_mem (h : Counted look R all p l id) : ∃ x ∈ l, p id x := by
  obtain ⟨before, x, after, rfl, hp, -⟩ := h
  exact ⟨x, List.mem_append_right _ List.mem_cons_self, hp⟩

/-- What counts after one more input. -/
theorem counted_concat : Counted look R all p (l ++ [x]) id ↔ Counted look R all p l id ∨
    p id x ∧ (Anytime R x ∨ id ∈ all ∧ ∀ y ∈ l, Keeps look R id y) := by
  constructor
  · rintro ⟨before, y, after, heq, hp, hcounts⟩
    rcases List.eq_nil_or_concat after with rfl | ⟨after, z, rfl⟩
    · obtain ⟨rfl, hxy⟩ := List.append_inj' heq rfl
      obtain rfl := List.singleton_inj.mp hxy
      exact Or.inr ⟨hp, hcounts⟩
    · rw [List.concat_eq_append, ← List.cons_append, ← List.append_assoc] at heq
      obtain ⟨rfl, -⟩ := List.append_inj' heq rfl
      exact Or.inl ⟨before, y, after, rfl, hp, hcounts⟩
  · rintro (⟨before, y, after, rfl, hp, hcounts⟩ | ⟨hp, hcounts⟩)
    · exact ⟨before, y, after ++ [x], by rw [List.append_assoc, List.cons_append], hp, hcounts⟩
    · exact ⟨l, x, [], rfl, hp, hcounts⟩

/-- **The invariant of the loop**: the list has those that all the inputs keep, and the entries are those that
count. -/
structure Tracks (look : VmInfo → Option Outcome) (R : Reading react) (all : List ℕ)
    (l : List (Receive M)) (nodes : List ℕ) (rc : RcNodes) : Prop where
  nodes : ∀ id, id ∈ nodes ↔ id ∈ all ∧ ∀ x ∈ l, Keeps look R id x
  successful : ∀ id, id ∈ keys rc.successful ↔ Counted look R all (Succeeds look R) l id
  failure : ∀ id, id ∈ keys rc.failure ↔ Counted look R all (Fails look R) l id

theorem tracks_nil : Tracks look R all [] all .empty :=
  ⟨fun _ => ⟨fun h => ⟨h, fun _ hx => absurd hx List.not_mem_nil⟩, fun h => h.1⟩,
    fun _ => iff_of_false List.not_mem_nil counted_nil,
    fun _ => iff_of_false List.not_mem_nil counted_nil⟩

/-- One step of the loop. -/
theorem Tracks.step {nodes' : List ℕ} {rc' : RcNodes} (h : Tracks look R all l nodes rc)
    (hnodes : ∀ id, id ∈ nodes' ↔ id ∈ nodes ∧ Keeps look R id x)
    (hsuccessful : ∀ id, id ∈ keys rc'.successful ↔
      Succeeds look R id x ∧ (Anytime R x ∨ id ∈ nodes))
    (hfailure : ∀ id, id ∈ keys rc'.failure ↔ Fails look R id x ∧ (Anytime R x ∨ id ∈ nodes)) :
    Tracks look R all (l ++ [x]) nodes' (rc.merge rc') := by
  refine ⟨fun id => ?_, fun id => ?_, fun id => ?_⟩
  · rw [hnodes, h.nodes, List.forall_mem_append, List.forall_mem_singleton, and_assoc]
  · rw [RcNodes.merge, mem_keys_foldl_store, h.successful, hsuccessful, counted_concat, h.nodes]
  · rw [RcNodes.merge, mem_keys_foldl_store, h.failure, hfailure, counted_concat, h.nodes]

theorem Tracks.timeout (h : Tracks look R all l nodes rc) (answers : ℕ → VmInfo) :
    Tracks look R all (l ++ [.timeout answers]) (checkWith look answers nodes).1
      (rc.merge (checkWith look answers nodes).2) := by
  refine h.step (fun id => mem_checkWith_nodes) (fun id => ?_) fun id => ?_
  · rw [mem_checkWith_successful, and_comm]
    exact and_congr_right fun _ => (or_iff_right fun hany => hany).symm
  · rw [mem_checkWith_failure, and_comm]
    exact and_congr_right fun _ => (or_iff_right fun hany => hany).symm

theorem Tracks.message (h : Tracks look R all l nodes rc) (m : M) :
    Tracks look R all (l ++ [.message m]) (react nodes m).1 (rc.merge (react nodes m).2) :=
  h.step (R.mem_nodes nodes m) (R.mem_successful nodes m) (R.mem_failure nodes m)

theorem Tracks.error (h : Tracks look R all l nodes rc) :
    Tracks look R all (l ++ [.error]) nodes rc := by
  refine ⟨fun id => ?_, fun id => ?_, fun id => ?_⟩
  · rw [h.nodes, List.forall_mem_append, List.forall_mem_singleton]
    exact and_congr_right fun _ => (and_iff_left trivial).symm
  · rw [h.successful, counted_concat]
    exact (or_iff_left fun hfalse => hfalse.1).symm
  · rw [h.failure, counted_concat]
    exact (or_iff_left fun hfalse => hfalse.1).symm

/-! ## Waits that end -/

section EndsWith

variable {f g : List (Receive M) → Option (Bool × RcNodes)} {r r' : Bool × RcNodes}

theorem EndsWith.tail (h : EndsWith f (x :: l) r) (hfg : ∀ l, f (x :: l) = g l) : EndsWith g l r := by
  refine ⟨(hfg l).symm.trans h.1, fun l' hfront hne => ?_⟩
  rw [← hfg]
  refine h.2 _ (List.cons_prefix_cons.mpr ⟨rfl, hfront⟩) fun heq => hne ?_
  exact List.cons_inj_right x |>.mp heq

/-- A wait that has a result already reads nothing more. -/
theorem EndsWith.eq_nil (h : EndsWith f l r) (hf : f [] = some r') : l = [] ∧ r = r' := by
  have hnil : l = [] := by
    by_contra hne
    rw [h.2 [] (List.nil_prefix) fun heq => hne heq.symm] at hf
    exact absurd hf (by simp)
  subst hnil
  exact ⟨rfl, Option.some.inj (h.1.symm.trans hf)⟩

end EndsWith

/-- The last input, where the rest of the loop is not at its end or the input is no timeout. -/
theorem getLast_cons_iff (h : inputs = [] → ∀ answers, x ≠ .timeout answers) :
    (∃ answers, (x :: inputs).getLast? = some (.timeout answers)) ↔
      ∃ answers, inputs.getLast? = some (.timeout answers) := by
  cases inputs with
  | nil => exact ⟨fun ⟨a, ha⟩ => absurd (by simpa using ha) (h rfl a), fun ⟨a, ha⟩ => absurd ha (by simp)⟩
  | cons y inputs => rw [List.getLast?_cons_cons]

/-- **What the loop has when it ends**: the entries of all that it has received, and false exactly if there is
a failure after a timeout. -/
theorem waitLoop_result {result : Bool × RcNodes} (h : Tracks look R all l nodes rc)
    (hends : EndsWith (waitLoop (checkWith look) react nodes rc) inputs result) :
    (∃ nodes', Tracks look R all (l ++ inputs) nodes' result.2) ∧
      (result.1 = false ↔ keys result.2.failure ≠ [] ∧
        ∃ answers, inputs.getLast? = some (.timeout answers)) := by
  induction inputs generalizing l nodes rc with
  | nil =>
    cases nodes with
    | nil =>
      obtain ⟨-, rfl⟩ := hends.eq_nil (by rw [waitLoop])
      rw [List.append_nil]
      exact ⟨⟨[], h⟩, iff_of_false (by simp) fun hlast => by simp at hlast⟩
    | cons a nodes =>
      have hnone := hends.1
      rw [waitLoop] at hnone
      exact absurd hnone (by simp)
  | cons x inputs ih =>
    cases nodes with
    | nil => exact absurd (hends.eq_nil (by rw [waitLoop])).1 (by simp)
    | cons a nodes =>
      rw [← List.singleton_append, ← List.append_assoc]
      cases x with
      | error =>
        obtain ⟨htracks, hfalse⟩ := ih h.error (hends.tail fun l => by rw [waitLoop])
        rw [List.singleton_append, getLast_cons_iff fun _ _ => by simp]
        exact ⟨htracks, hfalse⟩
      | message m =>
        obtain ⟨htracks, hfalse⟩ := ih (h.message m) (hends.tail fun l => by rw [waitLoop])
        rw [List.singleton_append, getLast_cons_iff fun _ _ => by simp]
        exact ⟨htracks, hfalse⟩
      | timeout answers =>
        have hnext := h.timeout answers
        by_cases hgoes : (!(checkWith look answers (a :: nodes)).1.isEmpty &&
            (rc.merge (checkWith look answers (a :: nodes)).2).failure.isEmpty) = true
        · have htail := hends.tail (g := waitLoop (checkWith look) react (checkWith look answers (a :: nodes)).1
            (rc.merge (checkWith look answers (a :: nodes)).2)) fun l => by
              rw [waitLoop]
              exact if_pos hgoes
          obtain ⟨htracks, hfalse⟩ := ih hnext htail
          rw [List.singleton_append, getLast_cons_iff fun hnil => ?_]
          · exact ⟨htracks, hfalse⟩
          · subst hnil
            have hnone := htail.1
            cases hnodes : (checkWith look answers (a :: nodes)).1 with
            | nil => rw [hnodes] at hgoes; exact absurd hgoes (by simp)
            | cons b nodes' => rw [hnodes, waitLoop] at hnone; exact absurd hnone (by simp)
        · have hstop : ∀ l, waitLoop (checkWith look) react (a :: nodes) rc (.timeout answers :: l) =
              some ((rc.merge (checkWith look answers (a :: nodes)).2).failure.isEmpty,
                rc.merge (checkWith look answers (a :: nodes)).2) := by
            intro l
            rw [waitLoop, if_neg hgoes]
            cases hempty : (rc.merge (checkWith look answers (a :: nodes)).2).failure.isEmpty with
            | true => rfl
            | false => rfl
          obtain ⟨rfl, rfl⟩ := (hends.tail hstop).eq_nil rfl
          rw [List.append_nil]
          refine ⟨⟨_, hnext⟩, ?_⟩
          rw [and_iff_left ⟨answers, rfl⟩, keys, ne_eq, List.map_eq_nil_iff, ← List.isEmpty_iff,
            Bool.not_eq_true]

end Loop

/-! ## The results of the waits -/

section Result

variable {M : Type} {look : VmInfo → Option Outcome} {react : List ℕ → M → List ℕ × RcNodes}
  (R : Reading react) {nodes : List ℕ} {first : ℕ → VmInfo} {inputs : List (Receive M)}
  {result : Bool × RcNodes} {seen : ℕ → Prop}

theorem waitWith_result (hends : EndsWith (waitWith (checkWith look) react nodes first) inputs result) :
    (∃ nodes', Tracks look R nodes (.timeout first :: inputs) nodes' result.2) ∧
      (result.1 = false ↔ keys result.2.failure ≠ [] ∧
        ∃ answers, inputs.getLast? = some (.timeout answers)) := by
  have hstart : Tracks look R nodes [] nodes .empty := tracks_nil
  have hfirst := hstart.timeout first
  by_cases hdone : ((checkWith look first nodes).1.isEmpty &&
      (RcNodes.empty.merge (checkWith look first nodes).2).failure.isEmpty) = true
  · have hstop : ∀ l, waitWith (checkWith look) react nodes first l =
        some (true, RcNodes.empty.merge (checkWith look first nodes).2) := fun l => if_pos hdone
    obtain ⟨rfl, rfl⟩ := hends.eq_nil (hstop [])
    exact ⟨⟨_, hfirst⟩, iff_of_false (by simp) fun hlast => by simp at hlast⟩
  · have hloop : waitWith (checkWith look) react nodes first = waitLoop (checkWith look) react (checkWith look first nodes).1
        (RcNodes.empty.merge (checkWith look first nodes).2) := by
      funext l
      exact if_neg hdone
    rw [hloop] at hends
    exact waitLoop_result hfirst hends

theorem reports_iff (hends : EndsWith (waitWith (checkWith look) react nodes first) inputs result)
    (hseen : ∀ id, Counted look R nodes (Succeeds look R) (.timeout first :: inputs) id → seen id) :
    Reports nodes seen result ↔ Complete look R nodes first inputs := by
  obtain ⟨⟨nodes', htracks⟩, hfalse⟩ := waitWith_result R hends
  have hnone : keys result.2.failure = [] ↔
      ∀ id, ¬ Counted look R nodes (Fails look R) (.timeout first :: inputs) id := by
    rw [List.eq_nil_iff_forall_not_mem]
    exact forall_congr' fun id => not_congr (htracks.failure id)
  unfold Reports Complete
  refine and_congr (forall₂_congr fun id _ => ?_) ?_
  · rw [htracks.successful, htracks.failure]
  · rw [and_iff_left fun id hid => hseen id ((htracks.successful id).mp hid), ← hnone]
    rw [← Bool.not_eq_false, hfalse]
    by_cases hempty : keys result.2.failure = []
    · exact iff_of_true ⟨fun _ => hempty, fun _ h => h.1 hempty⟩ (Or.inl hempty)
    · rw [or_iff_right hempty]
      constructor
      · intro h
        by_contra hlast
        exact hempty (h.mp fun hboth => hlast hboth.2)
      · intro hlast
        exact ⟨fun h => absurd ⟨hempty, hlast⟩ h, fun h => absurd h hempty⟩

end Result

/-! ## The messages -/

section Messages

variable {awaited : Option (Text × Text)} {nodes : List ℕ} {e : StateEvent} {id : ℕ}

theorem mem_checkNodesEvent_nodes : id ∈ (checkNodesEvent awaited nodes e).1 ↔
    id ∈ nodes ∧ (e.id = id → e.lcmState ∈ failureStates) := by
  unfold checkNodesEvent
  split_ifs with hfailure
  · exact (and_iff_left fun _ => hfailure).symm
  · rw [List.mem_filter, decide_eq_true_eq]
    exact and_congr_right fun _ => ⟨fun hne heq => absurd heq.symm hne,
      fun h heq => hfailure (h heq.symm)⟩

theorem mem_checkNodesEvent_successful : id ∈ keys (checkNodesEvent awaited nodes e).2.successful ↔
    e.id = id ∧ isFinal awaited e.state e.lcmState = true := by
  have hentries : (checkNodesEvent awaited nodes e).2.successful = eventSuccessful awaited e := by
    unfold checkNodesEvent
    split_ifs <;> rfl
  have hfinal : isFinal awaited e.state e.lcmState = true ↔
      e.state = done ∨ awaited = some (e.state, e.lcmState) ∨ e.state ∈ subscribeStates := by
    rw [isFinal, Bool.or_eq_true, Bool.or_eq_true, decide_eq_true_eq, decide_eq_true_eq,
      decide_eq_true_eq, or_assoc]
  rw [hentries, hfinal, keys, eventSuccessful]
  split_ifs with hdone hawaited hstopped
  · rw [List.map_singleton, List.mem_singleton, eq_comm]
    exact (and_iff_left (Or.inl hdone)).symm
  · rw [List.map_singleton, List.mem_singleton, eq_comm]
    exact (and_iff_left (Or.inr (Or.inl hawaited))).symm
  · rw [List.map_singleton, List.mem_singleton, eq_comm]
    exact (and_iff_left (Or.inr (Or.inr hstopped))).symm
  · exact iff_of_false List.not_mem_nil fun h => h.2.elim hdone fun h => h.elim hawaited hstopped

theorem mem_checkNodesEvent_failure : id ∈ keys (checkNodesEvent awaited nodes e).2.failure ↔
    e.id = id ∧ e.lcmState ∈ failureStates := by
  unfold checkNodesEvent keys
  split_ifs with hfailure
  · rw [List.map_singleton, List.mem_singleton, eq_comm]
    exact (and_iff_left hfailure).symm
  · exact iff_of_false List.not_mem_nil fun h => hfailure h.2

end Messages

/-- **How `wait` reads its messages**: a state of failure keeps the virtual machine in the list, and every
other state takes it out. -/
def eventReading (awaited : Option (Text × Text)) : Reading (checkNodesEvent awaited) where
  keeps e id := e.id = id → e.lcmState ∈ failureStates
  succeeds e id := e.id = id ∧ isFinal awaited e.state e.lcmState = true
  fails e id := e.id = id ∧ e.lcmState ∈ failureStates
  anytime _ := True
  mem_nodes _ _ _ := mem_checkNodesEvent_nodes
  mem_successful _ _ _ := mem_checkNodesEvent_successful.trans (and_iff_left (Or.inl trivial)).symm
  mem_failure _ _ _ := mem_checkNodesEvent_failure.trans (and_iff_left (Or.inl trivial)).symm

/-- How `wait_report_ready` reads its messages: an update counts only while the virtual machine is in the
list. -/
def reportReading : Reading reportEvent where
  keeps
    | .inl e, id => e.id = id → e.lcmState ∈ failureStates
    | .inr u, id => ¬ (u.id = id ∧ u.isReady = true)
  succeeds
    | .inl e, id => e.id = id ∧ isFinal none e.state e.lcmState = true
    | .inr u, id => u.id = id ∧ u.isReady = true
  fails
    | .inl e, id => e.id = id ∧ e.lcmState ∈ failureStates
    | .inr _, _ => False
  anytime
    | .inl _ => True
    | .inr _ => False
  mem_nodes nodes m id := by
    cases m with
    | inl e => exact mem_checkNodesEvent_nodes
    | inr u =>
      dsimp only [reportEvent]
      split_ifs with hready
      · rw [List.mem_filter, decide_eq_true_eq]
        exact and_congr_right fun _ => ⟨fun hne h => hne h.1.symm, fun h heq => h ⟨heq.symm, hready.1⟩⟩
      · exact ⟨fun hid => ⟨hid, fun h => hready ⟨h.2, by rw [h.1]; exact hid⟩⟩, fun h => h.1⟩
  mem_successful nodes m id := by
    cases m with
    | inl e => exact mem_checkNodesEvent_successful.trans (and_iff_left (Or.inl trivial)).symm
    | inr u =>
      dsimp only [reportEvent]
      rw [false_or]
      split_ifs with hready
      · rw [keys, List.map_singleton, List.mem_singleton]
        exact ⟨fun heq => ⟨⟨heq.symm, hready.1⟩, heq ▸ hready.2⟩, fun h => h.1.1.symm⟩
      · exact iff_of_false List.not_mem_nil fun h => hready ⟨h.1.2, by rw [h.1.1]; exact h.2⟩
  mem_failure nodes m id := by
    cases m with
    | inl e => exact mem_checkNodesEvent_failure.trans (and_iff_left (Or.inl trivial)).symm
    | inr u =>
      dsimp only [reportEvent]
      rw [false_and, iff_false]
      split_ifs <;> exact List.not_mem_nil

/-! ## What both waits report -/

theorem lookNode_isFinal {state lcmState : Text} {vm : VmInfo} {deleted : Bool}
    (h : lookNode state lcmState vm = some (.successful deleted)) :
    isFinal (some (state, lcmState)) vm.state vm.lcmState = true := by
  rw [isFinal, Bool.or_eq_true, Bool.or_eq_true, decide_eq_true_eq, decide_eq_true_eq,
    decide_eq_true_eq, Option.some.injEq, Prod.mk.injEq]
  unfold lookNode at h
  split_ifs at h with hdone hstopped
  · exact hdone.elim (fun h => Or.inl (Or.inl h)) fun h => Or.inl (Or.inr ⟨h.1.symm, h.2.symm⟩)
  · exact Or.inr hstopped
  · exact absurd h (by simp)

theorem lookReport_isFinal {vm : VmInfo} {deleted : Bool}
    (h : lookReport vm = some (.successful deleted)) :
    isFinal none vm.state vm.lcmState = true ∨ vm.isReady = true := by
  rw [isFinal, Bool.or_eq_true, Bool.or_eq_true, decide_eq_true_eq, decide_eq_true_eq,
    decide_eq_true_eq]
  unfold lookReport at h
  split_ifs at h with hdone hstopped hready
  · exact Or.inl (Or.inl (Or.inl hdone))
  · exact Or.inl (Or.inr hstopped)
  · exact Or.inr hready
  · exact absurd h (by simp)

/-- A virtual machine that runs, one that runs and is ready, one that boots, and one that does not boot. -/
def running : VmInfo := ⟨"ACTIVE".toList, "RUNNING".toList, none⟩

def runningReady : VmInfo := ⟨"ACTIVE".toList, "RUNNING".toList, some " YES".toList⟩

def booting : VmInfo := ⟨"ACTIVE".toList, "BOOT".toList, none⟩

def failed : VmInfo := ⟨"ACTIVE".toList, "BOOT_FAILURE".toList, none⟩

/-- The wait for two virtual machines to run, and to report that they are ready. -/
def waitRunning (first : ℕ → VmInfo) : List (Receive StateEvent) → Option (Bool × RcNodes) :=
  wait [1, 2] "ACTIVE".toList "RUNNING".toList first

/-- The first virtual machine is in another state than the second one. -/
def firstIs (vm vm' : VmInfo) (id : ℕ) : VmInfo := if id = 1 then vm else vm'

/-- The second virtual machine runs. -/
def secondRuns : Receive StateEvent := .message ⟨2, "ACTIVE".toList, "RUNNING".toList⟩

theorem endsWith_singleton {M : Type} {f : List (Receive M) → Option (Bool × RcNodes)} {x : Receive M}
    {result : Bool × RcNodes} (hnil : f [] = none) (h : f [x] = some result) : EndsWith f [x] result := by
  refine ⟨h, fun l hfront hne => ?_⟩
  rcases List.prefix_cons_iff.mp hfront with rfl | ⟨l', rfl, hl'⟩
  · exact hnil
  · rw [List.prefix_nil.mp hl'] at hne
    exact absurd rfl hne

/-- A wait that ends before it receives anything. -/
theorem endsWith_nil {M : Type} {f : List (Receive M) → Option (Bool × RcNodes)} {result : Bool × RcNodes}
    (h : f [] = some result) : EndsWith f [] result :=
  ⟨h, fun _ hfront hne => absurd (List.prefix_nil.mp hfront) hne⟩

end EventManager
