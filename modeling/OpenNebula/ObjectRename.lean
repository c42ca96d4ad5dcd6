/-
# Renames of objects (`SharedAPI::rename`)

A rename takes the guard of its object, reads the object, looks for another object with the new name, loads and
changes the object, writes it to the database, and drops the guard.  The guard is for one object: between the
search of one rename and its write, a rename of another object may do all its steps.  The table may have a
`UNIQUE` constraint, which makes the write fail, and the result of the write is not looked at.

`rename_iff` says when two renames, in any order of their steps, keep the names of each owner unique and store
the names of those that are answered with `SUCCESS`.

Conventions of the embedding:

* The objects are those of one pool.  A row has the columns that a rename reads or writes.
* The rename of an object that is being renamed is refused, so two renames never wait for the lock of one object.
* A write of the database fails only at the `UNIQUE` constraint; names are compared as they are.
* The updates of related objects (`batch_rename`) are in other pools.
-/
import OpenNebula.TextNumber

namespace ObjectRename

/-! ## The pools -/

/-- The types of objects that are renamed with a check of the name. -/
inductive ObjectType where
  | template | vnTemplate | hook | backupJob | image | virtualNetwork | vmGroup | securityGroup
  | marketPlaceApp | host | datastore | marketPlace | cluster | vdc | zone
  deriving DecidableEq

/-- The pools with one name for all the owners: `exist` is called without an owner. -/
def existAnyOwner : ObjectType → Bool
  | .host | .datastore | .marketPlace | .cluster | .vdc | .zone => true
  | _ => false

/-- The `UNIQUE` constraint of a table. -/
inductive UniqueKey where
  | none | nameUid | name
  deriving DecidableEq

def uniqueKey : ObjectType → UniqueKey
  | .image | .virtualNetwork | .vmGroup | .securityGroup | .marketPlaceApp => .nameUid
  | .cluster | .vdc | .zone => .name
  | _ => .none

/-- A row of the table of a pool. -/
structure Row where
  oid : ℕ
  name : Text
  uid : ℕ
  deriving DecidableEq

/-- `PoolSQL::get`, up to the lock. -/
def select (rows : List Row) (oid : ℕ) : Option Row := rows.find? fun r => r.oid = oid

/-- `exist` of the type: an object with the name, of the owner or of any one. -/
def exist (t : ObjectType) (name : Text) (uid : ℕ) (rows : List Row) : Option ℕ :=
  (rows.find? fun r => r.name = name && (existAnyOwner t || r.uid = uid)).map Row.oid

/-- Another row has the key of this one. -/
def violates (t : ObjectType) (rows : List Row) (row : Row) : Bool :=
  rows.any fun r => r.oid ≠ row.oid && r.name = row.name &&
    match uniqueKey t with
    | .none => false
    | .nameUid => r.uid = row.uid
    | .name => true

/-- `update` of an object: nothing is written when the constraint does not hold. -/
def update (t : ObjectType) (rows : List Row) (row : Row) : List Row :=
  if violates t rows row then rows
  else rows.map fun r => if r.oid = row.oid then row else r

/-- `PoolObjectSQL::INVALID_NAME_CHARS`. -/
def invalidNameChars : Text :=
  "&|:\\\";/'#\x7b\x7d$<>\t\n".toList ++ [Char.ofNat 11, Char.ofNat 12, Char.ofNat 13]

/-- `PoolObjectSQL::name_is_valid`. -/
def nameIsValid (name : Text) : Bool :=
  !name.isEmpty && name.all (fun c => c ∉ invalidNameChars) && name.length ≤ 128

/-! ## Two renames -/

/-- A request: its object, the new name, and the outcome of the authorization. -/
structure Rename where
  oid : ℕ
  newName : Text
  authorized : Bool

/-- The answers. -/
inductive ErrorCode where
  | success | internal | noExists | authorization | action
  deriving DecidableEq

/-- What a rename has done: the guard is taken, the object is read, the name is looked for, the object is
changed, and all is done but the guard is not dropped. -/
inductive Stage where
  | waiting
  | guarded
  | informed (uid : ℕ)
  | checked
  | changed (row : Row)
  | clearing (code : ErrorCode)
  | answered (code : ErrorCode)
  deriving DecidableEq

/-- The table, `rename_ids`, the two renames, and the order of the answers. -/
structure System where
  rows : List Row
  renameIds : Finset ℕ
  stages : Bool → Stage
  answers : List Bool

namespace System

def start (rows : List Row) : System := ⟨rows, ∅, fun _ => .waiting, []⟩

def goto (s : System) (i : Bool) (stage : Stage) : System :=
  { s with stages := Function.update s.stages i stage }

def answer (s : System) (i : Bool) (code : ErrorCode) : System :=
  { s.goto i (.answered code) with answers := s.answers ++ [i] }

end System

/-- The steps of a rename that only read: the object and its authorization, the search for the name, and the
change of the object in memory. -/
def read (t : ObjectType) (rows : List Row) (r : Rename) : Stage → Stage
  | .guarded =>
    match select rows r.oid with
    | none => .clearing .noExists
    | some row =>
      if row.name = r.newName then .clearing .success
      else if r.authorized then .informed row.uid
      else .clearing .authorization
  | .informed uid => if (exist t r.newName uid rows).isSome then .clearing .action else .checked
  | .checked =>
    match select rows r.oid with
    | none => .clearing .noExists
    | some row =>
      if nameIsValid r.newName then .changed { row with name := r.newName } else .clearing .action
  | stage => stage

namespace System

variable (t : ObjectType) (reqs : Bool → Rename)

/-- One step of a rename. -/
def step (s : System) (i : Bool) : System :=
  match s.stages i with
  | .waiting =>
    if (reqs i).oid ∈ s.renameIds then s.answer i .internal
    else { s.goto i .guarded with renameIds := insert (reqs i).oid s.renameIds }
  | .changed row => { s.goto i (.clearing .success) with rows := update t s.rows row }
  | .clearing code => { s.answer i code with renameIds := s.renameIds.erase (reqs i).oid }
  | .answered _ => s
  | stage => s.goto i (read t s.rows (reqs i) stage)

/-- The steps of the renames in some order. -/
def run (s : System) (order : List Bool) : System := order.foldl (step t reqs) s

end System

/-! ## Unique names -/

/-- Each owner has an object once for each name. -/
def NamesUnique (rows : List Row) : Prop :=
  ∀ r ∈ rows, ∀ r' ∈ rows, r.uid = r'.uid → r.name = r'.name → r.oid = r'.oid

/-- The object of a request has its name. -/
def Stored (rows : List Row) (r : Rename) : Prop := ∃ row ∈ rows, row.oid = r.oid ∧ row.name = r.newName

/-- Another rename of the object has been answered with success after this one. -/
def Followed (reqs : Bool → Rename) (s : System) (i : Bool) : Prop :=
  (reqs i).oid = (reqs !i).oid ∧ s.stages (!i) = .answered .success ∧ [i, !i].Sublist s.answers

/-- What the renames should keep. -/
def Kept (reqs : Bool → Rename) (s : System) : Prop :=
  NamesUnique s.rows ∧ ∀ i, s.stages i = .answered .success → Stored s.rows (reqs i) ∨ Followed reqs s i

/-- A rename of an object of this owner that is there, has another name, and is authorized. -/
def Allowed (rows : List Row) (r : Rename) (uid : ℕ) : Prop :=
  ∃ row, select rows r.oid = some row ∧ row.uid = uid ∧ row.name ≠ r.newName ∧ r.authorized = true

/-- A rename that goes through on these rows. -/
def Passes (t : ObjectType) (rows : List Row) (r : Rename) (uid : ℕ) : Prop :=
  Allowed rows r uid ∧ exist t r.newName uid rows = none ∧ nameIsValid r.newName = true

/-- In some moment both renames have looked for the name and not written it: they are between the third step
and the fifth one. -/
def Overlap (order : List Bool) : Prop :=
  ∃ n, ∀ i, 3 ≤ (order.take n).count i ∧ (order.take n).count i < 5

/-- Objects of these owners cannot have one name: they are of one owner, or the table has one name for all. -/
def Shares (t : ObjectType) (uid uid' : ℕ) : Prop := uniqueKey t = .name ∨ uid = uid'

/-- **Two renames race** for a name: they overlap, each one goes through alone, and their different objects
cannot have one name. -/
def Race (t : ObjectType) (rows : List Row) (reqs : Bool → Rename) (order : List Bool) : Prop :=
  (reqs false).oid ≠ (reqs true).oid ∧ (reqs false).newName = (reqs true).newName ∧
    (∃ uid : Bool → ℕ, (∀ i, Passes t rows (reqs i) (uid i)) ∧ Shares t (uid false) (uid true)) ∧
    Overlap order

/-! ## Rows -/

section Rows

variable {t : ObjectType} {rows : List Row} {row r : Row} {oid uid : ℕ} {name : Text}

theorem select_eq_some_iff (hoids : (rows.map Row.oid).Nodup) :
    select rows oid = some row ↔ row ∈ rows ∧ row.oid = oid := by
  unfold select
  constructor
  · intro h
    exact ⟨List.mem_of_find?_eq_some h, by simpa using List.find?_some h⟩
  · rintro ⟨hmem, rfl⟩
    cases hfind : rows.find? fun r => r.oid = row.oid with
    | none => exact absurd (List.find?_eq_none.mp hfind row hmem) (by simp)
    | some r =>
      have hr : r.oid = row.oid := by simpa using List.find?_some hfind
      rw [List.inj_on_of_nodup_map hoids (List.mem_of_find?_eq_some hfind) hmem hr]

theorem existAnyOwner_of_uniqueKey (h : uniqueKey t = .name) : existAnyOwner t = true := by
  cases t <;> first | rfl | exact absurd h (by decide)

/-- A name that is not found is not the name of a row that it cannot share. -/
theorem not_shares_of_exist (h : exist t name uid rows = none) (hr : r ∈ rows) (hname : r.name = name) :
    ¬ Shares t r.uid uid := by
  unfold exist at h
  rw [Option.map_eq_none_iff] at h
  have hone := List.find?_eq_none.mp h r hr
  rw [hname] at hone
  rintro (hkey | huid)
  · exact hone (by simp [existAnyOwner_of_uniqueKey hkey])
  · exact hone (by simp [huid])

/-- Nothing is violated by a name that no row has which cannot share it. -/
theorem violates_eq_false (h : ∀ r ∈ rows, r.name = row.name → ¬ Shares t r.uid row.uid) :
    violates t rows row = false := by
  unfold violates
  rw [List.any_eq_false]
  intro r hr hall
  rw [Bool.and_eq_true, Bool.and_eq_true, decide_eq_true_eq, decide_eq_true_eq] at hall
  obtain ⟨⟨-, hname⟩, hkey⟩ := hall
  refine h r hr hname ?_
  cases hk : uniqueKey t with
  | none => rw [hk] at hkey; exact absurd hkey (by simp)
  | nameUid => rw [hk] at hkey; exact Or.inr (by simpa using hkey)
  | name => exact Or.inl hk

/-- A row with the key of another one cannot be written, where there is a constraint. -/
theorem violates_eq_true (hr : r ∈ rows) (hoid : r.oid ≠ row.oid) (hname : r.name = row.name)
    (hshares : Shares t r.uid row.uid) (hkey : uniqueKey t ≠ .none) : violates t rows row = true := by
  unfold violates
  rw [List.any_eq_true]
  refine ⟨r, hr, ?_⟩
  cases hk : uniqueKey t with
  | none => exact absurd hk hkey
  | name => simp [hoid, hname]
  | nameUid =>
    have huid : r.uid = row.uid := hshares.resolve_left (by rw [hk]; decide)
    simp [hoid, hname, huid]

theorem violates_of_none (hkey : uniqueKey t = .none) : violates t rows row = false := by
  unfold violates
  rw [List.any_eq_false]
  intro r _
  simp [hkey]

theorem update_of_violates (h : violates t rows row = true) : update t rows row = rows := if_pos h

theorem mem_update (h : violates t rows row = false) (hrow : ∃ r ∈ rows, r.oid = row.oid) :
    r ∈ update t rows row ↔ r = row ∨ r ∈ rows ∧ r.oid ≠ row.oid := by
  unfold update
  rw [if_neg (by rw [h]; decide), List.mem_map]
  constructor
  · rintro ⟨r', hr', rfl⟩
    split_ifs with hoid
    · exact Or.inl rfl
    · exact Or.inr ⟨hr', hoid⟩
  · rintro (rfl | ⟨hr, hoid⟩)
    · obtain ⟨r', hr', hoid⟩ := hrow
      exact ⟨r', hr', if_pos hoid⟩
    · exact ⟨r, hr, if_neg hoid⟩

theorem update_oids : (update t rows row).map Row.oid = rows.map Row.oid := by
  unfold update
  split_ifs with h
  · rfl
  · rw [List.map_map]
    refine List.map_congr_left fun r _ => ?_
    rw [Function.comp_apply]
    split_ifs with hoid
    · exact hoid.symm
    · rfl

/-- A name that the owner does not have keeps the names unique. -/
theorem namesUnique_update (h : NamesUnique rows) (hrow : ∃ r ∈ rows, r.oid = row.oid)
    (hclear : ∀ r ∈ rows, r.name = row.name → ¬ Shares t r.uid row.uid) :
    NamesUnique (update t rows row) := by
  have hviolates := violates_eq_false hclear
  intro a ha b hb huid hname
  rw [mem_update hviolates hrow] at ha hb
  rcases ha with rfl | ⟨ha, -⟩ <;> rcases hb with rfl | ⟨hb, -⟩
  · rfl
  · exact absurd (Or.inr huid.symm) (hclear b hb hname.symm)
  · exact absurd (Or.inr huid) (hclear a ha hname)
  · exact h a ha b hb huid hname

end Rows

/-! ## One step -/

/-- The rename has the guard. -/
def Stage.isActive : Stage → Bool
  | .waiting | .answered _ => false
  | _ => true

/-- Nothing is decided yet. -/
def Stage.isEarly : Stage → Bool
  | .clearing _ | .answered _ => false
  | _ => true

/-- The name has been looked for, and it is not written. -/
def Stage.isBetween : Stage → Bool
  | .checked | .changed _ => true
  | _ => false

/-- The steps behind a stage. -/
def Stage.steps : Stage → ℕ
  | .waiting => 0
  | .guarded => 1
  | .informed _ => 2
  | .checked => 3
  | .changed _ => 4
  | _ => 5

namespace System

variable {t : ObjectType} {reqs : Bool → Rename} {s : System} {i j : Bool} {stage : Stage} {code : ErrorCode}

@[simp] theorem goto_self : (s.goto i stage).stages i = stage := Function.update_self _ _ _

theorem goto_other (h : j ≠ i) : (s.goto i stage).stages j = s.stages j := Function.update_of_ne h _ _

/-- **What a step does**: it waits for nothing, and it changes the rows in one stage only. -/
theorem step_cases (t : ObjectType) (reqs : Bool → Rename) (s : System) (i : Bool) :
    (s.stages i = .waiting ∧ (reqs i).oid ∈ s.renameIds ∧ s.step t reqs i = s.answer i .internal) ∨
    (s.stages i = .waiting ∧ (reqs i).oid ∉ s.renameIds ∧
      s.step t reqs i = { s.goto i .guarded with renameIds := insert (reqs i).oid s.renameIds }) ∨
    ((s.stages i).isActive = true ∧ s.step t reqs i = s.goto i (read t s.rows (reqs i) (s.stages i)) ∧
      (s.stages i = .guarded ∨ (∃ uid, s.stages i = .informed uid) ∨ s.stages i = .checked)) ∨
    (∃ row, s.stages i = .changed row ∧
      s.step t reqs i = { s.goto i (.clearing .success) with rows := update t s.rows row }) ∨
    (∃ code, s.stages i = .clearing code ∧
      s.step t reqs i = { s.answer i code with renameIds := s.renameIds.erase (reqs i).oid }) ∨
    ∃ code, s.stages i = .answered code ∧ s.step t reqs i = s := by
  unfold step
  cases hs : s.stages i with
  | waiting =>
    by_cases hmem : (reqs i).oid ∈ s.renameIds
    · exact Or.inl ⟨rfl, hmem, if_pos hmem⟩
    · exact Or.inr (Or.inl ⟨rfl, hmem, if_neg hmem⟩)
  | guarded => exact Or.inr (Or.inr (Or.inl ⟨rfl, rfl, Or.inl rfl⟩))
  | informed uid => exact Or.inr (Or.inr (Or.inl ⟨rfl, rfl, Or.inr (Or.inl ⟨uid, rfl⟩)⟩))
  | checked => exact Or.inr (Or.inr (Or.inl ⟨rfl, rfl, Or.inr (Or.inr rfl)⟩))
  | changed row => exact Or.inr (Or.inr (Or.inr (Or.inl ⟨row, rfl, rfl⟩)))
  | clearing code => exact Or.inr (Or.inr (Or.inr (Or.inr (Or.inl ⟨code, rfl, rfl⟩))))
  | answered code => exact Or.inr (Or.inr (Or.inr (Or.inr (Or.inr ⟨code, rfl, rfl⟩))))

/-- A step of a rename leaves the stage of the other one. -/
theorem step_other (h : j ≠ i) : (s.step t reqs i).stages j = s.stages j := by
  obtain ⟨-, -, h'⟩ | ⟨-, -, h'⟩ | ⟨-, h', -⟩ | ⟨_, -, h'⟩ | ⟨_, -, h'⟩ | ⟨_, -, h'⟩ := step_cases t reqs s i
  all_goals rw [h']
  all_goals exact goto_other h

theorem run_append (s : System) (l l' : List Bool) :
    s.run t reqs (l ++ l') = (s.run t reqs l).run t reqs l' := List.foldl_append

theorem run_concat (s : System) (l : List Bool) (i : Bool) :
    s.run t reqs (l ++ [i]) = (s.run t reqs l).step t reqs i := by
  rw [run_append]
  rfl

/-- What holds at the start and is kept by each step of a run holds of all its states. -/
theorem run_induction {P : List Bool → System → Prop} (order : List Bool) (hstart : P [] s)
    (hstep : ∀ l i, l ++ [i] <+: order → P l (s.run t reqs l) →
      P (l ++ [i]) ((s.run t reqs l).step t reqs i)) : P order (s.run t reqs order) := by
  suffices hall : ∀ l, l <+: order → P l (s.run t reqs l) from hall order (List.prefix_refl _)
  intro l
  induction l using List.reverseRecOn with
  | nil => exact fun _ => hstart
  | append_singleton l i ih =>
    intro hfront
    rw [run_concat]
    exact hstep l i hfront (ih ((List.prefix_append l [i]).trans hfront))

end System

/-! ## Runs without a race -/

/-- No row has the name, but those of owners that can have it too. -/
def Clear (t : ObjectType) (rows : List Row) (name : Text) (uid : ℕ) : Prop :=
  ∀ r ∈ rows, r.name = name → ¬ Shares t r.uid uid

/-- What the stage of a rename says about the rows. -/
def Fits (t : ObjectType) (rows : List Row) (r : Rename) : Stage → Prop
  | .informed uid => ∃ row ∈ rows, row.oid = r.oid ∧ row.uid = uid
  | .checked => ∃ row ∈ rows, row.oid = r.oid ∧
      (nameIsValid r.newName = true → Clear t rows r.newName row.uid)
  | .changed row' => nameIsValid r.newName = true ∧ ∃ row ∈ rows, row.oid = r.oid ∧
      row' = { row with name := r.newName } ∧ Clear t rows r.newName row.uid
  | .clearing .success => Stored rows r
  | _ => True

section Fits

variable {t : ObjectType} {rows : List Row} {r : Rename} {stage : Stage} {row : Row}

theorem shares_comm {uid uid' : ℕ} : Shares t uid uid' ↔ Shares t uid' uid := or_congr_right eq_comm

/-- A step that reads keeps this. -/
theorem fits_read (hoids : (rows.map Row.oid).Nodup) (h : Fits t rows r stage) :
    Fits t rows r (read t rows r stage) := by
  cases stage with
  | waiting => exact h
  | clearing code => exact h
  | answered code => exact h
  | changed row => exact h
  | guarded =>
    rw [read]
    cases hselect : select rows r.oid with
    | none => trivial
    | some row =>
      obtain ⟨hmem, hoid⟩ := (select_eq_some_iff hoids).mp hselect
      dsimp only
      split_ifs with hname hauth
      · exact ⟨row, hmem, hoid, hname⟩
      · exact ⟨row, hmem, hoid, rfl⟩
      · trivial
  | informed uid =>
    rw [read]
    split_ifs with hexist
    · trivial
    · obtain ⟨row, hmem, hoid, huid⟩ := h
      rw [Option.not_isSome_iff_eq_none] at hexist
      refine ⟨row, hmem, hoid, fun _ a ha hname => ?_⟩
      rw [huid]
      exact not_shares_of_exist hexist ha hname
  | checked =>
    rw [read]
    cases hselect : select rows r.oid with
    | none => trivial
    | some row =>
      obtain ⟨hmem, hoid⟩ := (select_eq_some_iff hoids).mp hselect
      dsimp only
      split_ifs with hvalid
      · obtain ⟨row', hmem', hoid', hclear⟩ := h
        rw [List.inj_on_of_nodup_map hoids hmem' hmem (hoid'.trans hoid.symm)] at hclear
        exact ⟨hvalid, row, hmem, hoid, rfl, hclear hvalid⟩
      · trivial

/-- The write of another object keeps this, unless both want a name that they cannot share. -/
theorem fits_update (h : Fits t rows r stage) (hviolates : violates t rows row = false)
    (hrow : ∃ a ∈ rows, a.oid = row.oid) (hoid : row.oid ≠ r.oid)
    (hfree : stage.isBetween = true → nameIsValid r.newName = true → row.name = r.newName →
      ∀ a ∈ rows, a.oid = r.oid → ¬ Shares t row.uid a.uid) :
    Fits t (update t rows row) r stage := by
  have hmem : ∀ a ∈ rows, a.oid = r.oid → a ∈ update t rows row := fun a ha haoid =>
    (mem_update hviolates hrow).mpr (Or.inr ⟨ha, by rw [haoid]; exact hoid.symm⟩)
  have hclear : stage.isBetween = true → nameIsValid r.newName = true → ∀ a ∈ rows, a.oid = r.oid →
      Clear t rows r.newName a.uid → Clear t (update t rows row) r.newName a.uid := by
    intro hbetween hvalid a ha haoid hold b hb hname
    rcases (mem_update hviolates hrow).mp hb with rfl | ⟨hb, -⟩
    · exact hfree hbetween hvalid hname a ha haoid
    · exact hold b hb hname
  cases stage with
  | waiting => trivial
  | guarded => trivial
  | answered code => trivial
  | informed uid =>
    obtain ⟨a, ha, haoid, huid⟩ := h
    exact ⟨a, hmem a ha haoid, haoid, huid⟩
  | checked =>
    obtain ⟨a, ha, haoid, hold⟩ := h
    exact ⟨a, hmem a ha haoid, haoid, fun hvalid => hclear rfl hvalid a ha haoid (hold hvalid)⟩
  | changed row' =>
    obtain ⟨hvalid, a, ha, haoid, heq, hold⟩ := h
    exact ⟨hvalid, a, hmem a ha haoid, haoid, heq, hclear rfl hvalid a ha haoid hold⟩
  | clearing code =>
    cases code with
    | success =>
      obtain ⟨a, ha, haoid, hname⟩ := h
      exact ⟨a, hmem a ha haoid, haoid, hname⟩
    | internal | noExists | authorization | action => trivial

end Fits

/-- Both renames are between their search and their write, and they want a name that they cannot share. -/
def Danger (t : ObjectType) (reqs : Bool → Rename) (s : System) : Prop :=
  (reqs false).oid ≠ (reqs true).oid ∧ (reqs false).newName = (reqs true).newName ∧
    ∃ uid : Bool → ℕ, (∀ i, (s.stages i).isBetween = true ∧ nameIsValid (reqs i).newName = true ∧
      ∃ row ∈ s.rows, row.oid = (reqs i).oid ∧ row.uid = uid i) ∧ Shares t (uid false) (uid true)

/-- The answer of a rename is followed by the other rename of its object, which has written. -/
def FollowedSoon (reqs : Bool → Rename) (s : System) (i : Bool) : Prop :=
  (reqs i).oid = (reqs !i).oid ∧ i ∈ s.answers ∧ (s.stages (!i) = .clearing .success ∨ Followed reqs s i)

/-- **The invariant** of the runs without a race. -/
structure Inv (t : ObjectType) (reqs : Bool → Rename) (s : System) : Prop where
  oids : (s.rows.map Row.oid).Nodup
  names : NamesUnique s.rows
  guard : ∀ i, (s.stages i).isActive = true → (reqs i).oid ∈ s.renameIds
  exclusive : ∀ i, (reqs i).oid = (reqs !i).oid → (s.stages i).isActive = true →
    (s.stages !i).isActive = false
  fits : ∀ i, Fits t s.rows (reqs i) (s.stages i)
  answered : ∀ i code, s.stages i = .answered code → i ∈ s.answers
  kept : ∀ i, s.stages i = .answered .success → Stored s.rows (reqs i) ∨ FollowedSoon reqs s i

section Inv

variable {t : ObjectType} {reqs : Bool → Rename} {s s' : System} {i : Bool}

/-- The two renames in the other order. -/
theorem danger_of {uid uid' : ℕ} (hoid : (reqs i).oid ≠ (reqs !i).oid)
    (hname : (reqs i).newName = (reqs !i).newName)
    (h : (s.stages i).isBetween = true ∧ nameIsValid (reqs i).newName = true ∧
      ∃ row ∈ s.rows, row.oid = (reqs i).oid ∧ row.uid = uid)
    (h' : (s.stages !i).isBetween = true ∧ nameIsValid (reqs !i).newName = true ∧
      ∃ row ∈ s.rows, row.oid = (reqs !i).oid ∧ row.uid = uid')
    (hshares : Shares t uid uid') : Danger t reqs s := by
  cases i with
  | false =>
    refine ⟨hoid, hname, fun k => cond k uid' uid, fun k => ?_, hshares⟩
    cases k with
    | false => exact h
    | true => exact h'
  | true =>
    refine ⟨hoid.symm, hname.symm, fun k => cond k uid uid', fun k => ?_, shares_comm.mp hshares⟩
    cases k with
    | false => exact h'
    | true => exact h

/-- A state that differs in the stage of one rename, and not in the rows. -/
theorem Inv.of_rows (h : Inv t reqs s) (hrows : s'.rows = s.rows)
    (hother : s'.stages (!i) = s.stages !i) (hfits : Fits t s.rows (reqs i) (s'.stages i))
    (hguard : ∀ k, (s'.stages k).isActive = true → (reqs k).oid ∈ s'.renameIds)
    (hexclusive : (reqs i).oid = (reqs !i).oid → (s'.stages i).isActive = true →
      (s.stages !i).isActive = false)
    (hanswered : ∀ k code, s'.stages k = .answered code → k ∈ s'.answers)
    (hown : s'.stages i = .answered .success → Stored s.rows (reqs i) ∨ FollowedSoon reqs s' i)
    (hsoon : FollowedSoon reqs s (!i) → FollowedSoon reqs s' !i) : Inv t reqs s' := by
  refine ⟨by rw [hrows]; exact h.oids, by rw [hrows]; exact h.names, hguard, fun k hoid hactive => ?_,
    fun k => ?_, hanswered, fun k hk => ?_⟩
  · by_cases hk : k = i
    · subst hk
      rw [hother]
      exact hexclusive hoid hactive
    · obtain rfl := Bool.eq_not.mpr hk
      rw [Bool.not_not] at hoid ⊢
      rw [hother] at hactive
      by_contra hboth
      rw [Bool.not_eq_false] at hboth
      exact absurd (hexclusive hoid.symm hboth) (by rw [hactive]; decide)
  · rw [hrows]
    by_cases hk : k = i
    · subst hk
      exact hfits
    · obtain rfl := Bool.eq_not.mpr hk
      rw [hother]
      exact h.fits _
  · rw [hrows]
    by_cases hki : k = i
    · subst hki
      exact hown hk
    · obtain rfl := Bool.eq_not.mpr hki
      rw [hother] at hk
      exact (h.kept _ hk).imp_right hsoon

/-- A rename that has not written is not behind another one. -/
theorem not_followedSoon (h : s.stages i ≠ .clearing .success) (h' : s.stages i ≠ .answered .success) :
    ¬ FollowedSoon reqs s !i := by
  rintro ⟨-, -, hclearing | ⟨-, hanswered, -⟩⟩
  · rw [Bool.not_not] at hclearing
    exact h hclearing
  · rw [Bool.not_not] at hanswered
    exact h' hanswered

theorem Inv.refused (h : Inv t reqs s) (hs : s.stages i = .waiting) :
    Inv t reqs (s.answer i .internal) := by
  have hself : (s.answer i .internal).stages i = .answered .internal := System.goto_self
  have hother : ∀ k, k ≠ i → (s.answer i .internal).stages k = s.stages k := fun k hk =>
    System.goto_other hk
  refine h.of_rows (i := i) rfl (hother (!i) (by simp)) ?_ (fun k hk => ?_) ?_ (fun k code hk => ?_) ?_
    fun hsoon => absurd hsoon (not_followedSoon (by rw [hs]; decide) (by rw [hs]; decide))
  · rw [hself]
    trivial
  · by_cases hki : k = i
    · rw [hki, hself] at hk
      exact absurd hk (by decide)
    · rw [hother k hki] at hk
      exact h.guard k hk
  · rw [hself]
    exact fun _ hactive => absurd hactive (by decide)
  · by_cases hki : k = i
    · exact List.mem_append_right _ (List.mem_singleton.mpr hki)
    · rw [hother k hki] at hk
      exact List.mem_append_left _ (h.answered k code hk)
  · rw [hself]
    exact fun hcode => absurd hcode (by decide)

theorem Inv.guarded (h : Inv t reqs s) (hs : s.stages i = .waiting)
    (hfree : (reqs i).oid ∉ s.renameIds) :
    Inv t reqs { s.goto i .guarded with renameIds := insert (reqs i).oid s.renameIds } := by
  refine h.of_rows (i := i) rfl (System.goto_other (by simp)) ?_ (fun k hk => ?_) (fun hoid _ => ?_)
    (fun k code hk => ?_) (fun hcode => ?_)
    fun hsoon => absurd hsoon (not_followedSoon (by rw [hs]; decide) (by rw [hs]; decide))
  · rw [System.goto_self]
    trivial
  · by_cases hki : k = i
    · rw [hki]
      exact Finset.mem_insert_self _ _
    · change ((s.goto i .guarded).stages k).isActive = true at hk
      rw [System.goto_other hki] at hk
      exact Finset.mem_insert_of_mem (h.guard k hk)
  · by_contra hactive
    rw [Bool.not_eq_false] at hactive
    exact hfree (hoid ▸ h.guard _ hactive)
  · change (s.goto i .guarded).stages k = _ at hk
    by_cases hki : k = i
    · rw [hki, System.goto_self] at hk
      exact absurd hk (by simp)
    · rw [System.goto_other hki] at hk
      exact h.answered k code hk
  · rw [System.goto_self] at hcode
    exact absurd hcode (by decide)

theorem Inv.reads (h : Inv t reqs s) (hactive : (s.stages i).isActive = true)
    (hearly : (s.stages i).isEarly = true) :
    Inv t reqs (s.goto i (read t s.rows (reqs i) (s.stages i))) := by
  have hactive' : (read t s.rows (reqs i) (s.stages i)).isActive = true := by
    unfold read
    split <;> try split
    all_goals first | rfl | (split_ifs <;> rfl) | exact hactive
  refine h.of_rows (i := i) rfl (System.goto_other (by simp)) ?_ (fun k hk => ?_)
    (fun hoid _ => h.exclusive i hoid hactive) (fun k code hk => ?_) (fun hcode => ?_)
    fun hsoon => absurd hsoon (not_followedSoon ?_ ?_)
  · rw [System.goto_self]
    exact fits_read h.oids (h.fits i)
  · by_cases hki : k = i
    · rw [hki]
      exact h.guard i hactive
    · rw [System.goto_other hki] at hk
      exact h.guard k hk
  · by_cases hki : k = i
    · rw [hki, System.goto_self] at hk
      exact absurd hactive' (by rw [hk]; exact Bool.false_ne_true)
    · rw [System.goto_other hki] at hk
      exact h.answered k code hk
  · rw [System.goto_self] at hcode
    exact absurd hactive' (by rw [hcode]; decide)
  · intro hcode
    exact absurd hearly (by rw [hcode]; decide)
  · intro hcode
    exact absurd hearly (by rw [hcode]; decide)

/-- The end of a rename: the guard is dropped and the request is answered. -/
theorem Inv.cleared {code : ErrorCode} (h : Inv t reqs s) (hs : s.stages i = .clearing code) :
    Inv t reqs { s.answer i code with renameIds := s.renameIds.erase (reqs i).oid } := by
  have hactive : (s.stages i).isActive = true := by rw [hs]; rfl
  refine h.of_rows (i := i) rfl (System.goto_other (by simp)) ?_ (fun k hk => ?_) (fun _ hk => ?_)
    (fun k code' hk => ?_) (fun hcode => ?_) (fun hsoon => ?_)
  · change Fits t s.rows (reqs i) ((s.goto i (.answered code)).stages i)
    rw [System.goto_self]
    trivial
  · change ((s.goto i (.answered code)).stages k).isActive = true at hk
    by_cases hki : k = i
    · rw [hki, System.goto_self] at hk
      exact absurd hk Bool.false_ne_true
    · rw [System.goto_other hki] at hk
      refine Finset.mem_erase.mpr ⟨fun hoid => ?_, h.guard k hk⟩
      obtain rfl := Bool.eq_not.mpr hki
      exact absurd (h.exclusive i hoid.symm hactive) (by rw [hk]; decide)
  · change ((s.goto i (.answered code)).stages i).isActive = true at hk
    rw [System.goto_self] at hk
    exact absurd hk Bool.false_ne_true
  · change (s.goto i (.answered code)).stages k = _ at hk
    by_cases hki : k = i
    · exact List.mem_append_right _ (List.mem_singleton.mpr hki)
    · rw [System.goto_other hki] at hk
      exact List.mem_append_left _ (h.answered k code' hk)
  · change (s.goto i (.answered code)).stages i = _ at hcode
    rw [System.goto_self, Stage.answered.injEq] at hcode
    have hfits := h.fits i
    rw [hs, hcode] at hfits
    exact Or.inl hfits
  · obtain ⟨hoid, hmem, hclearing | ⟨-, hanswered, -⟩⟩ := hsoon
    · rw [Bool.not_not, hs, Stage.clearing.injEq] at hclearing
      refine ⟨hoid, List.mem_append_left _ hmem, Or.inr ⟨hoid, ?_, ?_⟩⟩
      · change (s.goto i (.answered code)).stages _ = _
        rw [Bool.not_not, System.goto_self, hclearing]
      · rw [Bool.not_not]
        exact (List.singleton_sublist.mpr hmem).append (List.Sublist.refl [i])
    · rw [Bool.not_not, hs] at hanswered
      exact absurd hanswered (by simp)

/-- The write of a rename. -/
theorem Inv.writes {row : Row} (h : Inv t reqs s) (hdanger : ¬ Danger t reqs s)
    (hs : s.stages i = .changed row) :
    Inv t reqs { s.goto i (.clearing .success) with rows := update t s.rows row } := by
  have hactive : (s.stages i).isActive = true := by rw [hs]; rfl
  have hfits := h.fits i
  rw [hs] at hfits
  obtain ⟨hvalid, old, hold, holdoid, rfl, hclear⟩ := hfits
  have hviolates : violates t s.rows { old with name := (reqs i).newName } = false :=
    violates_eq_false hclear
  have hrow : ∃ a ∈ s.rows, a.oid = old.oid := ⟨old, hold, rfl⟩
  have hstored : Stored (update t s.rows { old with name := (reqs i).newName }) (reqs i) :=
    ⟨_, (mem_update hviolates hrow).mpr (Or.inl rfl), holdoid, rfl⟩
  have hother : ∀ k, k ≠ i → (s.goto i (.clearing .success)).stages k = s.stages k := fun k hk =>
    System.goto_other hk
  refine ⟨by rw [update_oids]; exact h.oids, namesUnique_update h.names hrow hclear, fun k hk => ?_,
    fun k hoid hk => ?_, fun k => ?_, fun k code hk => ?_, fun k hk => ?_⟩
  · change ((s.goto i (.clearing .success)).stages k).isActive = true at hk
    by_cases hki : k = i
    · rw [hki]
      exact h.guard i hactive
    · rw [hother k hki] at hk
      exact h.guard k hk
  · change ((s.goto i (.clearing .success)).stages k).isActive = true at hk
    change ((s.goto i (.clearing .success)).stages !k).isActive = false
    by_cases hki : k = i
    · subst hki
      rw [hother _ (by simp)]
      exact h.exclusive k hoid hactive
    · rw [hother k hki] at hk
      obtain rfl := Bool.eq_not.mpr hki
      rw [Bool.not_not] at hoid
      exact absurd (h.exclusive i hoid.symm hactive) (by rw [hk]; decide)
  · change Fits t _ (reqs k) ((s.goto i (.clearing .success)).stages k)
    by_cases hki : k = i
    · subst hki
      rw [System.goto_self]
      exact hstored
    · rw [hother k hki]
      obtain rfl := Bool.eq_not.mpr hki
      by_cases hoid : (reqs i).oid = (reqs !i).oid
      · have hinactive := h.exclusive i hoid hactive
        cases hk : s.stages !i with
        | waiting | answered code => trivial
        | guarded | informed uid | checked | changed row | clearing code =>
          rw [hk] at hinactive
          exact absurd hinactive (by simp [Stage.isActive])
      · refine fits_update (h.fits _) hviolates hrow (by rw [holdoid]; exact hoid) ?_
        intro hbetween hvalid' hname a ha haoid hshares
        exact hdanger (danger_of hoid hname ⟨by rw [hs]; rfl, hvalid, old, hold, holdoid, rfl⟩
          ⟨hbetween, hvalid', a, ha, haoid, rfl⟩ hshares)
  · change (s.goto i (.clearing .success)).stages k = _ at hk
    by_cases hki : k = i
    · rw [hki, System.goto_self] at hk
      exact absurd hk (by simp)
    · rw [hother k hki] at hk
      exact h.answered k code hk
  · change (s.goto i (.clearing .success)).stages k = _ at hk
    by_cases hki : k = i
    · exact Or.inl (hki ▸ hstored)
    · rw [hother k hki] at hk
      obtain rfl := Bool.eq_not.mpr hki
      by_cases hoid : (reqs i).oid = (reqs !i).oid
      · refine Or.inr ⟨by rw [Bool.not_not]; exact hoid.symm, h.answered _ _ hk, Or.inl ?_⟩
        change (s.goto i (.clearing .success)).stages _ = _
        rw [Bool.not_not, System.goto_self]
      · obtain ⟨a, ha, haoid, haname⟩ | hsoon := h.kept _ hk
        · exact Or.inl ⟨a, (mem_update hviolates hrow).mpr (Or.inr ⟨ha, by
            rw [haoid]
            exact fun heq => hoid (heq.trans holdoid).symm⟩), haoid, haname⟩
        · have hsame := hsoon.1
          rw [Bool.not_not] at hsame
          exact absurd hsame.symm hoid

/-- A step that is not a race keeps the invariant. -/
theorem Inv.step (h : Inv t reqs s) (hdanger : ¬ Danger t reqs s) (i : Bool) :
    Inv t reqs (s.step t reqs i) := by
  obtain ⟨hs, -, h'⟩ | ⟨hs, hfree, h'⟩ | ⟨hactive, h', hs⟩ | ⟨_, hs, h'⟩ | ⟨_, hs, h'⟩ | ⟨_, -, h'⟩ :=
    System.step_cases t reqs s i
  · rw [h']
    exact h.refused hs
  · rw [h']
    exact h.guarded hs hfree
  · rw [h']
    refine h.reads hactive ?_
    obtain hs | ⟨uid, hs⟩ | hs := hs
    all_goals rw [hs]; rfl
  · rw [h']
    exact h.writes hdanger hs
  · rw [h']
    exact h.cleared hs
  · rw [h']
    exact h

end Inv

/-- What the stage of a rename says about the rows while nothing is written. -/
def Goes (t : ObjectType) (rows : List Row) (r : Rename) : Stage → Prop
  | .informed uid => Allowed rows r uid
  | .checked | .changed _ => ∃ uid, Allowed rows r uid ∧ exist t r.newName uid rows = none
  | _ => True

/-- The stages of a run count its steps, and the rows are the ones of the start while nothing is written. -/
structure History (t : ObjectType) (reqs : Bool → Rename) (rows : List Row) (l : List Bool) (s : System) :
    Prop where
  steps : ∀ i, (s.stages i).isEarly = true → (s.stages i).steps = l.count i
  unchanged : (∀ i, (s.stages i).isEarly = true) → s.rows = rows
  goes : (∀ i, (s.stages i).isEarly = true) → ∀ i, Goes t rows (reqs i) (s.stages i)

section History

variable {t : ObjectType} {reqs : Bool → Rename} {rows : List Row} {r : Rename} {l : List Bool} {s : System}
  {i : Bool} {stage : Stage}

theorem goes_read (h : Goes t rows r stage) : Goes t rows r (read t rows r stage) := by
  cases stage with
  | waiting => exact h
  | clearing code => exact h
  | answered code => exact h
  | changed row => exact h
  | guarded =>
    rw [read]
    cases hselect : select rows r.oid with
    | none => trivial
    | some row =>
      dsimp only
      split_ifs with hname hauth
      · trivial
      · exact ⟨row, hselect, rfl, hname, hauth⟩
      · trivial
  | informed uid =>
    rw [read]
    split_ifs with hexist
    · trivial
    · exact ⟨uid, h, Option.not_isSome_iff_eq_none.mp hexist⟩
  | checked =>
    rw [read]
    cases select rows r.oid with
    | none => trivial
    | some row =>
      dsimp only
      split_ifs
      · exact h
      · trivial

/-- A step that reads is one step. -/
theorem steps_read (hstage : stage = .guarded ∨ (∃ uid, stage = .informed uid) ∨ stage = .checked)
    (hearly : (read t rows r stage).isEarly = true) : (read t rows r stage).steps = stage.steps + 1 := by
  obtain rfl | ⟨uid, rfl⟩ | rfl := hstage
  · rw [read] at hearly ⊢
    cases hselect : select rows r.oid with
    | none => rw [hselect] at hearly; exact absurd hearly Bool.false_ne_true
    | some row =>
      rw [hselect] at hearly
      dsimp only at hearly ⊢
      split_ifs at hearly ⊢
      · exact absurd hearly (by decide)
      · rfl
      · exact absurd hearly (by decide)
  · rw [read] at hearly ⊢
    split_ifs at hearly ⊢
    · exact absurd hearly (by decide)
    · rfl
  · rw [read] at hearly ⊢
    cases hselect : select rows r.oid with
    | none => rw [hselect] at hearly; exact absurd hearly Bool.false_ne_true
    | some row =>
      rw [hselect] at hearly
      dsimp only at hearly ⊢
      split_ifs at hearly ⊢
      · rfl
      · exact absurd hearly (by decide)

/-- A step with nothing written after it is the guard or one that reads. -/
theorem step_of_isEarly (h : ((s.step t reqs i).stages i).isEarly = true) :
    (s.stages i).isEarly = true ∧ (s.step t reqs i).rows = s.rows ∧
      ((s.stages i = .waiting ∧ (s.step t reqs i).stages i = .guarded) ∨
        (s.stages i = .guarded ∨ (∃ uid, s.stages i = .informed uid) ∨ s.stages i = .checked) ∧
          (s.step t reqs i).stages i = read t s.rows (reqs i) (s.stages i)) := by
  obtain ⟨hs, -, h'⟩ | ⟨hs, -, h'⟩ | ⟨-, h', hs⟩ | ⟨_, hs, h'⟩ | ⟨_, hs, h'⟩ | ⟨_, hs, h'⟩ :=
    System.step_cases t reqs s i
  · rw [h'] at h
    change ((s.goto i (.answered .internal)).stages i).isEarly = true at h
    rw [System.goto_self] at h
    exact absurd h Bool.false_ne_true
  · rw [h']
    exact ⟨by rw [hs]; rfl, rfl, Or.inl ⟨hs, System.goto_self⟩⟩
  · rw [h']
    refine ⟨?_, rfl, Or.inr ⟨hs, System.goto_self⟩⟩
    obtain hs | ⟨uid, hs⟩ | hs := hs
    all_goals rw [hs]; rfl
  · rw [h'] at h
    change ((s.goto i (.clearing .success)).stages i).isEarly = true at h
    rw [System.goto_self] at h
    exact absurd h Bool.false_ne_true
  · rw [h'] at h
    change ((s.goto i (.answered _)).stages i).isEarly = true at h
    rw [System.goto_self] at h
    exact absurd h Bool.false_ne_true
  · rw [h', hs] at h
    exact absurd h Bool.false_ne_true

theorem History.step (h : History t reqs rows l s) (i : Bool) :
    History t reqs rows (l ++ [i]) (s.step t reqs i) := by
  have hearly : (∀ k, ((s.step t reqs i).stages k).isEarly = true) →
      (∀ k, (s.stages k).isEarly = true) := by
    intro hall k
    by_cases hki : k = i
    · rw [hki]
      exact (step_of_isEarly (hall i)).1
    · rw [← System.step_other hki]
      exact hall k
  refine ⟨fun k hk => ?_, fun hall => ?_, fun hall k => ?_⟩
  · by_cases hki : k = i
    · subst hki
      obtain ⟨hold, -, ⟨hs, h'⟩ | ⟨hs, h'⟩⟩ := step_of_isEarly hk
      · rw [List.count_append, List.count_singleton_self, ← h.steps k hold, hs, h']
        rfl
      · rw [List.count_append, List.count_singleton_self, ← h.steps k hold, h']
        rw [h'] at hk
        exact steps_read hs hk
    · rw [System.step_other hki] at hk ⊢
      rw [List.count_append, List.count_singleton, if_neg (by simpa using fun hik => hki hik.symm),
        add_zero]
      exact h.steps k hk
  · rw [(step_of_isEarly (hall i)).2.1]
    exact h.unchanged (hearly hall)
  · by_cases hki : k = i
    · subst hki
      obtain ⟨-, -, ⟨-, h'⟩ | ⟨-, h'⟩⟩ := step_of_isEarly (hall k)
      · rw [h']
        trivial
      · rw [h', h.unchanged (hearly hall)]
        exact goes_read (h.goes (hearly hall) k)
    · rw [System.step_other hki]
      exact h.goes (hearly hall) k

theorem history_run (t : ObjectType) (reqs : Bool → Rename) (rows : List Row) (order : List Bool) :
    History t reqs rows order ((System.start rows).run t reqs order) :=
  System.run_induction (P := fun l s => History t reqs rows l s) order
    ⟨fun _ _ => rfl, fun _ => rfl, fun _ _ => trivial⟩ fun _ i _ h => h.step i

/-- A dangerous state of a run is a race. -/
theorem race_of_danger {order : List Bool} (hoids : (rows.map Row.oid).Nodup) (hfront : l <+: order)
    (h : Danger t reqs ((System.start rows).run t reqs l)) : Race t rows reqs order := by
  obtain ⟨hoid, hname, uid, hboth, hshares⟩ := h
  have hhistory := history_run t reqs rows l
  have hearly : ∀ i, (((System.start rows).run t reqs l).stages i).isEarly = true := by
    intro i
    have hbetween := (hboth i).1
    cases hs : ((System.start rows).run t reqs l).stages i with
    | checked | changed row => rfl
    | waiting | guarded | informed uid | clearing code | answered code =>
      rw [hs] at hbetween
      exact absurd hbetween Bool.false_ne_true
  have hpasses : ∀ i, Passes t rows (reqs i) (uid i) := by
    intro i
    obtain ⟨hbetween, hvalid, row, hrow, hrowoid, hrowuid⟩ := hboth i
    have hgoes := hhistory.goes hearly i
    have hone : ∃ uid, Allowed rows (reqs i) uid ∧ exist t (reqs i).newName uid rows = none := by
      cases hs : ((System.start rows).run t reqs l).stages i with
      | checked | changed row => rw [hs] at hgoes; exact hgoes
      | waiting | guarded | informed uid | clearing code | answered code =>
        rw [hs] at hbetween
        exact absurd hbetween Bool.false_ne_true
    obtain ⟨uid', hallowed, hexist⟩ := hone
    obtain ⟨row', hselect, hrowuid', -, -⟩ := id hallowed
    obtain ⟨hrow', hrowoid'⟩ := (select_eq_some_iff hoids).mp hselect
    rw [hhistory.unchanged hearly] at hrow
    have hsame : uid' = uid i := by
      rw [← hrowuid', ← hrowuid, List.inj_on_of_nodup_map hoids hrow' hrow (hrowoid'.trans hrowoid.symm)]
    rw [hsame] at hallowed hexist
    exact ⟨hallowed, hexist, hvalid⟩
  refine ⟨hoid, hname, ⟨uid, hpasses, hshares⟩, l.length, fun i => ?_⟩
  rw [← List.prefix_iff_eq_take.mp hfront, ← hhistory.steps i (hearly i)]
  have hbetween := (hboth i).1
  cases hs : ((System.start rows).run t reqs l).stages i with
  | checked | changed row => exact ⟨by simp [Stage.steps], by simp [Stage.steps]⟩
  | waiting | guarded | informed uid | clearing code | answered code =>
    rw [hs] at hbetween
    exact absurd hbetween Bool.false_ne_true

end History

theorem inv_start {t : ObjectType} {reqs : Bool → Rename} {rows : List Row}
    (hoids : (rows.map Row.oid).Nodup) (hnames : NamesUnique rows) : Inv t reqs (System.start rows) :=
  ⟨hoids, hnames, fun _ h => absurd h Bool.false_ne_true, fun _ _ h => absurd h Bool.false_ne_true,
    fun _ => trivial, fun _ _ h => absurd h (by simp [System.start]),
    fun _ h => absurd h (by simp [System.start])⟩

/-- Two renames that do not race keep the names unique and store theirs. -/
theorem kept_of_not_race {t : ObjectType} {reqs : Bool → Rename} {rows : List Row} {order : List Bool}
    (hoids : (rows.map Row.oid).Nodup) (hnames : NamesUnique rows)
    (hend : ∀ i, ∃ code, ((System.start rows).run t reqs order).stages i = .answered code)
    (hrace : ¬ Race t rows reqs order) : Kept reqs ((System.start rows).run t reqs order) := by
  have hinv : Inv t reqs ((System.start rows).run t reqs order) := by
    refine System.run_induction (P := fun _ s => Inv t reqs s) order (inv_start hoids hnames) ?_
    intro l i hfront h
    exact h.step (fun hdanger => hrace (race_of_danger hoids
      ((List.prefix_append l [i]).trans hfront) hdanger)) i
  refine ⟨hinv.names, fun i hi => (hinv.kept i hi).imp_right ?_⟩
  rintro ⟨-, -, hclearing | hfollowed⟩
  · obtain ⟨code, hcode⟩ := hend !i
    rw [hclearing] at hcode
    exact absurd hcode (by simp)
  · exact hfollowed

/-! ## Runs with a race -/

/-- Both renames go through on these rows, their objects are different, and they want one name. -/
structure Racing (t : ObjectType) (rows : List Row) (reqs : Bool → Rename) (row : Bool → Row) : Prop where
  oids : (rows.map Row.oid).Nodup
  different : ∀ i, (reqs i).oid ≠ (reqs !i).oid
  same : ∀ i, (reqs i).newName = (reqs !i).newName
  found : ∀ i, select rows (reqs i).oid = some (row i)
  name : ∀ i, (row i).name ≠ (reqs i).newName
  authorized : ∀ i, (reqs i).authorized = true
  free : ∀ i, exist t (reqs i).newName (row i).uid rows = none
  valid : ∀ i, nameIsValid (reqs i).newName = true
  shares : ∀ i, Shares t (row i).uid (row !i).uid

/-- The row that a rename writes. -/
def renamed (reqs : Bool → Rename) (row : Bool → Row) (i : Bool) : Row :=
  { row i with name := (reqs i).newName }

/-- The stage after some steps of a rename that goes through. -/
def stageAfter (reqs : Bool → Rename) (row : Bool → Row) (i : Bool) : ℕ → Stage
  | 0 => .waiting
  | 1 => .guarded
  | 2 => .informed (row i).uid
  | 3 => .checked
  | _ => .changed (renamed reqs row i)

/-- The rename is done, with success. -/
def Stage.IsWritten (stage : Stage) : Prop := stage = .clearing .success ∨ stage = .answered .success

/-- The rename is before its write. -/
def Stage.IsBefore (stage : Stage) (row : Row) : Prop := stage = .checked ∨ stage = .changed row

/-- The rows and the stages of a race: neither rename has written, one of them has, or both have. -/
def Raced (t : ObjectType) (rows : List Row) (reqs : Bool → Rename) (row : Bool → Row) (s : System) : Prop :=
  (s.rows = rows ∧ ∀ i, (s.stages i).IsBefore (renamed reqs row i)) ∨
  ∃ i, (s.stages i).IsWritten ∧
    (s.rows = update t rows (renamed reqs row i) ∧ (s.stages !i).IsBefore (renamed reqs row !i) ∨
      s.rows = update t (update t rows (renamed reqs row i)) (renamed reqs row !i) ∧
        (s.stages !i).IsWritten)

section Racing

variable {t : ObjectType} {reqs : Bool → Rename} {rows : List Row} {row : Bool → Row} {s : System}
  {order : List Bool}

theorem Racing.mem (h : Racing t rows reqs row) (i : Bool) : row i ∈ rows ∧ (row i).oid = (reqs i).oid :=
  (select_eq_some_iff h.oids).mp (h.found i)

theorem Racing.violates (h : Racing t rows reqs row) (i : Bool) :
    violates t rows (renamed reqs row i) = false :=
  violates_eq_false fun _ hr hname => not_shares_of_exist (h.free i) hr hname

theorem Racing.mem_update (h : Racing t rows reqs row) (i : Bool) {r : Row} :
    r ∈ update t rows (renamed reqs row i) ↔ r = renamed reqs row i ∨ r ∈ rows ∧ r.oid ≠ (row i).oid :=
  ObjectRename.mem_update (h.violates i) ⟨row i, (h.mem i).1, rfl⟩

/-- The write of one rename leaves the object of the other one. -/
theorem Racing.mem_other (h : Racing t rows reqs row) (i : Bool) :
    row (!i) ∈ update t rows (renamed reqs row i) :=
  (h.mem_update i).mpr (Or.inr ⟨(h.mem !i).1, by
    rw [(h.mem !i).2, (h.mem i).2]
    exact (h.different i).symm⟩)

theorem Racing.select_other (h : Racing t rows reqs row) (i : Bool) :
    select (update t rows (renamed reqs row i)) (reqs !i).oid = some (row !i) := by
  rw [select_eq_some_iff (by rw [update_oids]; exact h.oids)]
  exact ⟨h.mem_other i, (h.mem !i).2⟩

/-- A rename before its write loads its object or writes it. -/
theorem step_of_isBefore (h : Racing t rows reqs row) {i : Bool}
    (hselect : select s.rows (reqs i).oid = some (row i))
    (hbefore : (s.stages i).IsBefore (renamed reqs row i)) :
    ((s.step t reqs i).rows = s.rows ∧ ((s.step t reqs i).stages i).IsBefore (renamed reqs row i)) ∨
      (s.step t reqs i).rows = update t s.rows (renamed reqs row i) ∧
        ((s.step t reqs i).stages i).IsWritten := by
  unfold System.step
  obtain hs | hs := hbefore
  · rw [hs]
    dsimp only
    rw [read, hselect]
    dsimp only
    rw [if_pos (h.valid i)]
    exact Or.inl ⟨rfl, Or.inr System.goto_self⟩
  · rw [hs]
    exact Or.inr ⟨rfl, Or.inl System.goto_self⟩

theorem step_of_isWritten {i : Bool} (h : (s.stages i).IsWritten) :
    (s.step t reqs i).rows = s.rows ∧ ((s.step t reqs i).stages i).IsWritten := by
  unfold System.step
  obtain hs | hs := h
  · rw [hs]
    exact ⟨rfl, Or.inr System.goto_self⟩
  · rw [hs]
    exact ⟨rfl, Or.inr hs⟩

theorem Raced.step (h : Racing t rows reqs row) (hs : Raced t rows reqs row s) (k : Bool) :
    Raced t rows reqs row (s.step t reqs k) := by
  have hother : ∀ j, j ≠ k → (s.step t reqs k).stages j = s.stages j := fun j hj => System.step_other hj
  obtain ⟨hrows, hbefore⟩ | ⟨i, hwritten, hrest⟩ := hs
  · obtain ⟨hrows', hbefore'⟩ | ⟨hrows', hwritten⟩ :=
      step_of_isBefore h (by rw [hrows]; exact h.found k) (hbefore k)
    · refine Or.inl ⟨hrows'.trans hrows, fun i => ?_⟩
      by_cases hi : i = k
      · rw [hi]
        exact hbefore'
      · rw [hother i hi]
        exact hbefore i
    · refine Or.inr ⟨k, hwritten, Or.inl ⟨by rw [hrows', hrows], ?_⟩⟩
      rw [hother _ (by simp)]
      exact hbefore _
  · by_cases hi : k = i
    · subst hi
      obtain ⟨hrows', hwritten'⟩ : (s.step t reqs k).rows = s.rows ∧
          ((s.step t reqs k).stages k).IsWritten := step_of_isWritten hwritten
      refine Or.inr ⟨k, hwritten', ?_⟩
      rw [hrows', hother _ (by simp)]
      exact hrest
    · have hk : k = !i := Bool.eq_not.mpr hi
      subst hk
      refine Or.inr ⟨i, by rw [hother i (by simp)]; exact hwritten, ?_⟩
      obtain ⟨hrows, hbefore⟩ | ⟨hrows, hwritten'⟩ := hrest
      · obtain ⟨hrows', hbefore'⟩ | ⟨hrows', hwritten'⟩ :=
          step_of_isBefore h (by rw [hrows]; exact h.select_other i) hbefore
        · exact Or.inl ⟨hrows'.trans hrows, hbefore'⟩
        · exact Or.inr ⟨by rw [hrows', hrows], hwritten'⟩
      · obtain ⟨hrows', hwritten''⟩ : (s.step t reqs (!i)).rows = s.rows ∧
            ((s.step t reqs (!i)).stages (!i)).IsWritten := step_of_isWritten hwritten'
        exact Or.inr ⟨hrows'.trans hrows, hwritten''⟩

/-- **A race breaks the names**: the second write makes a name that is there twice, or it fails. -/
theorem not_kept_of_raced (h : Racing t rows reqs row) (hs : Raced t rows reqs row s)
    (hend : ∀ i, ∃ code, s.stages i = .answered code) : ¬ Kept reqs s := by
  have hnotBefore : ∀ i, ¬ (s.stages i).IsBefore (renamed reqs row i) := by
    intro i hbefore
    obtain ⟨code, hcode⟩ := hend i
    rw [hcode] at hbefore
    obtain hbefore | hbefore := hbefore
    · exact absurd hbefore (by simp)
    · exact absurd hbefore (by simp)
  obtain ⟨-, hbefore⟩ | ⟨i, -, ⟨-, hbefore⟩ | ⟨hrows, hwritten⟩⟩ := hs
  · exact absurd (hbefore false) (hnotBefore false)
  · exact absurd hbefore (hnotBefore _)
  rintro ⟨hunique, hstored⟩
  have hfirst : renamed reqs row i ∈ update t rows (renamed reqs row i) := (h.mem_update i).mpr (Or.inl rfl)
  have hoid : (renamed reqs row i).oid ≠ (renamed reqs row !i).oid := by
    change (row i).oid ≠ (row !i).oid
    rw [(h.mem i).2, (h.mem !i).2]
    exact h.different i
  by_cases hkey : uniqueKey t = .none
  · have hmem : ∀ {r}, r ∈ s.rows ↔ r = renamed reqs row (!i) ∨
        r ∈ update t rows (renamed reqs row i) ∧ r.oid ≠ (row !i).oid := by
      rw [hrows]
      exact ObjectRename.mem_update (violates_of_none hkey) ⟨row !i, h.mem_other i, rfl⟩
    refine hoid (hunique _ (hmem.mpr (Or.inr ⟨hfirst, hoid⟩)) _ (hmem.mpr (Or.inl rfl)) ?_ (h.same i))
    exact (h.shares i).resolve_left (by rw [hkey]; decide)
  · rw [update_of_violates (violates_eq_true hfirst hoid (h.same i) (h.shares i) hkey)] at hrows
    have hanswered : s.stages (!i) = .answered .success := by
      obtain ⟨code, hcode⟩ := hend !i
      exact hwritten.resolve_left (by rw [hcode]; simp)
    obtain ⟨r, hr, hroid, hrname⟩ | ⟨hsame, -⟩ := hstored _ hanswered
    · rw [hrows] at hr
      rcases (h.mem_update i).mp hr with rfl | ⟨hr, -⟩
      · exact hoid (hroid.trans (h.mem !i).2.symm)
      · refine h.name (!i) ?_
        rw [← hrname, List.inj_on_of_nodup_map h.oids (h.mem !i).1 hr ((h.mem !i).2.trans hroid.symm)]
    · exact h.different _ hsame

/-- The next step of a rename that goes through, before its write. -/
theorem Racing.step (h : Racing t rows reqs row) {i : Bool} {n : ℕ} (hn : n < 4) (hrows : s.rows = rows)
    (hstage : s.stages i = stageAfter reqs row i n) (hguard : n = 0 → (reqs i).oid ∉ s.renameIds) :
    (s.step t reqs i).rows = rows ∧ (s.step t reqs i).stages i = stageAfter reqs row i (n + 1) ∧
      ∀ oid, oid ∈ (s.step t reqs i).renameIds → oid = (reqs i).oid ∨ oid ∈ s.renameIds := by
  unfold System.step
  match n, hn with
  | 0, _ =>
    rw [show s.stages i = .waiting from hstage]
    dsimp only
    rw [if_neg (hguard rfl)]
    exact ⟨hrows, System.goto_self, fun oid hoid => Finset.mem_insert.mp hoid⟩
  | 1, _ =>
    rw [show s.stages i = .guarded from hstage]
    dsimp only
    rw [read, hrows, h.found i]
    dsimp only
    rw [if_neg (h.name i), if_pos (h.authorized i)]
    exact ⟨hrows, System.goto_self, fun _ hoid => Or.inr hoid⟩
  | 2, _ =>
    rw [show s.stages i = .informed (row i).uid from hstage]
    dsimp only
    rw [read, hrows, h.free i, if_neg (by simp)]
    exact ⟨hrows, System.goto_self, fun _ hoid => Or.inr hoid⟩
  | 3, _ =>
    rw [show s.stages i = .checked from hstage]
    dsimp only
    rw [read, hrows, h.found i]
    dsimp only
    rw [if_pos (h.valid i)]
    exact ⟨hrows, System.goto_self, fun _ hoid => Or.inr hoid⟩

/-- Two renames that go through, up to the write of one of them. -/
theorem Racing.run (h : Racing t rows reqs row) (l : List Bool) : (∀ i, l.count i < 5) →
    ((System.start rows).run t reqs l).rows = rows ∧
      (∀ i, ((System.start rows).run t reqs l).stages i = stageAfter reqs row i (l.count i)) ∧
      ∀ i, (reqs i).oid ∈ ((System.start rows).run t reqs l).renameIds → 0 < l.count i := by
  refine System.run_induction (P := fun l s => (∀ i, l.count i < 5) → s.rows = rows ∧
    (∀ i, s.stages i = stageAfter reqs row i (l.count i)) ∧
    ∀ i, (reqs i).oid ∈ s.renameIds → 0 < l.count i) l
    (fun _ => ⟨rfl, fun _ => rfl, fun _ hoid => absurd hoid (Finset.notMem_empty _)⟩) ?_
  intro l i _ ih hcount
  have hself : (l ++ [i]).count i = l.count i + 1 := by
    rw [List.count_append, List.count_singleton_self]
  have hother : (l ++ [i]).count (!i) = l.count !i := by
    rw [List.count_append, List.count_singleton, if_neg (by simp), add_zero]
  obtain ⟨hrows, hstages, hids⟩ := ih fun k =>
    lt_of_le_of_lt (List.Sublist.count_le k (List.sublist_append_left l [i])) (hcount k)
  have hlt := hcount i
  rw [hself] at hlt
  obtain ⟨hrows', hstage', hids'⟩ := h.step (by omega) hrows (hstages i) fun hzero hmem =>
    absurd (hids i hmem) (by omega)
  refine ⟨hrows', fun k => ?_, fun k hk => ?_⟩
  · by_cases hki : k = i
    · rw [hki, hself]
      exact hstage'
    · obtain rfl := Bool.eq_not.mpr hki
      rw [hother, System.step_other hki]
      exact hstages _
  · by_cases hki : k = i
    · rw [hki, hself]
      exact Nat.succ_pos _
    · obtain rfl := Bool.eq_not.mpr hki
      rw [hother]
      exact hids _ ((hids' _ hk).resolve_left (h.different i).symm)

theorem not_kept_of_race (hoids : (rows.map Row.oid).Nodup)
    (hend : ∀ i, ∃ code, ((System.start rows).run t reqs order).stages i = .answered code)
    (hrace : Race t rows reqs order) : ¬ Kept reqs ((System.start rows).run t reqs order) := by
  obtain ⟨hoid, hname, ⟨uid, hpasses, hshares⟩, n, hbetween⟩ := hrace
  choose row hfound huid hne hauthorized using fun i => (hpasses i).1
  have hracing : Racing t rows reqs row := by
    refine ⟨hoids, fun i => ?_, fun i => ?_, hfound, hne, hauthorized, fun i => ?_,
      fun i => (hpasses i).2.2, fun i => ?_⟩
    · cases i with
      | false => exact hoid
      | true => exact hoid.symm
    · cases i with
      | false => exact hname
      | true => exact hname.symm
    · rw [huid i]
      exact (hpasses i).2.1
    · rw [huid i, huid !i]
      cases i with
      | false => exact hshares
      | true => exact shares_comm.mp hshares
  refine not_kept_of_raced hracing ?_ hend
  obtain ⟨hrows, hstages, -⟩ := hracing.run (order.take n) fun i => (hbetween i).2
  have hraced : Raced t rows reqs row ((System.start rows).run t reqs (order.take n)) := by
    refine Or.inl ⟨hrows, fun i => ?_⟩
    obtain ⟨hge, hlt⟩ := hbetween i
    rw [hstages i]
    obtain hcount | hcount : (order.take n).count i = 3 ∨ (order.take n).count i = 4 := by omega
    · rw [hcount]
      exact Or.inl rfl
    · rw [hcount]
      exact Or.inr rfl
  rw [← List.take_append_drop n order, System.run_append]
  exact List.foldlRecOn (motive := Raced t rows reqs row) _ _ hraced fun s hs k _ => hs.step hracing k

end Racing

/-- **Two renames keep the names unique and store theirs if and only if they do not race.** -/
theorem rename_iff (t : ObjectType) (rows : List Row) (reqs : Bool → Rename) (order : List Bool)
    (hoids : (rows.map Row.oid).Nodup) (hnames : NamesUnique rows)
    (hend : ∀ i, ∃ code, ((System.start rows).run t reqs order).stages i = .answered code) :
    Kept reqs ((System.start rows).run t reqs order) ↔ ¬ Race t rows reqs order :=
  ⟨fun hkept hrace => not_kept_of_race hoids hend hrace hkept, kept_of_not_race hoids hnames hend⟩

/-! ## Two images and two templates -/

/-- Two objects of the owner 2, and another one of the owner 3 with the name of the first. -/
def twoRows : List Row :=
  [⟨1, "one".toList, 2⟩, ⟨2, "two".toList, 2⟩, ⟨3, "one".toList, 3⟩]

/-- Both objects get one name. -/
def sameName : Bool → Rename
  | false => ⟨1, "new".toList, true⟩
  | true => ⟨2, "new".toList, true⟩

/-- One rename after the other, and step by step. -/
def inTurn : List Bool := List.replicate 6 false ++ List.replicate 6 true

def stepByStep : List Bool := (List.replicate 6 [false, true]).flatten

theorem namesUnique_twoRows : NamesUnique twoRows := by
  unfold NamesUnique
  decide

/-- The answers of a run. -/
def answersOf (t : ObjectType) (order : List Bool) (i : Bool) : Stage :=
  ((System.start twoRows).run t sameName order).stages i

theorem answersOf_inTurn : answersOf .image inTurn false = .answered .success ∧
    answersOf .image inTurn true = .answered .action := by
  decide

theorem answersOf_stepByStep {t : ObjectType} (ht : t = .image ∨ t = .template) (i : Bool) :
    answersOf t stepByStep i = .answered .success := by
  rcases ht with rfl | rfl
  · cases i <;> decide
  · cases i <;> decide

/-- One rename after the other. -/
theorem kept_inTurn : Kept sameName ((System.start twoRows).run .image sameName inTurn) := by
  refine (rename_iff .image twoRows sameName inTurn (by decide) namesUnique_twoRows fun i => ?_).mpr ?_
  · cases i with
    | false => exact ⟨_, answersOf_inTurn.1⟩
    | true => exact ⟨_, answersOf_inTurn.2⟩
  · rintro ⟨-, -, -, n, hbetween⟩
    have htrue := (hbetween true).1
    have hfalse := (hbetween false).2
    unfold inTurn at htrue hfalse
    rw [List.take_append, List.count_append, List.take_replicate, List.take_replicate,
      List.count_replicate, List.count_replicate, List.length_replicate] at htrue hfalse
    simp only [beq_self_eq_true, if_true, beq_iff_eq, reduceCtorEq, if_false] at htrue hfalse
    omega

/-- **Two renames step by step.**  Without a constraint one owner has two templates with one name; with it,
an image is answered with success and keeps its old name. -/
theorem not_kept_stepByStep :
    NamesUnique twoRows ∧ ¬ Kept sameName ((System.start twoRows).run .template sameName stepByStep) ∧
      ¬ Kept sameName ((System.start twoRows).run .image sameName stepByStep) := by
  refine ⟨namesUnique_twoRows, fun hkept => ?_, fun hkept => ?_⟩
  · have hsame : ¬ NamesUnique ((System.start twoRows).run .template sameName stepByStep).rows := by
      unfold NamesUnique
      decide
    exact hsame hkept.1
  · have hlost : ¬ Stored ((System.start twoRows).run .image sameName stepByStep).rows (sameName true) := by
      unfold Stored
      decide
    obtain hstored | ⟨hoid, -⟩ := hkept.2 true (answersOf_stepByStep (Or.inl rfl) true)
    · exact hlost hstored
    · exact absurd hoid (by decide)

end ObjectRename
