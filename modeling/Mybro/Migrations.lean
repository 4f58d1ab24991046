import Mathlib.Tactic

/-!
# Migrations (`db.rs`, `run_migrations`)

One transaction over a database: its schema, in a type `D` of its own, and the rows of
`schema_migrations`. A migration is its version with what its SQL does to a schema, if it does not
fail; SQLite may also fail any statement for its own reasons (`Sqlite.ok`). A transaction that is
not committed leaves the database as it was (`migrate`).

From a fresh database, and from one with a prefix of the list applied, the loop applies what is
left. A legacy database is taken to have the whole list applied (`migrated_of_start`).
-/

namespace Mybro
namespace Migrations

/-! ### The database -/

/-- A schema, and the rows of `schema_migrations`, if that table exists. -/
structure Db (D : Type) where
  schema : D
  applied : Option (List (String × ℤ))

/-- The rows of `schema_migrations`. -/
def Db.rows {D : Type} (db : Db D) : List (String × ℤ) := db.applied.getD []

/-- The versions that are recorded. -/
def Db.versions {D : Type} (db : Db D) : List String := db.rows.map Prod.fst

/-- The table `schema_migrations` exists. -/
def Db.Tracked {D : Type} (db : Db D) : Prop := db.applied = some db.rows

/-- A version and what its SQL does to a schema. -/
abbrev Migration (D : Type) := String × (D → Option D)

/-- What the transaction depends on: whether a schema has a table `requests`, which statements
SQLite executes, by their number, and the clock at each of them. -/
structure Sqlite (D : Type) where
  hasRequests : D → Bool
  ok : ℕ → Bool
  nowMillis : ℕ → ℤ

/-- The database as the transaction sees it, and the number of its statements so far. -/
structure Session (D : Type) where
  db : Db D
  statements : ℕ

/-- A part of the transaction; `none` when it ends with an error. -/
abbrev Tx (D : Type) := StateT (Session D) Option

section Statements

variable {D α β : Type} (sqlite : Sqlite D)

/-- A statement, when SQLite executes it. -/
def statement (q : Db D → Option (α × Db D)) : Tx D α := fun s =>
  if sqlite.ok s.statements then (q s.db).map fun r => (r.1, ⟨r.2, s.statements + 1⟩) else none

/-- `CREATE TABLE IF NOT EXISTS schema_migrations`. -/
def createTable : Tx D Unit :=
  statement sqlite fun db => some ((), { db with applied := some db.rows })

/-- `SELECT COUNT(*) FROM schema_migrations`, an error being taken for 0. -/
def countApplied : Tx D ℕ := fun s =>
  some (if sqlite.ok s.statements then s.db.rows.length else 0,
    { s with statements := s.statements + 1 })

/-- Whether there is a table `requests`. -/
def hasLegacySchema : Tx D Bool :=
  statement sqlite fun db => some (sqlite.hasRequests db.schema, db)

/-- `SELECT applied_at FROM schema_migrations WHERE version = ?1`. -/
def appliedAt (version : String) : Tx D (Option ℤ) :=
  statement sqlite fun db => some (db.rows.lookup version, db)

/-- `execute_batch`. -/
def executeBatch (sql : D → Option D) : Tx D Unit :=
  statement sqlite fun db => (sql db.schema).map fun d => ((), { db with schema := d })

/-- `INSERT INTO schema_migrations`; the version is the primary key. -/
def insertVersion (version : String) : Tx D Unit := fun s =>
  statement sqlite (fun db =>
    if version ∈ db.versions then none
    else some ((),
      { db with applied := some (db.rows ++ [(version, sqlite.nowMillis s.statements)]) })) s

/-- `commit`. -/
def commitTx : Tx D Unit := statement sqlite fun db => some ((), db)

end Statements

/-! ### The transaction -/

section Run

variable {D : Type} (sqlite : Sqlite D)

/-- The loop over a legacy database: every version is recorded. -/
def baseline : List (Migration D) → Tx D Unit
  | [] => pure ()
  | m :: ms => do
    insertVersion sqlite m.1
    baseline ms

/-- The loop over the migrations: those that are not recorded are run and recorded. -/
def applyPending : List (Migration D) → Tx D Unit
  | [] => pure ()
  | m :: ms => do
    let applied ← appliedAt sqlite m.1
    if applied.isSome then applyPending ms
    else do
      executeBatch sqlite m.2
      insertVersion sqlite m.1
      applyPending ms

/-- Whether the database predates the migrations, asked when nothing is recorded. -/
def isLegacy (appliedCount : ℕ) : Tx D Bool :=
  if appliedCount = 0 then hasLegacySchema sqlite else pure false

/-- One of the two loops. -/
def migrateAll (migrations : List (Migration D)) (legacy : Bool) : Tx D Unit :=
  if legacy then baseline sqlite migrations else applyPending sqlite migrations

/-- `run_migrations`, for a list in the place of `MIGRATIONS`. -/
def runMigrations (migrations : List (Migration D)) : Tx D Unit := do
  createTable sqlite
  let appliedCount ← countApplied sqlite
  let legacy ← isLegacy sqlite appliedCount
  migrateAll sqlite migrations legacy
  commitTx sqlite

/-- Whether `run_migrations` succeeds, and the database after it: a transaction that is dropped is
rolled back. -/
def migrate (migrations : List (Migration D)) (db : Db D) : Bool × Db D :=
  match runMigrations sqlite migrations ⟨db, 0⟩ with
  | some (_, s) => (true, s.db)
  | none => (false, db)

/-- The migrations one after another. -/
def applyAll (migrations : List (Migration D)) (d : D) : Option D :=
  migrations.foldlM (fun d m => m.2 d) d

end Run

/-! ### What each statement does -/

section Lemmas

variable {D α β : Type} {sqlite : Sqlite D} {s t : Session D}

theorem bind_eq_some {x : Tx D α} {f : α → Tx D β} {r : β × Session D} :
    (x >>= f) s = some r ↔ ∃ a u, x s = some (a, u) ∧ f a u = some r := by
  show (x s).bind (fun p => f p.1 p.2) = some r ↔ _
  simp [Option.bind_eq_some_iff]

theorem pure_eq_some {a b : α} : (pure a : Tx D α) s = some (b, t) ↔ a = b ∧ s = t := by
  show some (a, s) = some (b, t) ↔ _
  simp

theorem statement_eq_some {q : Db D → Option (α × Db D)} {a : α} :
    statement sqlite q s = some (a, t) ↔
      sqlite.ok s.statements = true ∧ q s.db = some (a, t.db) ∧
        t.statements = s.statements + 1 := by
  unfold statement
  split_ifs with h
  · simp only [h, true_and, Option.map_eq_some_iff, Prod.exists, Prod.mk.injEq]
    constructor
    · rintro ⟨b, db, hq, rfl, rfl⟩
      exact ⟨hq, rfl⟩
    · rintro ⟨hq, hn⟩
      refine ⟨a, t.db, hq, rfl, ?_⟩
      rw [← hn]
  · simp [h]

/-- From `s` to `t` SQLite executed every statement. -/
structure AllOk (sqlite : Sqlite D) (s t : Session D) : Prop where
  le : s.statements ≤ t.statements
  ok : ∀ n, s.statements ≤ n → n < t.statements → sqlite.ok n = true

theorem AllOk.refl (sqlite : Sqlite D) (s : Session D) : AllOk sqlite s s :=
  ⟨le_rfl, fun n h h' => by omega⟩

theorem AllOk.trans {u : Session D} (h : AllOk sqlite s t) (h' : AllOk sqlite t u) :
    AllOk sqlite s u := by
  refine ⟨h.le.trans h'.le, fun n hn hn' => ?_⟩
  rcases Nat.lt_or_ge n t.statements with hlt | hge
  · exact h.ok n hn hlt
  · exact h'.ok n hge hn'

theorem allOk_of_statement {q : Db D → Option (α × Db D)} {a : α}
    (h : statement sqlite q s = some (a, t)) : AllOk sqlite s t := by
  obtain ⟨hok, -, hn⟩ := statement_eq_some.1 h
  refine ⟨by omega, fun n hle hlt => ?_⟩
  rwa [show n = s.statements by omega]

theorem executeBatch_eq_some {sql : D → Option D} {a : Unit}
    (h : executeBatch sqlite sql s = some (a, t)) :
    sql s.db.schema = some t.db.schema ∧ t.db.applied = s.db.applied := by
  obtain ⟨-, hq, -⟩ := statement_eq_some.1 h
  obtain ⟨d, hd, hq⟩ := Option.map_eq_some_iff.1 hq
  rw [← (Prod.mk.inj hq).2]
  exact ⟨hd, rfl⟩

theorem insertVersion_eq_some {version : String} {a : Unit}
    (h : insertVersion sqlite version s = some (a, t)) :
    version ∉ s.db.versions ∧ t.db.schema = s.db.schema ∧
      t.db.versions = s.db.versions ++ [version] ∧ t.db.Tracked := by
  obtain ⟨-, hq, -⟩ := statement_eq_some.1 h
  split_ifs at hq with hmem
  rw [← (Prod.mk.inj (Option.some.inj hq)).2]
  exact ⟨hmem, rfl, by simp [Db.versions, Db.rows], rfl⟩

theorem appliedAt_eq_some {version : String} {at' : Option ℤ}
    (h : appliedAt sqlite version s = some (at', t)) :
    t.db = s.db ∧ (at'.isSome = true ↔ version ∈ s.db.versions) := by
  obtain ⟨-, hq, -⟩ := statement_eq_some.1 h
  obtain ⟨rfl, hdb⟩ := Prod.mk.inj (Option.some.inj hq)
  refine ⟨hdb.symm, ?_⟩
  rw [List.lookup_isSome_iff]
  simp [Db.versions]

/-! ### What the two loops do -/

/-- The migrations whose versions are not recorded. -/
def pending (recorded : List String) (migrations : List (Migration D)) : List (Migration D) :=
  migrations.filter fun m => m.1 ∉ recorded

/-- The first loop records every version and runs nothing. -/
theorem baseline_eq_some {migrations : List (Migration D)} {a : Unit}
    (h : baseline sqlite migrations s = some (a, t)) :
    AllOk sqlite s t ∧ t.db.schema = s.db.schema ∧
      t.db.versions = s.db.versions ++ migrations.map Prod.fst ∧
      (∀ m ∈ migrations, m.1 ∉ s.db.versions) ∧ (s.db.Tracked → t.db.Tracked) ∧
      (migrations = [] → t.db = s.db) := by
  induction migrations generalizing s with
  | nil =>
    obtain ⟨-, rfl⟩ := pure_eq_some.1 h
    exact ⟨.refl _ _, rfl, by simp, by simp, id, fun _ => rfl⟩
  | cons m ms ih =>
    obtain ⟨_, u, hinsert, hrest⟩ := bind_eq_some.1 h
    obtain ⟨hnew, hschema, hversions, htracked⟩ := insertVersion_eq_some hinsert
    obtain ⟨hok, hschema', hversions', hnew', htracked', -⟩ := ih hrest
    refine ⟨(allOk_of_statement hinsert).trans hok, hschema'.trans hschema, ?_, ?_,
      fun _ => htracked' htracked, nofun⟩
    · rw [hversions', hversions, List.map_cons, List.append_assoc]
      rfl
    · intro x hx
      rcases List.mem_cons.1 hx with rfl | hx
      · exact hnew
      · exact fun hmem => hnew' x hx (hversions ▸ List.mem_append_left _ hmem)

theorem pending_cons_of_mem {recorded : List String} {m : Migration D} (h : m.1 ∈ recorded)
    (ms : List (Migration D)) : pending recorded (m :: ms) = pending recorded ms :=
  List.filter_cons_of_neg (by simpa using h)

theorem pending_cons_of_notMem {recorded : List String} {m : Migration D} (h : m.1 ∉ recorded)
    (ms : List (Migration D)) : pending recorded (m :: ms) = m :: pending recorded ms :=
  List.filter_cons_of_pos (by simpa using h)

/-- Recording a version that is not in the list changes nothing for the list. -/
theorem pending_concat {recorded : List String} {version : String} {ms : List (Migration D)}
    (h : version ∉ ms.map Prod.fst) : pending (recorded ++ [version]) ms = pending recorded ms := by
  refine List.filter_congr fun m hm => ?_
  have hne : m.1 ≠ version := fun heq => h (heq ▸ List.mem_map_of_mem hm)
  simp [hne]

/-- The second loop runs and records what is pending, in order. -/
theorem applyPending_eq_some {migrations : List (Migration D)}
    (hnodup : (migrations.map Prod.fst).Nodup) {a : Unit}
    (h : applyPending sqlite migrations s = some (a, t)) :
    AllOk sqlite s t ∧
      applyAll (pending s.db.versions migrations) s.db.schema = some t.db.schema ∧
      t.db.versions = s.db.versions ++ (pending s.db.versions migrations).map Prod.fst ∧
      (s.db.Tracked → t.db.Tracked) ∧ (pending s.db.versions migrations = [] → t.db = s.db) := by
  induction migrations generalizing s with
  | nil =>
    obtain ⟨-, rfl⟩ := pure_eq_some.1 h
    exact ⟨.refl _ _, rfl, by simp [pending], id, fun _ => rfl⟩
  | cons m ms ih =>
    obtain ⟨hnew, hms⟩ := List.nodup_cons.1 hnodup
    obtain ⟨applied, u, hat, h⟩ := bind_eq_some.1 h
    obtain ⟨hdb, hiff⟩ := appliedAt_eq_some hat
    by_cases hrecorded : m.1 ∈ s.db.versions
    · rw [if_pos (hiff.2 hrecorded)] at h
      obtain ⟨hok, hrest⟩ := ih hms h
      rw [hdb] at hrest
      rw [pending_cons_of_mem hrecorded]
      exact ⟨(allOk_of_statement hat).trans hok, hrest⟩
    · rw [if_neg fun hsome => hrecorded (hiff.1 hsome)] at h
      obtain ⟨_, v, hbatch, h⟩ := bind_eq_some.1 h
      obtain ⟨_, w, hinsert, h⟩ := bind_eq_some.1 h
      obtain ⟨hsql, happlied⟩ := executeBatch_eq_some hbatch
      obtain ⟨-, hschema, hversions, htracked⟩ := insertVersion_eq_some hinsert
      obtain ⟨hok, hall, hversions', htracked', -⟩ := ih hms h
      have hv : v.db.versions = s.db.versions := by
        rw [Db.versions, Db.rows, happlied, hdb]
        rfl
      rw [hversions, hv, pending_concat hnew] at hall hversions'
      rw [pending_cons_of_notMem hrecorded]
      refine ⟨(allOk_of_statement hat).trans ((allOk_of_statement hbatch).trans
        ((allOk_of_statement hinsert).trans hok)), ?_, ?_, fun _ => htracked' htracked, by simp⟩
      · rw [hdb] at hsql
        rw [applyAll, List.foldlM_cons, hsql, ← hschema]
        exact hall
      · rw [hversions', List.map_cons, List.append_assoc]
        rfl

/-! ### Successful runs -/

/-- The count is the number of the rows, or 0 when SQLite does not answer. -/
theorem countApplied_eq_some {count : ℕ} (h : countApplied sqlite s = some (count, t)) :
    t.db = s.db ∧ t.statements = s.statements + 1 ∧
      (count = 0 ↔ s.db.rows = [] ∨ sqlite.ok s.statements = false) := by
  obtain ⟨rfl, rfl⟩ := Prod.mk.inj (Option.some.inj h)
  refine ⟨rfl, rfl, ?_⟩
  cases sqlite.ok s.statements with
  | true => simp
  | false => simp

theorem isLegacy_eq_some {count : ℕ} {legacy : Bool}
    (h : isLegacy sqlite count s = some (legacy, t)) :
    AllOk sqlite s t ∧ t.db = s.db ∧
      (legacy = true ↔ count = 0 ∧ sqlite.hasRequests s.db.schema = true) := by
  unfold isLegacy at h
  split_ifs at h with hcount
  · obtain ⟨-, hq, -⟩ := statement_eq_some.1 h
    obtain ⟨rfl, hdb⟩ := Prod.mk.inj (Option.some.inj hq)
    exact ⟨allOk_of_statement h, hdb.symm, by simp [hcount]⟩
  · obtain ⟨rfl, rfl⟩ := pure_eq_some.1 h
    exact ⟨.refl _ _, rfl, by simp [hcount]⟩

/-- What the transaction has seen when it ends. The count is its second statement; that SQLite does
not answer it is no error. -/
theorem runMigrations_eq_some {migrations : List (Migration D)} {db : Db D} {a : Unit}
    (h : runMigrations sqlite migrations ⟨db, 0⟩ = some (a, t)) :
    ∃ u v : Session D, ∃ legacy,
      u.db = { db with applied := some db.rows } ∧ v.db = t.db ∧
        (legacy = true ↔
          (db.rows = [] ∨ sqlite.ok 1 = false) ∧ sqlite.hasRequests db.schema = true) ∧
        migrateAll sqlite migrations legacy u = some ((), v) ∧
        sqlite.ok 0 = true ∧
        (AllOk sqlite u v → ∀ n < t.statements, n = 1 ∨ sqlite.ok n = true) := by
  obtain ⟨_, s₁, hcreate, h⟩ := bind_eq_some.1 h
  obtain ⟨count, s₂, hcount, h⟩ := bind_eq_some.1 h
  obtain ⟨legacy, s₃, hlegacy, h⟩ := bind_eq_some.1 h
  obtain ⟨_, s₄, hloop, hcommit⟩ := bind_eq_some.1 h
  obtain ⟨hok₀, hdb₁, hn₁⟩ := statement_eq_some.1 hcreate
  obtain ⟨hdb₂, hn₂, hzero⟩ := countApplied_eq_some hcount
  obtain ⟨hok₃, hdb₃, hiff⟩ := isLegacy_eq_some hlegacy
  obtain ⟨hok₄, hdb₄, hn₄⟩ := statement_eq_some.1 hcommit
  have hdb₁' : s₁.db = { db with applied := some db.rows } :=
    (Prod.mk.inj (Option.some.inj hdb₁)).2.symm
  have hdb₄' : s₄.db = t.db := (Prod.mk.inj (Option.some.inj hdb₄)).2
  have hn₁' : s₁.statements = 1 := hn₁
  refine ⟨s₃, s₄, legacy, by rw [hdb₃, hdb₂, hdb₁'], hdb₄', ?_, hloop, hok₀, ?_⟩
  · rw [hiff, hzero, hn₁', hdb₂, hdb₁']
    rfl
  · intro hok n hn
    have hn₃ : n = 0 ∨ n = 1 ∨ (2 ≤ n ∧ n < s₃.statements) ∨
        (s₃.statements ≤ n ∧ n < s₄.statements) ∨ n = s₄.statements := by
      have := hok₃.le
      have := hok.le
      omega
    rcases hn₃ with rfl | rfl | ⟨hge, hlt⟩ | ⟨hge, hlt⟩ | rfl
    · exact Or.inr hok₀
    · exact Or.inl rfl
    · exact Or.inr (hok₃.ok n (by omega) hlt)
    · exact Or.inr (hok.ok n hge hlt)
    · exact Or.inr hok₄

/-! ### Where a run starts -/

/-- A fresh database, one with the first `k` migrations applied and recorded, and a legacy one (the
flag), whose schema is that of the first migration; `d₀` is the empty schema. -/
inductive Start (hasRequests : D → Bool) (migrations : List (Migration D)) (d₀ : D) :
    Bool → Db D → Prop
  | fresh (applied : Option (List (String × ℤ))) (hrows : applied.getD [] = [])
      (h : hasRequests d₀ = false) : Start hasRequests migrations d₀ false ⟨d₀, applied⟩
  | applied (k : ℕ) (rows : List (String × ℤ)) (schema : D) (hk : 1 ≤ k)
      (hle : k ≤ migrations.length)
      (hrows : rows.map Prod.fst = (migrations.take k).map Prod.fst)
      (hschema : applyAll (migrations.take k) d₀ = some schema) :
      Start hasRequests migrations d₀ false ⟨schema, some rows⟩
  | legacy (applied : Option (List (String × ℤ))) (hrows : applied.getD [] = []) (schema : D)
      (hne : migrations ≠ []) (hschema : applyAll (migrations.take 1) d₀ = some schema)
      (h : hasRequests schema = true) : Start hasRequests migrations d₀ true ⟨schema, applied⟩

/-- What a successful run leaves: every version is recorded once; the effect of every migration is
there once, unless a longer list met a legacy database, whose schema stays; and running the list
again changes nothing. -/
structure Migrated (migrations : List (Migration D)) (d₀ : D) (legacy : Bool) (db db' : Db D) :
    Prop where
  recorded : db'.versions = migrations.map Prod.fst
  effects : legacy = false ∨ migrations.length = 1 → applyAll migrations d₀ = some db'.schema
  baselined : legacy = true → db'.schema = db.schema
  again : ∀ sqlite : Sqlite D, (migrate sqlite migrations db').2 = db'

theorem applyAll_append (ms ms' : List (Migration D)) (d : D) :
    applyAll (ms ++ ms') d = (applyAll ms d).bind (applyAll ms') :=
  List.foldlM_append

/-- What is left of a list whose first `k` versions are recorded. -/
theorem pending_take {migrations : List (Migration D)} (hnodup : (migrations.map Prod.fst).Nodup)
    (k : ℕ) : pending ((migrations.take k).map Prod.fst) migrations = migrations.drop k := by
  have hsplit : (migrations.take k).map Prod.fst ++ (migrations.drop k).map Prod.fst =
      migrations.map Prod.fst := by
    rw [← List.map_append, List.take_append_drop]
  rw [← hsplit, List.nodup_append] at hnodup
  obtain ⟨-, -, hdisjoint⟩ := hnodup
  have hdone : (migrations.take k).filter
      (fun m => m.1 ∉ (migrations.take k).map Prod.fst) = [] :=
    List.filter_eq_nil_iff.2 fun m hm hnew => of_decide_eq_true hnew (List.mem_map_of_mem hm)
  have hleft : (migrations.drop k).filter
      (fun m => m.1 ∉ (migrations.take k).map Prod.fst) = migrations.drop k := by
    refine List.filter_eq_self.2 fun m hm => decide_eq_true fun hmem => ?_
    exact hdisjoint m.1 hmem m.1 (List.mem_map_of_mem hm) rfl
  calc pending ((migrations.take k).map Prod.fst) migrations
      = pending ((migrations.take k).map Prod.fst) (migrations.take k ++ migrations.drop k) := by
        rw [List.take_append_drop]
    _ = migrations.drop k := by rw [pending, List.filter_append, hdone, hleft, List.nil_append]

/-- Nothing is pending when every version is recorded. -/
theorem pending_all (migrations : List (Migration D)) :
    pending (migrations.map Prod.fst) migrations = [] :=
  List.filter_eq_nil_iff.2 fun _ hm hnew => of_decide_eq_true hnew (List.mem_map_of_mem hm)

/-- A database on which every version is recorded is left alone. -/
theorem migrate_again {migrations : List (Migration D)} (hnodup : (migrations.map Prod.fst).Nodup)
    {db : Db D} (htracked : db.Tracked) (hrecorded : db.versions = migrations.map Prod.fst)
    (sqlite : Sqlite D) : (migrate sqlite migrations db).2 = db := by
  unfold migrate
  cases h : runMigrations sqlite migrations ⟨db, 0⟩ with
  | none => rfl
  | some r =>
    obtain ⟨u, v, legacy, hu, hv, -, hloop, -⟩ := runMigrations_eq_some h
    have hu' : u.db = db := by rw [hu, ← htracked]
    rw [← hu'] at hrecorded
    show r.2.db = db
    rw [← hv, ← hu']
    cases legacy with
    | true =>
      obtain ⟨-, -, -, hnew, -, hnil⟩ := baseline_eq_some hloop
      cases migrations with
      | nil => exact hnil rfl
      | cons m ms =>
        -- the first version cannot be inserted again
        refine absurd ?_ (hnew m List.mem_cons_self)
        rw [hrecorded]
        exact List.mem_cons_self
    | false =>
      obtain ⟨-, -, -, -, hnil⟩ := applyPending_eq_some hnodup hloop
      refine hnil ?_
      rw [hrecorded]
      exact pending_all migrations

/-- What a successful run does, from any start. -/
theorem migrated_of_success {migrations : List (Migration D)}
    (hnodup : (migrations.map Prod.fst).Nodup) {d₀ : D} {legacy : Bool} {db : Db D} {a : Unit}
    (hstart : Start sqlite.hasRequests migrations d₀ legacy db)
    (h : runMigrations sqlite migrations ⟨db, 0⟩ = some (a, t)) :
    Migrated migrations d₀ legacy db t.db := by
  obtain ⟨u, v, flag, hu, hv, hflag, hloop, -⟩ := runMigrations_eq_some h
  have htracked : u.db.Tracked := by
    rw [hu]
    rfl
  have hversions : u.db.versions = db.versions := by
    rw [hu]
    rfl
  rw [← hv]
  cases hstart with
  | fresh applied hrows hfresh =>
    obtain rfl : flag = false := by
      rw [← Bool.not_eq_true, hflag]
      simp [hfresh]
    obtain ⟨-, hall, hrecorded, hkeep, -⟩ := applyPending_eq_some hnodup hloop
    have hnone : u.db.versions = (migrations.take 0).map Prod.fst := by
      rw [hversions, Db.versions, Db.rows, hrows]
      rfl
    rw [hnone, pending_take hnodup 0, List.drop_zero] at hall hrecorded
    rw [hu] at hall
    refine ⟨hrecorded, fun _ => hall, nofun, migrate_again hnodup (hkeep htracked) hrecorded⟩
  | applied k rows schema hk hle hrows hschema =>
    have hdone : u.db.versions = (migrations.take k).map Prod.fst := hversions.trans hrows
    obtain rfl : flag = false := by
      cases flag with
      | false => rfl
      | true =>
        -- recording the first version again fails
        obtain ⟨-, -, -, hnew, -⟩ := baseline_eq_some hloop
        obtain ⟨m, ms, rfl⟩ := List.exists_cons_of_length_pos (lt_of_lt_of_le hk hle)
        refine absurd ?_ (hnew m List.mem_cons_self)
        rw [hdone, List.take_cons hk]
        exact List.mem_cons_self
    obtain ⟨-, hall, hrecorded, hkeep, -⟩ := applyPending_eq_some hnodup hloop
    rw [hdone, pending_take hnodup k] at hall hrecorded
    have hrecorded' : v.db.versions = migrations.map Prod.fst := by
      rw [hrecorded, ← List.map_append, List.take_append_drop]
    refine ⟨hrecorded', fun _ => ?_, nofun, migrate_again hnodup (hkeep htracked) hrecorded'⟩
    rw [hu] at hall
    rw [← List.take_append_drop k migrations, applyAll_append, hschema]
    exact hall
  | legacy applied hrows schema hne hschema hlegacy =>
    obtain rfl : flag = true := hflag.2 ⟨Or.inl hrows, hlegacy⟩
    obtain ⟨-, hsame, hrecorded, -, hkeep, -⟩ := baseline_eq_some hloop
    have hnone : u.db.versions = [] := by
      rw [hversions, Db.versions, Db.rows, hrows]
      rfl
    rw [hnone, List.nil_append] at hrecorded
    have hschema' : v.db.schema = schema := by
      rw [hsame, hu]
    refine ⟨hrecorded, fun hone => ?_, fun _ => hschema',
      migrate_again hnodup (hkeep htracked) hrecorded⟩
    have hlen : migrations.length = 1 := hone.resolve_left nofun
    rw [hschema', ← hschema, List.take_of_length_le hlen.le]

/-- **Migrations.** From every start: a run that succeeds has recorded every version, and applied
what the list has, but for a legacy database and a list of more than one; a run that fails leaves
the database as it was, and it fails when any statement does, the count of the rows excepted. -/
theorem migrate_correct {migrations : List (Migration D)}
    (hnodup : (migrations.map Prod.fst).Nodup) {d₀ : D} {legacy : Bool} {db : Db D}
    (hstart : Start sqlite.hasRequests migrations d₀ legacy db) :
    (∀ db', migrate sqlite migrations db = (true, db') → Migrated migrations d₀ legacy db db') ∧
      (∀ db', migrate sqlite migrations db = (false, db') → db' = db) ∧
      ∀ s : Session D, runMigrations sqlite migrations ⟨db, 0⟩ = some ((), s) →
        ∀ n < s.statements, n = 1 ∨ sqlite.ok n = true := by
  refine ⟨fun db' h => ?_, fun db' h => ?_, fun s h => ?_⟩
  · unfold migrate at h
    cases hrun : runMigrations sqlite migrations ⟨db, 0⟩ with
    | none => rw [hrun] at h; cases h
    | some r =>
      rw [hrun] at h
      cases h
      exact migrated_of_success hnodup hstart hrun
  · unfold migrate at h
    cases hrun : runMigrations sqlite migrations ⟨db, 0⟩ with
    | none => rw [hrun] at h; cases h; rfl
    | some r => rw [hrun] at h; cases h
  · obtain ⟨u, v, flag, -, -, -, hloop, -, hok⟩ := runMigrations_eq_some h
    refine hok ?_
    cases flag with
    | true => exact (baseline_eq_some hloop).1
    | false => exact (applyPending_eq_some hnodup hloop).1

/-! ### A run that succeeds -/

/-- A statement that SQLite executes and that has an answer. -/
theorem statement_of_ok (hok : ∀ n, sqlite.ok n = true) {q : Db D → Option (α × Db D)} {a : α}
    {db : Db D} (hq : q s.db = some (a, db)) :
    statement sqlite q s = some (a, ⟨db, s.statements + 1⟩) := by
  rw [statement, if_pos (hok _), hq]
  rfl

theorem insertVersion_of_ok (hok : ∀ n, sqlite.ok n = true) {version : String}
    (hnew : version ∉ s.db.versions) : ∃ t, insertVersion sqlite version s = some ((), t) :=
  ⟨_, statement_of_ok hok (if_neg hnew)⟩

theorem baseline_of_ok (hok : ∀ n, sqlite.ok n = true) {migrations : List (Migration D)}
    (hnodup : (migrations.map Prod.fst).Nodup) (hnew : ∀ m ∈ migrations, m.1 ∉ s.db.versions) :
    ∃ t, baseline sqlite migrations s = some ((), t) := by
  induction migrations generalizing s with
  | nil => exact ⟨s, rfl⟩
  | cons m ms ih =>
    obtain ⟨hm, hms⟩ := List.nodup_cons.1 hnodup
    obtain ⟨u, hu⟩ := insertVersion_of_ok hok (hnew m List.mem_cons_self)
    obtain ⟨-, -, hversions, -⟩ := insertVersion_eq_some hu
    obtain ⟨t, ht⟩ := @ih u hms fun x hx hmem => by
      rw [hversions, List.mem_append, List.mem_singleton] at hmem
      rcases hmem with hmem | heq
      · exact hnew x (List.mem_cons_of_mem _ hx) hmem
      · exact hm (heq ▸ List.mem_map_of_mem hx)
    exact ⟨t, bind_eq_some.2 ⟨(), u, hu, ht⟩⟩

theorem applyPending_of_ok (hok : ∀ n, sqlite.ok n = true) {migrations : List (Migration D)}
    (hnodup : (migrations.map Prod.fst).Nodup) {d : D}
    (hall : applyAll (pending s.db.versions migrations) s.db.schema = some d) :
    ∃ t, applyPending sqlite migrations s = some ((), t) := by
  induction migrations generalizing s with
  | nil => exact ⟨s, rfl⟩
  | cons m ms ih =>
    obtain ⟨hm, hms⟩ := List.nodup_cons.1 hnodup
    obtain ⟨u, hat⟩ : ∃ u, appliedAt sqlite m.1 s = some (s.db.rows.lookup m.1, u) :=
      ⟨_, statement_of_ok hok rfl⟩
    obtain ⟨hu, hiff⟩ := appliedAt_eq_some hat
    by_cases hrecorded : m.1 ∈ s.db.versions
    · rw [pending_cons_of_mem hrecorded, ← hu] at hall
      obtain ⟨t, ht⟩ := ih hms hall
      exact ⟨t, bind_eq_some.2 ⟨_, u, hat, by rw [if_pos (hiff.2 hrecorded), ht]⟩⟩
    · rw [pending_cons_of_notMem hrecorded, applyAll, List.foldlM_cons] at hall
      obtain ⟨d', hd', hall⟩ := Option.bind_eq_some_iff.1 hall
      obtain ⟨v, hbatch⟩ : ∃ v, executeBatch sqlite m.2 u = some ((), v) :=
        ⟨_, statement_of_ok hok (by rw [hu, hd']; rfl)⟩
      obtain ⟨hsql, happlied⟩ := executeBatch_eq_some hbatch
      have hv : v.db.versions = s.db.versions := by
        rw [Db.versions, Db.rows, happlied, hu]
        rfl
      obtain ⟨w, hinsert⟩ := insertVersion_of_ok (s := v) hok (hv ▸ hrecorded)
      obtain ⟨-, hschema, hversions, -⟩ := insertVersion_eq_some hinsert
      rw [hu, hd'] at hsql
      have hw : applyAll (pending w.db.versions ms) w.db.schema = some d := by
        rw [hversions, hv, pending_concat hm, hschema, ← Option.some.inj hsql]
        exact hall
      obtain ⟨t, ht⟩ := ih hms hw
      refine ⟨t, bind_eq_some.2 ⟨_, u, hat, ?_⟩⟩
      rw [if_neg fun hsome => hrecorded (hiff.1 hsome)]
      exact bind_eq_some.2 ⟨(), v, hbatch, bind_eq_some.2 ⟨(), w, hinsert, ht⟩⟩

/-- The session in front of the loops. -/
theorem migrate_of_loop (hok : ∀ n, sqlite.ok n = true) (migrations : List (Migration D))
    (db : Db D) :
    ∃ n flag, (flag = true ↔ db.rows = [] ∧ sqlite.hasRequests db.schema = true) ∧
      ∀ t, migrateAll sqlite migrations flag ⟨{ db with applied := some db.rows }, n⟩ =
          some ((), t) →
        migrate sqlite migrations db = (true, t.db) := by
  have hcreate : createTable sqlite ⟨db, 0⟩ = some ((), ⟨{ db with applied := some db.rows }, 1⟩) :=
    statement_of_ok hok rfl
  have hcount : countApplied sqlite ⟨{ db with applied := some db.rows }, 1⟩ =
      some (db.rows.length, ⟨{ db with applied := some db.rows }, 2⟩) := by
    rw [countApplied, hok, if_pos rfl]
    rfl
  have hlegacy : ∃ n flag, (flag = true ↔ db.rows = [] ∧ sqlite.hasRequests db.schema = true) ∧
      isLegacy sqlite db.rows.length ⟨{ db with applied := some db.rows }, 2⟩ =
        some (flag, ⟨{ db with applied := some db.rows }, n⟩) := by
    unfold isLegacy
    by_cases hrows : db.rows.length = 0
    · rw [if_pos hrows]
      exact ⟨3, sqlite.hasRequests db.schema, by simp [List.length_eq_zero_iff.1 hrows],
        statement_of_ok hok rfl⟩
    · rw [if_neg hrows]
      refine ⟨2, false, ⟨nofun, fun h => absurd ?_ hrows⟩, rfl⟩
      rw [h.1, List.length_nil]
  obtain ⟨n, flag, hflag, hlegacy⟩ := hlegacy
  refine ⟨n, flag, hflag, fun t ht => ?_⟩
  have hrun : runMigrations sqlite migrations ⟨db, 0⟩ = some ((), ⟨t.db, t.statements + 1⟩) :=
    bind_eq_some.2 ⟨(), _, hcreate, bind_eq_some.2 ⟨_, _, hcount, bind_eq_some.2 ⟨flag, _, hlegacy,
      bind_eq_some.2 ⟨(), t, ht, statement_of_ok hok rfl⟩⟩⟩⟩
  rw [migrate, hrun]

/-- **A run succeeds** when SQLite executes every statement and the migrations can be applied one
after another, which on a legacy database they need not. -/
theorem migrate_of_ok (hok : ∀ n, sqlite.ok n = true) {migrations : List (Migration D)}
    (hnodup : (migrations.map Prod.fst).Nodup) {d₀ d : D} {legacy : Bool} {db : Db D}
    (hstart : Start sqlite.hasRequests migrations d₀ legacy db)
    (hall : legacy = false → applyAll migrations d₀ = some d) :
    ∃ db', migrate sqlite migrations db = (true, db') := by
  obtain ⟨n, flag, hflag, hrun⟩ := migrate_of_loop hok migrations db
  suffices hloop : ∃ t,
      migrateAll sqlite migrations flag ⟨{ db with applied := some db.rows }, n⟩ = some ((), t) by
    obtain ⟨t, ht⟩ := hloop
    exact ⟨t.db, hrun t ht⟩
  have hversions : ∀ applied : Option (List (String × ℤ)), applied.getD [] = [] →
      ∀ schema : D, (⟨schema, some (applied.getD [])⟩ : Db D).versions = [] := by
    intro applied hrows schema
    rw [hrows]
    rfl
  cases hstart with
  | fresh applied hrows hfresh =>
    obtain rfl : flag = false := by
      rw [← Bool.not_eq_true, hflag]
      simp [hfresh]
    refine applyPending_of_ok hok hnodup (d := d) ?_
    show applyAll (pending (Db.versions ⟨d₀, some (applied.getD [])⟩) migrations) d₀ = some d
    rw [hversions applied hrows]
    simpa [pending] using hall rfl
  | applied k rows schema hk hle hrows hschema =>
    have hne : rows ≠ [] := by
      rintro rfl
      have hlen := congrArg List.length hrows
      simp only [List.map_nil, List.length_nil, List.length_map, List.length_take] at hlen
      omega
    obtain rfl : flag = false := by
      rw [← Bool.not_eq_true, hflag]
      exact fun h => hne h.1
    refine applyPending_of_ok hok hnodup (d := d) ?_
    show applyAll (pending (rows.map Prod.fst) migrations) schema = some d
    have hsplit := hall rfl
    rw [← List.take_append_drop k migrations, applyAll_append, hschema] at hsplit
    rw [hrows, pending_take hnodup k]
    exact hsplit
  | legacy applied hrows schema hne hschema hlegacy =>
    obtain rfl : flag = true := hflag.2 ⟨hrows, hlegacy⟩
    refine baseline_of_ok hok hnodup fun m _ => ?_
    show m.1 ∉ (Db.versions ⟨schema, some (applied.getD [])⟩)
    rw [hversions applied hrows]
    exact List.not_mem_nil

end Lemmas

/-! ### The list as it stands -/

/-- A table with its columns, or an index on a table. -/
inductive SchemaObject
  | table (name : String) (columns : List String)
  | index (name table : String)
  deriving DecidableEq

def SchemaObject.name : SchemaObject → String
  | .table name _ => name
  | .index name _ => name

/-- `CREATE TABLE` and `CREATE INDEX`: the name must be free. -/
def create (x : SchemaObject) (schema : List SchemaObject) : Option (List SchemaObject) :=
  if x.name ∈ schema.map SchemaObject.name then none else some (schema ++ [x])

/-- The columns that `flush_batch` stores. -/
def flushedColumns : List String :=
  ["ts_ms", "duration_ms", "ttft_ms", "status", "model", "pipeline", "key_name", "tokens_in",
    "tokens_out", "cached_tokens", "cache_creation_tokens", "cached", "error"]

/-- `001_initial.sql`. -/
def initialSql (schema : List SchemaObject) : Option (List SchemaObject) :=
  [.table "requests" ("id" :: flushedColumns), .index "idx_requests_ts" "requests",
    .index "idx_requests_model" "requests", .index "idx_requests_key" "requests",
    .table "hourly_stats" ["ts_hour", "model", "key_name", "count", "errors", "throttled",
      "latency_sum", "latency_max", "tokens_in", "tokens_out"],
    .index "idx_hourly_ts" "hourly_stats"].foldlM (fun schema x => create x schema) schema

/-- `MIGRATIONS`. -/
def migrations : List (Migration (List SchemaObject)) := [("001_initial", initialSql)]

/-- A SQLite that executes every statement and a clock that stands still. -/
def willing : Sqlite (List SchemaObject) where
  hasRequests := fun schema => schema.any fun x => x.name = "requests"
  ok := fun _ => true
  nowMillis := fun _ => 0

/-! ### Lists that grow -/

/-- A second migration, which adds a table. -/
def withUsers : List (Migration (List SchemaObject)) :=
  migrations ++ [("002_users", create (.table "users" ["name"]))]

/-- The schema of the first migration. -/
def initialSchema : List SchemaObject := (initialSql []).getD []

/-- The longer list on a fresh database, on one that has the first migration, and on a legacy one,
which keeps its schema. -/
theorem migrate_correct_starts :
    (∃ db', migrate willing withUsers ⟨[], none⟩ = (true, db') ∧
      Migrated withUsers [] false ⟨[], none⟩ db') ∧
    (∃ db', migrate willing withUsers ⟨initialSchema, some [("001_initial", 7)]⟩ = (true, db') ∧
      Migrated withUsers [] false ⟨initialSchema, some [("001_initial", 7)]⟩ db' ∧
      .table "users" ["name"] ∈ db'.schema) ∧
    ∃ db', migrate willing withUsers ⟨initialSchema, none⟩ = (true, db') ∧
      db'.versions = ["001_initial", "002_users"] ∧ db'.schema = initialSchema := by
  have hall : applyAll withUsers [] = some _ := rfl
  refine ⟨?_, ?_, ?_⟩
  · have hstart : Start willing.hasRequests withUsers [] false ⟨[], none⟩ := .fresh none rfl rfl
    obtain ⟨db', h⟩ := migrate_of_ok (fun _ => rfl) (by decide) hstart fun _ => hall
    exact ⟨db', h, (migrate_correct (by decide) hstart).1 db' h⟩
  · have hstart : Start willing.hasRequests withUsers [] false
        ⟨initialSchema, some [("001_initial", 7)]⟩ :=
      .applied 1 _ _ le_rfl (by decide) rfl rfl
    obtain ⟨db', h⟩ := migrate_of_ok (fun _ => rfl) (by decide) hstart fun _ => hall
    have hmigrated := (migrate_correct (by decide) hstart).1 db' h
    refine ⟨db', h, hmigrated, ?_⟩
    rw [← Option.some.inj (hall.symm.trans (hmigrated.effects (Or.inl rfl)))]
    decide
  · have hstart : Start willing.hasRequests withUsers [] true ⟨initialSchema, none⟩ :=
      .legacy none rfl _ (by decide) rfl rfl
    obtain ⟨db', h⟩ := migrate_of_ok (fun _ => rfl) (by decide) hstart fun _ => hall
    have hmigrated := (migrate_correct (by decide) hstart).1 db' h
    exact ⟨db', h, hmigrated.recorded, hmigrated.baselined rfl⟩

/-- The same two changes under one version. -/
def sameVersion : List (Migration (List SchemaObject)) :=
  migrations ++ [("001_initial", create (.table "users" ["name"]))]

/-- A SQLite that does not answer the count. -/
def uncounted : Sqlite (List SchemaObject) := { willing with ok := fun n => n ≠ 1 }

/-- Three ways out of the general law: a legacy database does not get the second migration, a second
migration with a version used before is skipped, and a count that fails is no error. -/
theorem second_migration_missed :
    (∃ schema, initialSql [] = some schema ∧
      Start willing.hasRequests withUsers [] true ⟨schema, none⟩ ∧
      (migrate willing withUsers ⟨schema, none⟩).1 = true ∧
      applyAll withUsers [] ≠ some (migrate willing withUsers ⟨schema, none⟩).2.schema) ∧
    ((migrate willing sameVersion ⟨[], none⟩).1 = true ∧
      applyAll sameVersion [] ≠ some (migrate willing sameVersion ⟨[], none⟩).2.schema) ∧
    (uncounted.ok 1 = false ∧ (migrate uncounted migrations ⟨[], none⟩).1 = true ∧
      (migrate uncounted migrations ⟨[], none⟩).2.schema ≠ []) := by
  refine ⟨⟨_, rfl, .legacy none rfl _ (by decide) rfl rfl, by decide, by decide⟩,
    ⟨by decide, by decide⟩, rfl, by decide, by decide⟩

end Migrations
end Mybro
