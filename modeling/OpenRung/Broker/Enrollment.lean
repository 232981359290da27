import OpenRung.Broker.Postgres

/-! The enrollment budget (`internal/broker/users.go`) and `AuthenticateUser` of `PostgresStore`
    (`internal/broker/postgres_access.go`). The transaction runs alone but for one that creates the same user first; a
    refusal or a failed statement rolls it back. -/

namespace OpenRung.Broker

def defaultEnrollmentBurstLimit : Int := 3
def defaultEnrollmentBurstWindow : Duration := hour
def defaultEnrollmentDailyLimit : Int := 10
def defaultEnrollmentDailyWindow : Duration := 24 * hour

structure EnrollmentBudget where
  burstLimit : Int := 0
  burstWindow : Duration := 0
  dailyLimit : Int := 0
  dailyWindow : Duration := 0

/-- A limit of 0 is the default, and a negative one disables its window. -/
def EnrollmentBudget.windows (b : EnrollmentBudget) : List EnrollmentWindow :=
  let burst : EnrollmentWindow :=
    { name := "burst", limit := if b.burstLimit = 0 then defaultEnrollmentBurstLimit else b.burstLimit
      window := if b.burstWindow ≤ 0 then defaultEnrollmentBurstWindow else b.burstWindow }
  let daily : EnrollmentWindow :=
    { name := "day", limit := if b.dailyLimit = 0 then defaultEnrollmentDailyLimit else b.dailyLimit
      window := if b.dailyWindow ≤ 0 then defaultEnrollmentDailyWindow else b.dailyWindow }
  [burst, daily].filter fun w => 0 < w.limit

def timestamptz (t : Time) : Int := t / 1000

structure CounterColumns where
  windowStart : Int
  windowSeconds : Int
  count : Int
  deriving DecidableEq, Repr

def CounterColumns.windowEnd (row : CounterColumns) : Int := row.windowStart + row.windowSeconds * 1000000

structure PostgresUsers where
  users : KeyedMap String User := ∅
  counters : KeyedMap (String × String) CounterColumns := ∅

namespace PostgresUsers

/-- `UPDATE users SET last_auth_at … WHERE public_key = … RETURNING`. -/
def renew (canonicalPublicKey : String) (now : Time) (users : KeyedMap String User) :
    Option User × KeyedMap String User :=
  let mine := fun user : User => decide (user.publicKey = canonicalPublicKey)
  let set := fun user : User => { user with lastAuthAt := some now }
  ((Table.selectWhere mine users).head?.map set, Table.updateWhere mine set users)

def freshRow (w : EnrollmentWindow) (now : Time) : CounterColumns :=
  { windowStart := timestamptz now, windowSeconds := w.window.tdiv second, count := 1 }

/-- `DO UPDATE SET …`: a window that has ended counts from one again. -/
def recharged (w : EnrollmentWindow) (now : Time) (row : CounterColumns) : CounterColumns :=
  { count := if row.windowEnd ≤ timestamptz now then 1 else row.count + 1
    windowStart := if row.windowEnd ≤ timestamptz now then timestamptz now else row.windowStart
    windowSeconds := w.window.tdiv second }

/-- `INSERT INTO user_enrollment_counters … RETURNING`: the row has to fit its columns and the table's `CHECK`. -/
def charge (sourceKey : String) (w : EnrollmentWindow) (now : Time)
    (counters : KeyedMap (String × String) CounterColumns) :
    Except PgError (CounterColumns × KeyedMap (String × String) CounterColumns) :=
  let key := (sourceKey, w.name)
  let row := (counters.lookup key).elim (freshRow w now) (recharged w now)
  if 0 < row.windowSeconds ∧ int4 row.count then
    .ok (row, Table.upsert key (freshRow w now) (recharged w now) counters)
  else .error .database

def chargeWindows (sourceKey : String) (now : Time) :
    List EnrollmentWindow → KeyedMap (String × String) CounterColumns → Duration →
      Except PgError (KeyedMap (String × String) CounterColumns × Duration)
  | [], counters, retryAfter => .ok (counters, retryAfter)
  | w :: windows, counters, retryAfter =>
    match charge sourceKey w now counters with
    | .error e => .error e
    | .ok (row, counters) =>
      let wait := row.windowStart * 1000 + w.window - now
      chargeWindows sourceKey now windows counters
        (if w.limit < row.count ∧ (retryAfter = 0 ∨ wait < retryAfter) then wait else retryAfter)

/-- `winner` is the user that another transaction creates for the key, and commits, before this one inserts its own.
    -/
def authenticateUser (pg : PostgresUsers) (canonicalPublicKey sourceKey : String) (windows : List EnrollmentWindow)
    (refuseNew : Option StoreError) (newUserID : Option String) (winner : Option User) (now : Time) :
    PostgresUsers × Except PgError (User × Bool) :=
  match renew canonicalPublicKey now pg.users with
  | (some user, users) => ({ pg with users }, .ok (user, false))
  | (none, _) =>
    match refuseNew, newUserID with
    | some e, _ => (pg, .error (.store e))
    | none, none => (pg, .error (.store .mint))
    | none, some id =>
      match winner with
      | some other =>
        let pg := { pg with users := pg.users.insert other.id other }
        match renew canonicalPublicKey now pg.users with
        | (some user, users) => ({ pg with users }, .ok (user, false))
        | (none, _) => (pg, .error .database)
      | none =>
        -- the primary key of `users` is the id
        if (pg.users.lookup id).isSome then (pg, .error .database)
        else
          let user : User := { id, publicKey := canonicalPublicKey, status := .enabled, createdAt := some now
                               lastAuthAt := some now }
          match chargeWindows sourceKey now windows pg.counters 0 with
          | .error e => (pg, .error e)
          | .ok (counters, retryAfter) =>
            if 0 < retryAfter then (pg, .error (.store (.enrollmentLimited retryAfter)))
            else ({ users := pg.users.insert id user, counters }, .ok (user, true))

end PostgresUsers

end OpenRung.Broker
