import Anadil.Store.Basic

/-! # The work queue

A job is queued, handed out to one worker, and finished well or badly; one that failed can be queued
again. Of the jobs of a stage that may be handed out, the one that waits longest comes first. -/

namespace Anadil.Store

/-! ### Queueing -/

/-- A job to be queued: a status without a name is `queued`, and no time is now. -/
structure Draft where
  sample : Int
  stage : Text
  status : Text
  attempt : Int
  availableAt : Instant
deriving DecidableEq, Repr

/-- The status given by a name; no name is `queued`. -/
def statusOf (name : Text) : Option Status :=
  if name.isEmpty then some .queued else Status.ofName? name

def nonEmpty (t : Text) : Option Text := if t.isEmpty then none else some t

def insertJob (s : Store) (ctx : Context) (d : Draft) : Except Fault (Job × Store) :=
  s.access ctx "work" ("insert " ++ Fault.guarded d.stage ++ " work") do
    let stage ← need .stageName (Stage.ofName? d.stage)
    let status ← need .statusName (statusOf d.status)
    require .noSuchRow (s.hasSample d.sample)
    let availableAt := if d.availableAt = Time.zero then ctx.now else d.availableAt
    let row (id : Int) : Job :=
      ⟨id, d.sample, stage, status, d.attempt, availableAt, none, none, none, none, none, none⟩
    let (id, jobs) := s.jobs.add row
    return (row id, { s with jobs })

/-! ### Handing out -/

def Job.isReady (now : Instant) (stage : Stage) (j : Job) : Bool :=
  j.stage == stage && j.status == .queued && !Time.before now j.availableAt

/-- Whether a job waits longer than another: by time, then by number. -/
def Job.precedes (a b : Job) : Bool :=
  Time.before a.availableAt b.availableAt || (a.availableAt == b.availableAt && a.id < b.id)

def foremost? (jobs : List Job) : Option Job :=
  jobs.foldl (fun best j =>
    match best with
    | none => some j
    | some b => if j.precedes b then some j else some b) none

/-- The most that a count of attempts comes to: the first number that has not 64 bits. -/
def mostAttempts : Int := 0x8000000000000000

def Job.claimed (now : Instant) (worker : Text) (j : Job) : Job :=
  { j with
    status := .running
    lockedBy := some worker
    lockedAt := some now
    startedAt := j.startedAt.or (some now)
    attempt := min (j.attempt + 1) mostAttempts }

/-- Changes the jobs that satisfy `p`. -/
def changeJobs (s : Store) (p : Job → Bool) (f : Job → Job) : Store :=
  { s with jobs := { s.jobs with rows := s.jobs.rows.map fun j => if p j then f j else j } }

/-- A job as it is read from its row. A count of attempts that has not 64 bits cannot be read. -/
def Job.read (j : Job) : Except Fault Job :=
  if j.attempt < mostAttempts then .ok { j with availableAt := Time.reread j.availableAt }
  else
    .error (.outside
      ("sql: Scan error on column index 4, name \"attempt\": converting driver.Value type float64 " ++
        "(\"9.223372036854776e+18\") to a int: invalid syntax"))

/-- Hands out the foremost job of a stage, if one is ready, and gives its row. -/
def claimJob (s : Store) (ctx : Context) (stage worker : Text) : Except Fault (Option Job × Store) :=
  s.access ctx "work" "claim work" <|
    match Stage.ofName? stage with
    | none => .ok (none, s)
    | some stage =>
      match foremost? (s.jobs.rows.filter (Job.isReady ctx.now stage)) with
      | none => .ok (none, s)
      | some j =>
        let j' := j.claimed ctx.now worker
        .ok (some j', s.changeJobs (·.id == j.id) fun _ => j')

/-! ### Finishing -/

def Job.finished (now : Instant) (status : Status) (code message : Text) (j : Job) : Job :=
  { j with
    status := status
    finishedAt := some now
    code := nonEmpty code
    message := nonEmpty message
    lockedBy := none
    lockedAt := none }

/-- Finishes a job. A number that no job has is passed over. -/
def finishJob (s : Store) (ctx : Context) (id : Int) (status code message : Text) :
    Except Fault Store :=
  s.access ctx "work" "finish work" do
    if s.jobs.rows.any (·.id == id) then
      let status ← need .statusName (Status.ofName? status)
      return s.changeJobs (·.id == id) (Job.finished ctx.now status code message)
    else return s

/-! ### Queueing again -/

def Job.isFailed (stage : Text) (j : Job) : Bool :=
  (j.stage.name : Text) == stage && j.status == .failed

def Job.requeued (now : Instant) (j : Job) : Job :=
  { j with
    status := .queued
    availableAt := now
    lockedBy := none
    lockedAt := none
    finishedAt := none
    code := none
    message := none }

/-- Queues the failed jobs of a stage again, and says how many. -/
def resetFailed (s : Store) (ctx : Context) (stage : Text) : Except Fault (Nat × Store) :=
  s.access ctx "work" "reset failed work" <|
    .ok ((s.jobs.rows.filter (Job.isFailed stage)).length,
      s.changeJobs (Job.isFailed stage) (Job.requeued ctx.now))

def failedJobs (s : Store) (ctx : Context) (stage : Text) : Except Fault (List Job) :=
  do
    let jobs ← s.access ctx "work" "get failed work" (.ok (s.jobs.rows.filter (Job.isFailed stage)))
    (jobs.mapM Job.read).mapError (Fault.behind "scan work")

/-- How many jobs there are of each stage and status; none is not counted. -/
def summary (s : Store) (ctx : Context) :
    Except Fault (List (Stage × List (Status × Nat))) :=
  s.access ctx "work" "get work summary" <|
    .ok <| (Stage.all.map fun stage =>
      (stage, (Status.all.map fun status =>
        (status, (s.jobs.rows.filter fun j => j.stage == stage && j.status == status).length)).filter
          (·.2 != 0))).filter fun (_, counts) => !counts.isEmpty

end Anadil.Store
