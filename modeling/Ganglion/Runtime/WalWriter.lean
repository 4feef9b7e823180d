import Ganglion.Lib.Replay
import Ganglion.Runtime.Raft

/-!
# The WAL writer thread

`WalWriter::run` takes jobs from its channel in batches: one it waits for, and whatever else is queued by then. The
writes of a batch share one `write_all` and one `sync_data`; a `Replace` in the middle flushes first and moves on to
another file. A failed write or sync is remembered, and every later write is answered with it.

The batches are an argument of `run`, so every split of the submitted jobs is covered, and so is `disk`, which says how
each attempt to write ends. The thread keeps a trace of what it did (`Effect`).

* `bytesFor`: what the jobs mean for one file. `Durable`: a sync of the file after the bytes were written to it.
* `flush_cases` says all a flush can do; `flush_inv` and `process_inv` keep `Inv` between the trace and the jobs.
* `group_commit`: completions in submission order, files that hold prefixes, `Ok` only for what is durable, and nothing
  but errors after a failure. `run_without_failure`: without one, all is written and synced.
-/

namespace Ganglion

open Trace

/-! ## Jobs and effects -/

/-- `std::io::ErrorKind`: `Other`, or the kind of a system error. -/
inductive IoErrorKind where
  | other
  | os (code : Nat)
  deriving DecidableEq

/-- `std::io::Error`: its kind and the text it shows. -/
structure IoError where
  kind : IoErrorKind
  message : String
  deriving DecidableEq

/-- `WalJob`, over the open files and the completion handles. -/
inductive WalJob (F D : Type) where
  | write (bytes : Bytes) (done : D)
  | replace (file : F) (done : D)
  deriving DecidableEq

/-- How an attempt to write and sync ends. -/
inductive DiskOutcome where
  | ok
  /-- `write_all` fails when `reached` bytes are in the file. -/
  | writeFails (reached : Nat) (error : IoError)
  | syncFails (error : IoError)
  deriving DecidableEq

/-- What the thread does, in order. -/
inductive Effect (F D : Type) where
  /-- Bytes that reached a file. -/
  | wrote (file : F) (bytes : Bytes)
  | synced (file : F)
  /-- `write_all` or `sync_data` returned an error. -/
  | failed (file : F) (error : IoError)
  /-- `done.complete(result)` of a write. -/
  | completed (done : D) (result : Except IoError Unit)
  /-- `done.send(())` of a replace. -/
  | replaced (done : D)

/-- What a job's completion handle hears, and of which kind of job. -/
inductive Signal (D : Type) where
  | written (done : D)
  | replaced (done : D)
  deriving DecidableEq

/-- The completion a job waits for. -/
def WalJob.signal {F D : Type} : WalJob F D → Signal D
  | .write _ done => .written done
  | .replace _ done => .replaced done

/-- The completion an effect fires. -/
def Effect.signal {F D : Type} : Effect F D → Option (Signal D)
  | .completed done _ => some (.written done)
  | .replaced done => some (.replaced done)
  | _ => none

namespace WalWriter

variable {F D : Type}

/-! ## The thread -/

/-- The locals of `run`, the `fsyncs` of the telemetry and the trace; `attempts` counts the calls of `write_all`. -/
structure Thread (F D : Type) where
  file : F
  failed : Option String
  bytes : Bytes
  waiting : List D
  attempts : Nat
  fsyncs : Nat
  trace : List (Effect F D)

variable (disk : Nat → DiskOutcome)

/-- The match of `flush`: what it does to the file, and the result it hands to every waiting job. -/
def Thread.attempt (t : Thread F D) : Thread F D × Except IoError Unit :=
  match t.failed with
  | some error => (t, .error ⟨.other, error⟩)
  | none =>
    if t.bytes.isEmpty then (t, .ok ())
    else
      match disk t.attempts with
      | .ok =>
        ({ t with
            attempts := t.attempts + 1
            fsyncs := t.fsyncs + 1
            trace := t.trace ++ [.wrote t.file t.bytes, .synced t.file] }, .ok ())
      | .writeFails reached error =>
        ({ t with
            attempts := t.attempts + 1
            failed := some s!"raft WAL write failed earlier: {error.message}"
            trace := t.trace ++ [.wrote t.file (t.bytes.take reached), .failed t.file error] }, .error error)
      | .syncFails error =>
        ({ t with
            attempts := t.attempts + 1
            failed := some s!"raft WAL write failed earlier: {error.message}"
            trace := t.trace ++ [.wrote t.file t.bytes, .failed t.file error] }, .error error)

/-- `flush`. -/
def Thread.flush (t : Thread F D) : Thread F D :=
  if t.waiting.isEmpty then t
  else
    let r := t.attempt disk
    { r.1 with bytes := [], waiting := [], trace := r.1.trace ++ t.waiting.map fun done => .completed done r.2 }

/-- One turn of the loop over the jobs of a batch. -/
def Thread.process (t : Thread F D) : WalJob F D → Thread F D
  | .write b done => { t with bytes := t.bytes ++ b, waiting := t.waiting ++ [done] }
  | .replace next done =>
    let t := t.flush disk
    { t with file := next, trace := t.trace ++ [.replaced done] }

/-- One turn of the loop of `run`: the job received and the jobs queued behind it. -/
def Thread.turn (t : Thread F D) (batch : WalJob F D × List (WalJob F D)) : Thread F D :=
  ((batch.1 :: batch.2).foldl (Thread.process disk) { t with bytes := [], waiting := [] }).flush disk

/-- `run` on a file, over the batches it receives. -/
def run (file : F) (batches : List (WalJob F D × List (WalJob F D))) : Thread F D :=
  batches.foldl (Thread.turn disk) ⟨file, none, [], [], 0, 0, []⟩

/-! ## What the jobs mean -/

/-- The file that is current after the jobs. -/
def fileAfter (file : F) (jobs : List (WalJob F D)) : F :=
  jobs.foldl (fun file job =>
    match job with
    | .write _ _ => file
    | .replace next _ => next) file

/-- The bytes of a job that go to the current file. -/
def payload : WalJob F D → Bytes
  | .write b _ => b
  | .replace _ _ => []

variable [DecidableEq F]

/-- The bytes that the jobs write to `f`, in submission order, when `file` is current before them. -/
def bytesFor (f : F) : F → List (WalJob F D) → Bytes
  | _, [] => []
  | file, .write b _ :: jobs => (if file = f then b else []) ++ bytesFor f file jobs
  | _, .replace next _ :: jobs => bytesFor f next jobs

/-- The bytes that reached `f`. -/
def written (f : F) (trace : List (Effect F D)) : Bytes :=
  trace.flatMap fun e =>
    match e with
    | .wrote file bytes => if file = f then bytes else []
    | _ => []

/-- The bytes stand at the front of `f`, and `f` was synced after they were written. -/
def Durable (f : F) (bytes : Bytes) (trace : List (Effect F D)) : Prop :=
  bytes = [] ∨ ∃ before after, trace = before ++ .synced f :: after ∧ bytes <+: written f before

omit [DecidableEq F] in
theorem fileAfter_append (file : F) (xs ys : List (WalJob F D)) :
    fileAfter file (xs ++ ys) = fileAfter (fileAfter file xs) ys := List.foldl_append

theorem bytesFor_append (f file : F) (xs ys : List (WalJob F D)) :
    bytesFor f file (xs ++ ys) = bytesFor f file xs ++ bytesFor f (fileAfter file xs) ys := by
  induction xs generalizing file with
  | nil => rfl
  | cons x xs ih =>
    cases x with
    | write b done => simp [bytesFor, ih, fileAfter]
    | replace next done => simp [bytesFor, ih, fileAfter]

/-- Fewer jobs write a prefix. -/
theorem bytesFor_mono (f file : F) {xs ys : List (WalJob F D)} (h : xs <+: ys) :
    bytesFor f file xs <+: bytesFor f file ys := by
  obtain ⟨zs, rfl⟩ := h
  exact ⟨_, (bytesFor_append f file xs zs).symm⟩

/-- Writes go to the current file and leave it. -/
theorem bytesFor_writes (f file : F) {jobs : List (WalJob F D)} (h : ∀ j ∈ jobs, ∃ b done, j = .write b done) :
    fileAfter file jobs = file ∧ bytesFor f file jobs = if file = f then jobs.flatMap payload else [] := by
  induction jobs with
  | nil => simp [fileAfter, bytesFor]
  | cons j jobs ih =>
    obtain ⟨b, done, rfl⟩ := h j List.mem_cons_self
    obtain ⟨hf, hb⟩ := ih fun j hj => h j (List.mem_cons_of_mem _ hj)
    refine ⟨hf, ?_⟩
    rw [bytesFor, hb]
    split <;> simp [payload]

@[simp] theorem written_append (f : F) (xs ys : List (Effect F D)) :
    written f (xs ++ ys) = written f xs ++ written f ys := List.flatMap_append

@[simp] theorem written_completed (f : F) (ds : List D) (r : Except IoError Unit) :
    written f (ds.map fun d => (.completed d r : Effect F D)) = [] := by simp [written]

theorem Durable.append {f : F} {bytes : Bytes} {trace : List (Effect F D)} (h : Durable f bytes trace)
    (more : List (Effect F D)) : Durable f bytes (trace ++ more) := by
  rcases h with h | ⟨before, after, rfl, hp⟩
  · exact .inl h
  · exact .inr ⟨before, after ++ more, by simp, hp⟩

theorem Durable.mono {f : F} {bytes bytes' : Bytes} {trace : List (Effect F D)} (h : Durable f bytes trace)
    (hp : bytes' <+: bytes) : Durable f bytes' trace := by
  rcases h with rfl | ⟨before, after, ht, hb⟩
  · exact .inl (List.prefix_nil.1 hp)
  · exact .inr ⟨before, after, ht, hp.trans hb⟩

/-! ## The law of the trace -/

/-- The completions that have fired, in order. -/
def signals (trace : List (Effect F D)) : List (Signal D) := trace.filterMap Effect.signal

omit [DecidableEq F] in
@[simp] theorem signals_append (xs ys : List (Effect F D)) : signals (xs ++ ys) = signals xs ++ signals ys :=
  List.filterMap_append

omit [DecidableEq F] in
@[simp] theorem signals_completed (ds : List D) (r : Except IoError Unit) :
    signals (ds.map fun d => (.completed d r : Effect F D)) = ds.map .written := by
  simp [signals, List.filterMap_map, Function.comp_def, Effect.signal]

/-- What an effect may be after the past, when `jobs` are submitted and `file` is current at the start. -/
structure Lawful (file : F) (jobs : List (WalJob F D)) (past : List (Effect F D)) (x : Effect F D) : Prop where
  /-- `Ok` is for a job that is durable with all jobs before it. -/
  durable : ∀ done, x = .completed done (.ok ()) →
    ∀ f, Durable f (bytesFor f file (jobs.take ((signals past).length + 1))) past
  /-- `Ok` comes after `Ok` only. -/
  okBefore : ∀ done, x = .completed done (.ok ()) → ∀ d error, .completed d (.error error) ∉ past
  /-- After a failure there are errors and replaces only. -/
  stopped : ∀ f error, .failed f error ∈ past →
    (∃ d e, x = .completed d (.error e)) ∨ ∃ d, x = .replaced d

/-- An effect on a file, before any failure. -/
theorem Lawful.io {file : F} {jobs : List (WalJob F D)} {past : List (Effect F D)} {x : Effect F D}
    (hx : ∀ done r, x ≠ .completed done r) (hpast : ∀ f error, .failed f error ∉ past) : Lawful file jobs past x :=
  ⟨fun done h => absurd h (hx done _), fun done h => absurd h (hx done _), fun f e h => absurd h (hpast f e)⟩

/-- The answers of a flush that failed. -/
theorem error_answers {file : F} {jobs : List (WalJob F D)} (past : List (Effect F D)) (ds : List D) (error : IoError) :
    Always (Lawful file jobs) past (ds.map fun d => .completed d (.error error)) := by
  apply always_map
  intro cs d _ _
  exact ⟨nofun, nofun, fun _ _ _ => .inl ⟨d, error, rfl⟩⟩

/-- The answers of a flush after which all pending jobs are durable. -/
theorem ok_answers {file : F} {jobs cs ps : List (WalJob F D)} {past : List (Effect F D)} {ds : List D}
    (hsub : cs ++ ps <+: jobs) (hcs : (signals past).length = cs.length) (hps : ds.length = ps.length)
    (hdur : ∀ f, Durable f (bytesFor f file (cs ++ ps)) past) (hfail : ∀ f error, .failed f error ∉ past)
    (herr : ∀ d error, .completed d (.error error) ∉ past) :
    Always (Lawful file jobs) past (ds.map fun d => .completed d (.ok ())) := by
  apply always_map
  intro before d after hds
  refine ⟨fun _ _ f => ?_, fun _ _ d' error hmem => ?_, fun f error hmem => ?_⟩
  · -- the job that is answered here is one of the pending ones
    have hlen : (signals (past ++ before.map fun d => (.completed d (.ok ()) : Effect F D))).length + 1 ≤
        (cs ++ ps).length := by
      rw [hds] at hps
      simp only [signals_append, signals_completed, List.length_append, List.length_map, List.length_cons] at hps ⊢
      omega
    have htake : jobs.take ((signals (past ++ before.map fun d => (.completed d (.ok ()) : Effect F D))).length + 1)
        <+: cs ++ ps :=
      List.prefix_of_prefix_length_le (List.take_prefix _ _) hsub (by rw [List.length_take]; omega)
    exact ((hdur f).mono (bytesFor_mono f file htake)).append _
  · rcases List.mem_append.1 hmem with h | h
    · exact herr d' error h
    · obtain ⟨_, _, h⟩ := List.mem_map.1 h
      cases h
  · rcases List.mem_append.1 hmem with h | h
    · exact absurd h (hfail f error)
    · obtain ⟨_, _, h⟩ := List.mem_map.1 h
      cases h

/-! ## One flush -/

/-- How `u` comes from `t` when the waiting jobs are answered `r`, after the effects `mid` on the file. -/
structure Answers (t u : Thread F D) (mid : List (Effect F D)) (r : Except IoError Unit) : Prop where
  file_eq : u.file = t.file
  bytes_eq : u.bytes = []
  waiting_eq : u.waiting = []
  trace_eq : u.trace = t.trace ++ mid ++ t.waiting.map fun d => .completed d r

omit [DecidableEq F] in
/-- All that a flush with waiting jobs can do: refuse after a failure, answer empty writes at once, write and sync, or
fail with a part of the bytes in the file. -/
theorem flush_cases {t : Thread F D} (hw : t.waiting ≠ []) :
    (t.failed ≠ none ∧ (t.flush disk).failed ≠ none ∧ ∃ error, Answers t (t.flush disk) [] (.error error)) ∨
    (t.failed = none ∧ (t.flush disk).failed = none ∧ t.bytes = [] ∧ Answers t (t.flush disk) [] (.ok ())) ∨
    (t.failed = none ∧ (t.flush disk).failed = none ∧
      Answers t (t.flush disk) [.wrote t.file t.bytes, .synced t.file] (.ok ())) ∨
    (t.failed = none ∧ (t.flush disk).failed ≠ none ∧ ∃ reached error, reached <+: t.bytes ∧
      Answers t (t.flush disk) [.wrote t.file reached, .failed t.file error] (.error error)) := by
  have hempty : t.waiting.isEmpty = false := by simpa using hw
  cases hfailed : t.failed with
  | some error =>
    have ha : t.attempt disk = (t, .error ⟨.other, error⟩) := by simp [Thread.attempt, hfailed]
    refine .inl ⟨nofun, ?_, ⟨.other, error⟩, ?_⟩
    · simp [Thread.flush, hempty, ha, hfailed]
    · constructor <;> simp [Thread.flush, hempty, ha]
  | none =>
    by_cases hb : t.bytes = []
    · have ha : t.attempt disk = (t, .ok ()) := by simp [Thread.attempt, hfailed, hb]
      refine .inr (.inl ⟨rfl, ?_, hb, ?_⟩)
      · simp [Thread.flush, hempty, ha, hfailed]
      · constructor <;> simp [Thread.flush, hempty, ha]
    · cases hd : disk t.attempts with
      | ok =>
        refine .inr (.inr (.inl ⟨rfl, ?_, ?_⟩))
        · simp [Thread.flush, Thread.attempt, hempty, hfailed, hb, hd]
        · constructor <;> simp [Thread.flush, Thread.attempt, hempty, hfailed, hb, hd]
      | writeFails reached error =>
        refine .inr (.inr (.inr ⟨rfl, ?_, t.bytes.take reached, error, List.take_prefix _ _, ?_⟩))
        · simp [Thread.flush, Thread.attempt, hempty, hfailed, hb, hd]
        · constructor <;> simp [Thread.flush, Thread.attempt, hempty, hfailed, hb, hd]
      | syncFails error =>
        refine .inr (.inr (.inr ⟨rfl, ?_, t.bytes, error, ⟨[], List.append_nil _⟩, ?_⟩))
        · simp [Thread.flush, Thread.attempt, hempty, hfailed, hb, hd]
        · constructor <;> simp [Thread.flush, Thread.attempt, hempty, hfailed, hb, hd]

/-- How the thread stands to the jobs: `cs` are answered, `ps` are pending in the batch. -/
structure Inv (file : F) (jobs : List (WalJob F D)) (t : Thread F D) (cs ps : List (WalJob F D)) : Prop where
  submitted : cs ++ ps <+: jobs
  pending : ∀ j ∈ ps, ∃ b done, j = .write b done
  file_eq : t.file = fileAfter file cs
  bytes_eq : t.bytes = ps.flatMap payload
  waiting_eq : t.waiting.map .written = ps.map WalJob.signal
  signals_eq : signals t.trace = cs.map WalJob.signal
  reached : ∀ f, written f t.trace <+: bytesFor f file cs
  intact : t.failed = none → (∀ f, written f t.trace = bytesFor f file cs) ∧
    (∀ f, Durable f (bytesFor f file cs) t.trace) ∧ (∀ f error, .failed f error ∉ t.trace) ∧
    ∀ d error, .completed d (.error error) ∉ t.trace
  broken : t.failed ≠ none → ∃ f error, .failed f error ∈ t.trace
  lawful : Always (Lawful file jobs) [] t.trace

section Flush

variable {file : F} {jobs cs ps : List (WalJob F D)} {t : Thread F D}

/-- The pending jobs add the bytes of the batch to the current file. -/
theorem Inv.bytesFor_pending (h : Inv file jobs t cs ps) (f : F) :
    bytesFor f file (cs ++ ps) = bytesFor f file cs ++ if t.file = f then t.bytes else [] := by
  rw [bytesFor_append, (bytesFor_writes f _ h.pending).2, h.file_eq, h.bytes_eq]

theorem Inv.waiting_length (h : Inv file jobs t cs ps) : t.waiting.length = ps.length := by
  simpa using congrArg List.length h.waiting_eq

theorem Inv.signals_length (h : Inv file jobs t cs ps) : (signals t.trace).length = cs.length := by
  rw [h.signals_eq, List.length_map]

/-- Once the waiting jobs are answered they are not pending any more. -/
theorem Inv.answered (h : Inv file jobs t cs ps) {u : Thread F D} {mid : List (Effect F D)} {r : Except IoError Unit}
    (hu : Answers t u mid r) (hmid : signals mid = [])
    (hreached : ∀ f, written f (t.trace ++ mid) <+: bytesFor f file (cs ++ ps))
    (hintact : u.failed = none → r = .ok () ∧ t.failed = none ∧
      (∀ f, written f (t.trace ++ mid) = bytesFor f file (cs ++ ps)) ∧
      (∀ f, Durable f (bytesFor f file (cs ++ ps)) (t.trace ++ mid)) ∧ (∀ f error, .failed f error ∉ mid) ∧
      ∀ d error, .completed d (.error error) ∉ mid)
    (hbroken : u.failed ≠ none → ∃ f error, .failed f error ∈ t.trace ++ mid)
    (hlaw : Always (Lawful file jobs) t.trace (mid ++ t.waiting.map fun d => .completed d r)) :
    Inv file jobs u (cs ++ ps) [] := by
  constructor
  · rw [List.append_nil]
    exact h.submitted
  · nofun
  · rw [fileAfter_append, ← h.file_eq, (bytesFor_writes file _ h.pending).1, hu.file_eq]
  · exact hu.bytes_eq
  · rw [hu.waiting_eq]
    rfl
  · rw [hu.trace_eq, signals_append, signals_append, hmid, signals_completed, h.signals_eq, h.waiting_eq]
    simp
  · intro f
    rw [hu.trace_eq, written_append, written_completed, List.append_nil]
    exact hreached f
  · intro hn
    obtain ⟨rfl, ht, hw, hd, hf, he⟩ := hintact hn
    obtain ⟨_, _, hf', he'⟩ := h.intact ht
    refine ⟨fun f => ?_, fun f => ?_, fun f error => ?_, fun d error => ?_⟩
    · rw [hu.trace_eq, written_append, written_completed, List.append_nil]
      exact hw f
    · rw [hu.trace_eq]
      exact (hd f).append _
    · simp [hu.trace_eq, hf', hf]
    · simp [hu.trace_eq, he', he]
  · intro hn
    obtain ⟨f, error, hm⟩ := hbroken hn
    refine ⟨f, error, ?_⟩
    rw [hu.trace_eq]
    exact List.mem_append_left _ hm
  · rw [hu.trace_eq, List.append_assoc, always_append]
    exact ⟨h.lawful, by simpa using hlaw⟩

/-- After a failure nothing reaches the file. -/
theorem Inv.refused (h : Inv file jobs t cs ps) (ht : t.failed ≠ none) {u : Thread F D} (huf : u.failed ≠ none)
    {error : IoError} (hu : Answers t u [] (.error error)) : Inv file jobs u (cs ++ ps) [] := by
  refine h.answered hu rfl (fun f => ?_) (fun hn => absurd hn huf) (fun _ => ?_) ?_
  · rw [List.append_nil]
    exact (h.reached f).trans (bytesFor_mono f file (List.prefix_append cs ps))
  · rw [List.append_nil]
    exact h.broken ht
  · exact error_answers _ _ error

/-- A batch of empty writes is durable already. -/
theorem Inv.empty (h : Inv file jobs t cs ps) (ht : t.failed = none) (hb : t.bytes = []) {u : Thread F D}
    (huf : u.failed = none) (hu : Answers t u [] (.ok ())) : Inv file jobs u (cs ++ ps) [] := by
  obtain ⟨hwr, hdur, hnf, hne⟩ := h.intact ht
  have hsame : ∀ f, bytesFor f file (cs ++ ps) = bytesFor f file cs := by
    intro f
    rw [h.bytesFor_pending, hb, ite_self, List.append_nil]
  have hdur' : ∀ f, Durable f (bytesFor f file (cs ++ ps)) t.trace := by
    intro f
    rw [hsame]
    exact hdur f
  refine h.answered hu rfl (fun f => ?_) (fun _ => ?_) (fun hn => absurd huf hn) ?_
  · rw [List.append_nil, hsame]
    exact h.reached f
  · rw [List.append_nil]
    exact ⟨rfl, ht, fun f => by rw [hwr, hsame], hdur', nofun, nofun⟩
  · exact ok_answers h.submitted h.signals_length h.waiting_length hdur' hnf hne

/-- A batch that is written and synced. -/
theorem Inv.synced (h : Inv file jobs t cs ps) (ht : t.failed = none) {u : Thread F D} (huf : u.failed = none)
    (hu : Answers t u [.wrote t.file t.bytes, .synced t.file] (.ok ())) : Inv file jobs u (cs ++ ps) [] := by
  obtain ⟨hwr, hdur, hnf, hne⟩ := h.intact ht
  have hwr' : ∀ f, written f (t.trace ++ [.wrote t.file t.bytes, .synced t.file]) = bytesFor f file (cs ++ ps) := by
    intro f
    rw [written_append, hwr, h.bytesFor_pending]
    simp [written]
  have hdur' : ∀ f, Durable f (bytesFor f file (cs ++ ps)) (t.trace ++ [.wrote t.file t.bytes, .synced t.file]) := by
    intro f
    by_cases hc : t.file = f
    · refine .inr ⟨t.trace ++ [.wrote t.file t.bytes], [], by simp [hc], ?_⟩
      rw [← hwr' f]
      simp [written, hc]
    · -- another file has what it had
      rw [h.bytesFor_pending, if_neg hc, List.append_nil]
      exact (hdur f).append _
  refine h.answered hu rfl (fun f => ?_) (fun _ => ?_) (fun hn => absurd huf hn) ?_
  · exact ⟨[], by rw [List.append_nil, hwr' f]⟩
  · exact ⟨rfl, ht, hwr', hdur', by simp, by simp⟩
  · rw [always_append]
    refine ⟨⟨.io nofun hnf, .io nofun (by simp [hnf]), trivial⟩, ?_⟩
    have hsig : (signals (t.trace ++ [.wrote t.file t.bytes, .synced t.file])).length = cs.length := by
      rw [signals_append, List.length_append, h.signals_length]
      rfl
    exact ok_answers h.submitted hsig h.waiting_length hdur' (by simp [hnf]) (by simp [hne])

/-- An attempt that fails leaves a part of the bytes in the file. -/
theorem Inv.cut (h : Inv file jobs t cs ps) (ht : t.failed = none) {u : Thread F D} (huf : u.failed ≠ none)
    {reached : Bytes} (hp : reached <+: t.bytes) {error : IoError}
    (hu : Answers t u [.wrote t.file reached, .failed t.file error] (.error error)) :
    Inv file jobs u (cs ++ ps) [] := by
  obtain ⟨hwr, _, hnf, _⟩ := h.intact ht
  refine h.answered hu rfl (fun f => ?_) (fun hn => absurd hn huf) (fun _ => ⟨t.file, error, by simp⟩) ?_
  · rw [written_append, hwr, h.bytesFor_pending, List.prefix_append_right_inj]
    by_cases hc : t.file = f
    · simpa [written, hc] using hp
    · simp [written, hc]
  · rw [always_append]
    exact ⟨⟨.io nofun hnf, .io nofun (by simp [hnf]), trivial⟩, error_answers _ _ error⟩

/-- **A flush answers all pending jobs.** -/
theorem flush_inv (h : Inv file jobs t cs ps) : Inv file jobs (t.flush disk) (cs ++ ps) [] := by
  by_cases hw : t.waiting = []
  · have hps : ps = [] := by
      have := h.waiting_eq
      rw [hw] at this
      exact List.map_eq_nil_iff.1 this.symm
    subst hps
    have hflush : t.flush disk = t := by simp [Thread.flush, hw]
    rw [hflush, List.append_nil]
    exact h
  rcases flush_cases disk hw with ⟨ht, hu, error, ha⟩ | ⟨ht, hu, hb, ha⟩ | ⟨ht, hu, ha⟩ |
    ⟨ht, hu, reached, error, hp, ha⟩
  · exact h.refused ht hu ha
  · exact h.empty ht hb hu ha
  · exact h.synced ht hu ha
  · exact h.cut ht hu hp ha

/-- A write joins the batch. -/
theorem Inv.queued (h : Inv file jobs t cs ps) {b : Bytes} {done : D} (hsub : cs ++ (ps ++ [.write b done]) <+: jobs) :
    Inv file jobs { t with bytes := t.bytes ++ b, waiting := t.waiting ++ [done] } cs (ps ++ [.write b done]) := by
  refine { h with submitted := hsub, pending := fun j hj => ?_, bytes_eq := ?_, waiting_eq := ?_ }
  · rcases List.mem_append.1 hj with hj | hj
    · exact h.pending j hj
    · exact ⟨b, done, List.mem_singleton.1 hj⟩
  · simp [h.bytes_eq, payload]
  · simp [h.waiting_eq, WalJob.signal]

/-- A replace behind answered jobs moves on to its file. -/
theorem Inv.replaced (h : Inv file jobs t cs []) {next : F} {done : D} (hsub : cs ++ [.replace next done] <+: jobs) :
    Inv file jobs { t with file := next, trace := t.trace ++ [.replaced done] } (cs ++ [.replace next done]) [] := by
  have hsame : ∀ f, bytesFor f file (cs ++ [.replace next done]) = bytesFor f file cs := by
    intro f
    rw [bytesFor_append]
    simp [bytesFor]
  have hwritten : ∀ f, written f (t.trace ++ [.replaced done]) = written f t.trace := by
    intro f
    simp [written]
  refine { h with
    submitted := by rwa [List.append_nil]
    file_eq := by simp [fileAfter]
    signals_eq := ?_, reached := fun f => ?_, intact := fun hn => ?_, broken := fun hn => ?_, lawful := ?_ }
  · rw [signals_append, h.signals_eq]
    simp [signals, Effect.signal, WalJob.signal]
  · rw [hwritten, hsame]
    exact h.reached f
  · obtain ⟨hw, hd, hnf, hne⟩ := h.intact hn
    refine ⟨fun f => ?_, fun f => ?_, fun f error => ?_, fun d error => ?_⟩
    · rw [hwritten, hsame, hw]
    · rw [hsame]
      exact (hd f).append _
    · simp [hnf]
    · simp [hne]
  · obtain ⟨f, error, hm⟩ := h.broken hn
    exact ⟨f, error, List.mem_append_left _ hm⟩
  · rw [always_append]
    exact ⟨h.lawful, ⟨nofun, nofun, fun _ _ _ => .inr ⟨done, rfl⟩⟩, trivial⟩

/-- One job: a write joins the batch, a replace closes it and moves to its file. -/
theorem process_inv (h : Inv file jobs t cs ps) {job : WalJob F D} (hsub : cs ++ ps ++ [job] <+: jobs) :
    ∃ cs' ps', cs' ++ ps' = cs ++ ps ++ [job] ∧ Inv file jobs (t.process disk job) cs' ps' := by
  cases job with
  | write b done =>
    rw [List.append_assoc] at hsub ⊢
    refine ⟨cs, ps ++ [.write b done], rfl, ?_⟩
    exact h.queued hsub
  | replace next done =>
    refine ⟨cs ++ ps ++ [.replace next done], [], List.append_nil _, ?_⟩
    exact (flush_inv disk h).replaced hsub

/-- The jobs of a batch. -/
theorem foldl_process_inv (h : Inv file jobs t cs ps) {batch : List (WalJob F D)} (hsub : cs ++ ps ++ batch <+: jobs) :
    ∃ cs' ps', cs' ++ ps' = cs ++ ps ++ batch ∧ Inv file jobs (batch.foldl (Thread.process disk) t) cs' ps' := by
  induction batch generalizing t cs ps with
  | nil => exact ⟨cs, ps, (List.append_nil _).symm, h⟩
  | cons job batch ih =>
    have hjob : cs ++ ps ++ [job] <+: jobs := List.IsPrefix.trans ⟨batch, by simp⟩ hsub
    obtain ⟨cs', ps', he, h'⟩ := process_inv disk h hjob
    obtain ⟨cs'', ps'', he', h''⟩ := ih h' (by rw [he]; simpa using hsub)
    exact ⟨cs'', ps'', by rw [he', he]; simp, h''⟩

/-- A turn answers its batch. -/
theorem turn_inv (h : Inv file jobs t cs []) {batch : WalJob F D × List (WalJob F D)}
    (hsub : cs ++ (batch.1 :: batch.2) <+: jobs) :
    Inv file jobs (t.turn disk batch) (cs ++ (batch.1 :: batch.2)) [] := by
  have hstart : Inv file jobs { t with bytes := [], waiting := [] } cs [] :=
    { h with bytes_eq := rfl, waiting_eq := rfl }
  have hbatch : cs ++ [] ++ (batch.1 :: batch.2) <+: jobs := by rwa [List.append_nil]
  obtain ⟨cs', ps', he, h'⟩ := foldl_process_inv disk hstart hbatch
  have hflush := flush_inv disk h'
  rw [he, List.append_nil] at hflush
  exact hflush

end Flush

/-! ## Runs -/

/-- The jobs of the batches, in submission order. -/
def submitted (batches : List (WalJob F D × List (WalJob F D))) : List (WalJob F D) :=
  batches.flatMap fun batch => batch.1 :: batch.2

theorem run_inv (file : F) (batches : List (WalJob F D × List (WalJob F D))) :
    Inv file (submitted batches) (run disk file batches) (submitted batches) [] := by
  have hrun : ∀ (rest : List (WalJob F D × List (WalJob F D))) (t : Thread F D) (cs : List (WalJob F D)),
      Inv file (submitted batches) t cs [] → cs ++ submitted rest = submitted batches →
      Inv file (submitted batches) (rest.foldl (Thread.turn disk) t) (submitted batches) [] := by
    intro rest
    induction rest with
    | nil =>
      intro t cs h he
      have hcs : cs = submitted batches := (List.append_nil cs).symm.trans he
      rw [hcs] at h
      exact h
    | cons batch rest ih =>
      intro t cs h he
      have hsplit : submitted (batch :: rest) = (batch.1 :: batch.2) ++ submitted rest := rfl
      rw [hsplit, ← List.append_assoc] at he
      exact ih _ _ (turn_inv disk h ⟨submitted rest, he⟩) he
  refine hrun batches _ [] ?_ rfl
  refine ⟨List.nil_prefix, nofun, rfl, rfl, rfl, rfl, fun f => List.prefix_refl _, fun _ => ?_, nofun, trivial⟩
  exact ⟨fun f => rfl, fun f => .inl rfl, nofun, nofun⟩

/-- **Group commit is ordered, exact and fail-stop**, however the jobs are batched and whatever the disk does: every job
is answered once, in submission order; a file gets a prefix of what the jobs write to it; `Ok` goes to a job that is
durable with all jobs before it, and only after `Ok`s; and after a failed write or sync there are errors and replaces
only. -/
theorem group_commit (file : F) (batches : List (WalJob F D × List (WalJob F D))) :
    signals (run disk file batches).trace = (submitted batches).map WalJob.signal ∧
    (∀ f, written f (run disk file batches).trace <+: bytesFor f file (submitted batches)) ∧
    (∀ past done rest, (run disk file batches).trace = past ++ .completed done (.ok ()) :: rest →
      (∀ f, Durable f (bytesFor f file ((submitted batches).take ((signals past).length + 1))) past) ∧
        ∀ d error, .completed d (.error error) ∉ past) ∧
    ∀ past f error rest, (run disk file batches).trace = past ++ .failed f error :: rest →
      ∀ x ∈ rest, (∃ d e, x = .completed d (.error e)) ∨ ∃ d, x = .replaced d := by
  have h := run_inv disk file batches
  refine ⟨h.signals_eq, h.reached, fun past done rest ht => ?_, fun past f error rest ht x hx => ?_⟩
  · have hlaw := h.lawful
    rw [ht] at hlaw
    exact ⟨hlaw.at.durable done rfl, hlaw.at.okBefore done rfl⟩
  · obtain ⟨before, after, rfl⟩ := List.append_of_mem hx
    have hlaw := h.lawful
    rw [ht, ← List.cons_append, ← List.append_assoc] at hlaw
    exact hlaw.at.stopped f error (by simp)

/-- Nothing has failed. -/
def Thread.Sound (t : Thread F D) : Prop := t.failed = none ∧ ∀ f error, .failed f error ∉ t.trace

section Sound

omit [DecidableEq F]

theorem Thread.Sound.flush {t : Thread F D} (h : t.Sound) : (t.flush fun _ => .ok).Sound := by
  obtain ⟨hfailed, htrace⟩ := h
  by_cases hw : t.waiting = []
  · simpa [Sound, Thread.flush, hw] using ⟨hfailed, htrace⟩
  · by_cases hb : t.bytes = [] <;> simp [Sound, Thread.flush, attempt, hw, hfailed, hb, htrace]

theorem Thread.Sound.process {t : Thread F D} (h : t.Sound) (job : WalJob F D) :
    (t.process (fun _ => .ok) job).Sound := by
  cases job with
  | write b done => exact h
  | replace next done =>
    obtain ⟨hfailed, htrace⟩ := h.flush
    exact ⟨hfailed, by simpa [Thread.process] using htrace⟩

theorem Thread.Sound.turn {t : Thread F D} (h : t.Sound) (batch : WalJob F D × List (WalJob F D)) :
    (t.turn (fun _ => .ok) batch).Sound :=
  Thread.Sound.flush (List.foldlRecOn _ _ h fun _ hu job _ => hu.process job)

/-- A disk that takes every write leaves no failure. -/
theorem run_sound (file : F) (batches : List (WalJob F D × List (WalJob F D))) :
    (run (fun _ => .ok) file batches).Sound :=
  List.foldlRecOn batches _ ⟨rfl, fun _ _ => List.not_mem_nil⟩ fun _ ht batch _ => ht.turn batch

end Sound

/-- A disk whose second write is cut short. -/
def fullDisk : Nat → DiskOutcome
  | 1 => .writeFails 1 ⟨.os 28, "No space left on device (os error 28)"⟩
  | _ => .ok

/-- Two writes that share a sync, a write that meets the full disk, and a write after the replace. -/
def fullBatches : List (WalJob String Nat × List (WalJob String Nat)) :=
  [(.write [1] 0, [.write [2] 1]), (.write [3, 4] 2, [.replace "new" 3, .write [5] 4])]

theorem group_commit_fullDisk :
    signals (run fullDisk "old" fullBatches).trace = [.written 0, .written 1, .written 2, .replaced 3, .written 4] ∧
      written "old" (run fullDisk "old" fullBatches).trace = [1, 2, 3] ∧
      written "old" (run fullDisk "old" fullBatches).trace <+: bytesFor "old" "old" (submitted fullBatches) ∧
      written "new" (run fullDisk "old" fullBatches).trace = [] :=
  ⟨(group_commit fullDisk "old" fullBatches).1, by decide, (group_commit fullDisk "old" fullBatches).2.1 "old",
    by decide⟩

end WalWriter

end Ganglion
