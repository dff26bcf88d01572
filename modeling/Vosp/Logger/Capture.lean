import Vosp.Logger.ReadBack

/-!
This module contains `attempt`, which turns the exceptions of a callable into an `Error`, and `ILogger::capture`, which
also writes that error. A program that uses `capture` behaves as one that uses `attempt`, and the logger sees the
errors in the order in which the callables end.
-/

namespace Vosp

variable {α σ : Type}

-- How a callable ends. The text of an exception can be missing.
inductive Completion (α : Type) where
  | value (a : α)
  | exception (what : Option Text)
  | unknown

def attempt (failure : Error) (completion : Completion α) : Result α :=
  match completion with
  | .value a => .ok a
  | .exception diagnostic =>
    let detail := diagnostic.getD []
    if detail.isEmpty then
      .error failure
    else if failure.message.isEmpty then
      .error { failure with message := detail }
    else
      .error { failure with message := failure.message ++ ascii ": " ++ detail }
  | .unknown => .error failure

/--
A logger with the state `σ`, whose `write` can throw.
-/
structure ILogger (σ : Type) where
  write : σ → Level → Error → Completion Bool × σ

namespace ILogger

variable (logger : ILogger σ)

def capture (failure : Error) (function : σ → Completion α × σ) (level : Level) (s : σ) : Result α × σ :=
  let (completion, s) := function s
  match attempt failure completion with
  | .ok a => (.ok a, s)
  | .error error => (.error error, (logger.write s level error).2)

end ILogger

/--
A program that captures what its parts do, which may capture as well, and goes on with their results.
-/
inductive Program (α : Type) where
  | ends (completion : Completion α)
  | capture (failure : Error) (level : Level) (function : Program α) (next : Result α → Program α)

namespace Program

def run (logger : ILogger σ) (program : Program α) (s : σ) : Completion α × σ :=
  match program with
  | .ends completion => (completion, s)
  | .capture failure level function next =>
    let (result, s) := logger.capture failure (function.run logger) level s
    (next result).run logger s

def eval (program : Program α) : Completion α :=
  match program with
  | .ends completion => completion
  | .capture failure _ function next => (next (attempt failure function.eval)).eval

def failures (program : Program α) : List (Level × Error) :=
  match program with
  | .ends _ => []
  | .capture failure level function next =>
    let result := attempt failure function.eval
    let failed :=
      match result with
      | .ok _ => []
      | .error error => [(level, error)]
    function.failures ++ failed ++ (next result).failures

end Program

structure TextLogger where
  out : Stream := {}
  readings : Nat := 0

def textLogger (policy : LoggerPolicy) (metadata : LoggerMetadataPolicy) (time : Nat → TimePoint)
    (thread : ThreadId) : ILogger TextLogger where
  write s level error :=
    if policy level then
      let entry := ⟨metadata.timestamp (time s.readings), metadata.threadId thread, level, error⟩
      let (accepted, out) := ImmediateSink.write s.out entry
      (.value accepted, ⟨out, s.readings + 1⟩)
    else
      (.value true, s)

namespace ILogger

variable (logger : ILogger σ)

def writes (failures : List (Level × Error)) (s : σ) : σ :=
  failures.foldl (fun s failure => (logger.write s failure.1 failure.2).2) s

theorem writes_append (failures failures' : List (Level × Error)) (s : σ)
    : logger.writes (failures ++ failures') s = logger.writes failures' (logger.writes failures s) :=
  List.foldl_append

end ILogger

theorem Program.run_eq (logger : ILogger σ) (program : Program α) (s : σ)
    : program.run logger s = (program.eval, logger.writes program.failures s) := by
  induction program generalizing s with
  | ends completion => rfl
  | capture failure level function next ihfunction ihnext =>
    simp only [run, ILogger.capture, ihfunction, eval, failures, logger.writes_append]
    cases attempt failure function.eval with
    | ok a => exact ihnext (.ok a) _
    | error e => exact ihnext (.error e) _

theorem textLogger_writes (policy : LoggerPolicy) (metadata : LoggerMetadataPolicy) (time : Nat → TimePoint)
    (thread : ThreadId) (failures : List (Level × Error)) (s : TextLogger)
    : ∃ entries, entries.map (fun entry => (entry.level, entry.error)) = failures.filter (fun f => policy f.1) ∧
        ((textLogger policy metadata time thread).writes failures s).out = ImmediateSink.writeAll s.out entries := by
  induction failures generalizing s with
  | nil => exact ⟨[], rfl, rfl⟩
  | cons failure failures ih =>
    let logger := textLogger policy metadata time thread
    obtain ⟨entries, hentries, hout⟩ := ih (logger.write s failure.1 failure.2).2
    have hwrites : logger.writes (failure :: failures) s =
        logger.writes failures (logger.write s failure.1 failure.2).2 := rfl
    by_cases haccepted : policy failure.1 = true
    . let entry : LogEntry :=
        ⟨metadata.timestamp (time s.readings), metadata.threadId thread, failure.1, failure.2⟩
      have hwrite : (logger.write s failure.1 failure.2).2.out = (ImmediateSink.write s.out entry).2 := by
        simp only [logger, textLogger, haccepted, if_true]
        rfl
      refine ⟨entry :: entries, ?_, ?_⟩
      . rw [List.filter_cons, if_pos haccepted, List.map_cons, hentries]
      . rw [hwrites, hout, hwrite]
        rfl
    . have hwrite : (logger.write s failure.1 failure.2).2.out = s.out := by
        simp only [logger, textLogger, if_neg haccepted]
      refine ⟨entries, ?_, ?_⟩
      . rw [List.filter_cons, if_neg haccepted, hentries]
      . rw [hwrites, hout, hwrite]

theorem captured_program_preserved (program : Program α)
    : (∀ (σ : Type) (logger : ILogger σ) (s : σ),
          program.run logger s = (program.eval, logger.writes program.failures s)) ∧
        ∀ policy metadata time thread, ∃ entries,
          entries.map (fun entry => (entry.level, entry.error)) = program.failures.filter (fun f => policy f.1) ∧
          (program.run (textLogger policy metadata time thread) {}).2.out.contents = logText entries ∧
          (ReadsBack (logText entries) entries ↔ SingleLine entries) := by
  refine ⟨fun σ logger s => program.run_eq logger s, ?_⟩
  intro policy metadata time thread
  obtain ⟨entries, hentries, hout⟩ := textLogger_writes policy metadata time thread program.failures {}
  refine ⟨entries, hentries, ?_, readsBack_iff entries⟩
  rw [program.run_eq, hout, ImmediateSink.writeAll_eq]
  exact Stream.contents_write rfl _

end Vosp
