import GrammarSampler.CommandLine.Program
import GrammarSampler.Proofs.Logging.Journal

/-!
Sessions on a recorder: what one does to the log, to the files and to the output, and how two sessions
compare of which one shows more than the other. Logging a report and giving its answer is a homomorphism
from reports to sessions.
-/
namespace GrammarSampler.CommandLine
namespace Session

section Runs
variable {α β : Type} {session other : Session (StateM Recorder) α}
  {next next' : α → Session (StateM Recorder) β} {records records' : List LogRecord} {r r' : Recorder}

/-- How a session goes on a recorder, its logger having kept these records. -/
def on (session : Session (StateM Recorder) α) (records : List LogRecord) (r : Recorder) :
    (Except Stop α × List LogRecord) × Recorder :=
  (session.run.run records).run r

theorem run_bind (records : List LogRecord) : (session >>= next).run.run records =
    session.run.run records >>= fun answer => StateT.run (ExceptT.bindCont next answer.1) answer.2 := rfl

theorem on_bind : (session >>= next).on records r =
    (StateT.run (ExceptT.bindCont next (session.on records r).1.1) (session.on records r).1.2).run
      (session.on records r).2 := rfl

theorem on_bind_ok {a : α} (first : session.on records r = ((.ok a, records'), r')) :
    (session >>= next).on records r = (next a).on records' r' := by
  rw [on_bind, first]
  rfl

theorem on_bind_error {stop : Stop} (first : session.on records r = ((.error stop, records'), r')) :
    (session >>= next).on records r = ((.error stop, records'), r') := by
  rw [on_bind, first]
  rfl

def Modest (own : String → Prop) (session : Session (StateM Recorder) α) : Prop :=
  ∀ records, Recorder.Modest own (session.run.run records : StateM Recorder _)

namespace Modest
variable {own : String → Prop}

theorem pure (a : α) : Modest own (pure a : Session (StateM Recorder) α) := fun _ => .pure _

theorem throw (stop : Stop) : Modest own (throw stop : Session (StateM Recorder) α) := fun _ => .pure _

theorem bind (first : Modest own session) (later : ∀ a, Modest own (next a)) :
    Modest own (session >>= next) := by
  intro records
  rw [run_bind]
  refine .bind (first records) fun answer => ?_
  obtain ⟨outcome, records'⟩ := answer
  cases outcome with
  | ok a => exact later a records'
  | error stop => exact .pure _

theorem lift {act : StateM Recorder α} (modest : Recorder.Modest own act) :
    Modest own (Session.lift act) := by
  intro records
  have goes : ((Session.lift act : Session (StateM Recorder) α).run.run records : StateM Recorder _) =
      act >>= fun a => Pure.pure (Except.ok a, records) := rfl
  rw [goes]
  exact .bind modest fun a => .pure _

end Modest

/-- A session goes as another one does but for what it shows. -/
def Shows (session other : Session (StateM Recorder) α) : Prop := ∀ records r sheets, ∃ sheets',
  other.on records (r.showing sheets) =
    ((session.on records r).1, (session.on records r).2.showing sheets')

namespace Shows

theorem bind (first : Shows session other)
    (later : ∀ a records r, (session.on records r).1.1 = .ok a → Shows (next a) (next' a)) :
    Shows (session >>= next) (other >>= next') := by
  intro records r sheets
  obtain ⟨between, same⟩ := first records r sheets
  rcases went : session.on records r with ⟨⟨outcome, records'⟩, r'⟩
  rw [went] at same
  cases outcome with
  | error stop => exact ⟨between, by rw [on_bind_error same, on_bind_error went]⟩
  | ok a =>
    obtain ⟨after, agree⟩ := later a records r (by rw [went]) records' r' between
    exact ⟨after, by rw [on_bind_ok same, on_bind_ok went, agree]⟩

theorem mapM {γ : Type} {f f' : γ → Session (StateM Recorder) β} {items : List γ}
    (each : ∀ item ∈ items, Shows (f item) (f' item)) : Shows (items.mapM f) (items.mapM f') := by
  induction items with
  | nil => exact fun records r sheets => ⟨sheets, rfl⟩
  | cons item rest ih =>
    rw [List.mapM_cons, List.mapM_cons]
    refine (each item List.mem_cons_self).bind fun b _ _ _ =>
      (ih fun other inside => each other (List.mem_cons_of_mem _ inside)).bind fun bs _ _ _ => ?_
    exact fun records r sheets => ⟨sheets, rfl⟩

theorem present [Markup] {sheet : Sheet} (fine : sheet.checkMarkup = .ok ()) :
    Shows (Pure.pure ()) (CommandLine.present [sheet]) := by
  have act : (CommandLine.present [sheet] : Session (StateM Recorder) Unit) =
      (demand (sheet.checkMarkup.mapError .markup) >>= fun _ => lift (Machine.present sheet)) >>=
        fun _ => Pure.pure () := rfl
  intro records r sheets
  rw [act, fine]
  exact ⟨sheets ++ [sheet], rfl⟩

end Shows
end Runs

section Logging
variable {α : Type} {logger : Logger}

def stopOf (fault : Fault) : Stop := if fault.isGrammarFault then .code 1 else .fault fault

def failure (fault : Fault) : LogRecord :=
  .ofNotice ⟨.error, Channel.main, "Generation failed: " ++ fault.message⟩

/-- A session ends with a fault. If the fault is told by a record that the logger accepts, the record is
the last one. -/
structure Tells (logger : Logger) (fault : Fault) (answer : Except Stop α × List LogRecord) : Prop where
  stops : answer.1 = .error (stopOf fault)
  last : fault.isGrammarFault = true → logger.accepts (failure fault) = true →
    answer.2.head? = some (failure fault)

section Report
variable {report : Report Fault α} {fault : Fault} {a : α}

end Report

end Logging

section Lawful
variable {m : Type → Type} [Monad m] [LawfulMonad m] [Machine m] {α β : Type} {logger : Logger}

end Lawful

end Session
end GrammarSampler.CommandLine
