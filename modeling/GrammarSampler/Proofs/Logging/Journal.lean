import GrammarSampler.Logging.Logger
import GrammarSampler.Proofs.Faults

/-!
What logging touches: the error stream and the files of the journal. Nothing is printed, no directory is
made, and all other files stay as they are.
-/
namespace GrammarSampler

theorem Entries.get?_filter_other {α : Type} {name other : String} (apart : name ≠ other) (es : Entries α) :
    Entries.get? other (es.filter fun e => e.1 != name) = es.get? other := by
  induction es with
  | nil => rfl
  | cons e rest ih =>
    obtain ⟨key, value⟩ := e
    by_cases gone : key = name
    · have kept : key ≠ other := fun same => apart (gone.symm.trans same)
      simp [gone, apart, Entries.get?, ih]
    · simp [gone, Entries.get?, ih]

namespace FileStore
variable {own : String → Prop} {s s' s'' : FileStore} {path : String} {bytes : ByteArray}

structure Unchanged (own : String → Prop) (s s' : FileStore) : Prop where
  directories : s'.directories = s.directories
  files : ∀ place, ¬ own place → s'.files.get? place = s.files.get? place

theorem Unchanged.refl (own : String → Prop) (s : FileStore) : Unchanged own s s := ⟨rfl, fun _ _ => rfl⟩

theorem Unchanged.trans (first : Unchanged own s s') (later : Unchanged own s' s'') :
    Unchanged own s s'' :=
  ⟨later.directories.trans first.directories,
    fun place other => (later.files place other).trans (first.files place other)⟩

theorem unchanged_put (here : own (Path.collapse path)) :
    Unchanged own s { s with files := s.files.put (Path.collapse path) bytes } := by
  refine ⟨rfl, fun place other => Entries.get?_put_other bytes s.files ?_⟩
  rintro rfl
  exact other here

theorem unchanged_write (here : own (Path.collapse path)) (written : s.write path bytes = .ok s') :
    Unchanged own s s' := by
  unfold write at written
  obtain ⟨-, -, written⟩ := bind_eq_ok_iff.mp written
  have put : { s with files := s.files.put (Path.collapse path) bytes } = s' := by
    split at written
    · exact Except.ok.inj written
    · cases written
    · cases written
    · cases written
    · split at written
      · cases written
      · split at written
        · cases written
        · exact Except.ok.inj written
  exact put ▸ unchanged_put here

theorem unchanged_append (here : own (Path.collapse path)) (appended : s.append path bytes = .ok s') :
    Unchanged own s s' := by
  unfold append at appended
  split at appended
  · exact unchanged_write here appended
  · exact unchanged_write here appended

theorem unchanged_attempt {change : FileStore → Except FileFault FileStore}
    (kept : ∀ s', change s = .ok s' → Unchanged own s s') : Unchanged own s ((attempt change).run s).2 := by
  change Unchanged own s (attempt change s).2
  unfold attempt
  cases changed : change s with
  | ok s' => exact kept s' changed
  | error fault => exact .refl own s

theorem unchanged_move {target : String} (here : own (Path.collapse path))
    (there : own (Path.collapse target)) : Unchanged own s (s.move path target) := by
  unfold move
  cases s.files.get? (Path.collapse path) with
  | none => exact .refl own s
  | some bytes =>
    refine ⟨rfl, fun place other => ?_⟩
    have fromHere : Path.collapse path ≠ place := fun same => other (same ▸ here)
    have toThere : Path.collapse target ≠ place := fun same => other (same ▸ there)
    exact (Entries.get?_put_other bytes _ toThere).trans (Entries.get?_filter_other fromHere s.files)

end FileStore

namespace Recorder
variable {α β : Type} {own : String → Prop} {r r' r'' : Recorder}

/-- Nothing was printed, and only files at certain places may have changed. -/
structure Unwritten (own : String → Prop) (r r' : Recorder) : Prop where
  printed : r'.printed = r.printed
  store : r.store.Unchanged own r'.store

theorem Unwritten.refl (own : String → Prop) (r : Recorder) : Unwritten own r r := ⟨rfl, .refl own r.store⟩

theorem Unwritten.trans (first : Unwritten own r r') (later : Unwritten own r' r'') : Unwritten own r r'' :=
  ⟨later.printed.trans first.printed, first.store.trans later.store⟩

/-- The same but for what has been shown. -/
def showing (sheets : List Sheet) (r : Recorder) : Recorder := { r with presented := sheets }

/-- An act that has nothing to do with what is shown, prints nothing, and changes no files but those at
certain places. -/
structure Modest (own : String → Prop) (act : StateM Recorder α) : Prop where
  blind : ∀ r sheets, act.run (r.showing sheets) = ((act.run r).1, (act.run r).2.showing sheets)
  quiet : ∀ r, Unwritten own r (act.run r).2

namespace Modest

theorem pure (a : α) : Modest own (pure a) := ⟨fun _ _ => rfl, fun r => .refl own r⟩

theorem bind {act : StateM Recorder α} {next : α → StateM Recorder β} (first : Modest own act)
    (later : ∀ a, Modest own (next a)) : Modest own (act >>= next) := by
  constructor
  · intro r sheets
    have after := (later (act.run r).1).blind (act.run r).2 sheets
    rw [StateT.run_bind, first.blind]
    exact after
  · exact fun r => (first.quiet r).trans ((later (act.run r).1).quiet _)

theorem withFiles {act : StateM FileStore α} (kept : ∀ s : FileStore, s.Unchanged own (act.run s).2) :
    Modest own (withFiles act) :=
  ⟨fun _ _ => rfl, fun r => ⟨rfl, kept r.store⟩⟩

end Modest

end Recorder

namespace Journal
variable {j : Journal} {path : String}

/-- The places of the log file and of the earlier ones. -/
def Owns (j : Journal) (place : String) : Prop :=
  place = Path.collapse j.path ∨ ∃ i, place = Path.collapse (j.backupPath i)

theorem modest_append (here : j.Owns (Path.collapse path)) (bytes : ByteArray) :
    Recorder.Modest j.Owns (FileAccess.append path bytes : StateM Recorder _) :=
  .withFiles fun _ => FileStore.unchanged_attempt fun _ => FileStore.unchanged_append here

theorem modest_move {target : String} (here : j.Owns (Path.collapse path))
    (there : j.Owns (Path.collapse target)) :
    Recorder.Modest j.Owns (FileAccess.move path target : StateM Recorder _) :=
  .withFiles fun _ => FileStore.unchanged_move here there

theorem owns_backup (i : Nat) : j.Owns (Path.collapse (j.backupPath i)) := .inr ⟨i, rfl⟩

theorem modest_shift (n : Nat) : Recorder.Modest j.Owns (j.shift n : StateM Recorder _) := by
  induction n with
  | zero => exact .pure ()
  | succ n ih => exact .bind (modest_move (owns_backup _) (owns_backup _)) fun _ => ih

theorem modest_rotate : Recorder.Modest j.Owns (j.rotate : StateM Recorder _) := by
  have prepared : Recorder.Modest j.Owns (j.prepare : StateM Recorder _) := modest_append (.inl rfl) _
  unfold rotate
  split
  · exact .bind (modest_shift _) fun _ => .bind (modest_move (.inl rfl) (owns_backup 1)) fun _ =>
      .bind prepared fun _ => .pure ()
  · exact .bind prepared fun _ => .pure ()

theorem modest_write (line : String) : Recorder.Modest j.Owns (j.write line : StateM Recorder _) := by
  have appended : Recorder.Modest j.Owns
      (FileAccess.append j.path (line ++ "\n").toUTF8 : StateM Recorder _) := modest_append (.inl rfl) _
  refine .bind (.withFiles fun s => .refl j.Owns s) fun size => ?_
  by_cases full : j.isFull size line = true
  · rw [if_pos full]
    exact .bind modest_rotate fun _ => .bind appended fun _ => .pure ()
  · rw [if_neg full]
    exact .bind appended fun _ => .pure ()

end Journal

namespace Logger

/-- The places of the log files, if any are written. -/
def Owns (l : Logger) (place : String) : Prop := ∃ j ∈ l.journal, j.Owns place

theorem owns_some (level : Int) (console : Option Bool) (j : Journal) :
    Owns ⟨level, console, some j⟩ = j.Owns := by
  funext place
  simp [Owns]

theorem modest_writeConsole (l : Logger) (entry : LogRecord) :
    Recorder.Modest l.Owns (l.writeConsole entry : StateM Recorder _) := by
  have line : ∀ text, Recorder.Modest l.Owns (Machine.logLine text : StateM Recorder _) :=
    fun text => ⟨fun _ _ => rfl, fun r => ⟨rfl, .refl l.Owns r.store⟩⟩
  unfold writeConsole
  cases l.console with
  | none => exact .pure ()
  | some color => cases color <;> exact line _

theorem modest_writeJournal (l : Logger) (entry : LogRecord) :
    Recorder.Modest l.Owns (l.writeJournal entry : StateM Recorder _) := by
  have stamp : Recorder.Modest l.Owns (Machine.stamp : StateM Recorder _) :=
    ⟨fun _ _ => rfl, fun r => .refl l.Owns r⟩
  obtain ⟨level, console, journal⟩ := l
  cases journal with
  | none => exact .pure ()
  | some j =>
    refine .bind stamp fun time => ?_
    rw [owns_some]
    exact j.modest_write _

theorem modest_write (l : Logger) (entry : LogRecord) :
    Recorder.Modest l.Owns (l.write entry : StateM Recorder _) :=
  .bind (l.modest_writeConsole entry) fun _ => l.modest_writeJournal entry

end Logger
end GrammarSampler
