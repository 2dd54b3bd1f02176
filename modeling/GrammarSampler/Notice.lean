/-!
Notices that an operation leaves beside its answer, and answers that come with notices.
-/
namespace GrammarSampler

inductive Severity where
  | debug
  | info
  | warning
  | error
deriving DecidableEq, Repr

namespace Severity

def rank : Severity → Int
  | debug => 10
  | info => 20
  | warning => 30
  | error => 40

end Severity

structure Notice where
  severity : Severity
  channel : String
  text : String
deriving DecidableEq, Repr

namespace Channel

def main : String := "treefuzz"
def rules : String := "treefuzz.grammar.rules"
def cost : String := "treefuzz.grammar.cost"
def parser : String := "treefuzz.grammar.parser"
def dictionary : String := "treefuzz.grammar.dict_grammar"
def loader : String := "treefuzz.grammar.loader"
def generator : String := "treefuzz.grammar.generator"

end Channel

structure Report (ε α : Type) where
  notices : List Notice
  outcome : Except ε α

namespace Report
variable {ε α β : Type}

def pure (a : α) : Report ε α := ⟨[], .ok a⟩

def fail (fault : ε) : Report ε α := ⟨[], .error fault⟩

/-- Notices of a failed step remain; nothing after it adds any. -/
def bind (r : Report ε α) (next : α → Report ε β) : Report ε β :=
  match r.outcome with
  | .error fault => ⟨r.notices, .error fault⟩
  | .ok a =>
    let rest := next a
    ⟨r.notices ++ rest.notices, rest.outcome⟩

instance : Monad (Report ε) where
  pure := pure
  bind := bind

def ofExcept (outcome : Except ε α) : Report ε α := ⟨[], outcome⟩

def note (severity : Severity) (channel text : String) : Report ε Unit :=
  ⟨[⟨severity, channel, text⟩], .ok ()⟩

def noteAll (notices : List Notice) : Report ε Unit := ⟨notices, .ok ()⟩

@[simp] theorem bind_pure (r : Report ε α) : r.bind pure = r := by
  obtain ⟨notices, outcome⟩ := r
  cases outcome <;> simp [bind, pure]

theorem outcome_bind {r : Report ε α} {a : α} (answered : r.outcome = .ok a)
    (next : α → Report ε β) : (r >>= next).outcome = (next a).outcome := by
  change (r.bind next).outcome = _
  rw [bind, answered]

end Report
end GrammarSampler
