import GrammarSampler.Fault

/-!
The markup of a console: what keeps a text from being read as markup, whether a text can be shown, and
what is shown of it. Nothing is known of any markup here.
-/
namespace GrammarSampler

class Markup where
  escape : String → String
  /-- A text may be centred. -/
  check : Bool → String → Except MarkupFault Unit
  plain : String → String

end GrammarSampler
