import GrammarSampler.Proofs.Dictionary.Search

/-!
The rewriting of texts, told by their parts. Taking a group out of a text lifts it from the parts,
inner groups first; replacing signed names settles the names one by one. The searches go on behind
what has been rewritten.
-/
namespace GrammarSampler.Dictionary
open Ebnf (Times Lowering)

structure Group where
  name : String
  parts : List Part

def Group.pending (g : Group) : Pending := ⟨g.name, [(Part.writeAll g.parts, none)]⟩

def Flattening.lift (f : Flattening) (hint : String) (parts : List Part) : Flattening :=
  let fresh := Fresh.name f.taken hint
  { f with taken := fresh :: f.taken, queue := f.queue ++ [Group.pending ⟨fresh, parts⟩] }

def Flattening.postpone (f : Flattening) (hint : String) (text : List Char) : Flattening :=
  let fresh := Fresh.name f.taken hint
  { f with taken := fresh :: f.taken, queue := f.queue ++ [⟨fresh, [(text, none)]⟩] }

def Flattening.lowering (f : Flattening) : Lowering := ⟨f.taken, f.rules⟩

def Flattening.settle (f : Flattening) (hint name : String) (times : Times) : Flattening :=
  let l := (f.lowering.define hint fun fresh => times.expansions fresh [.nonterminal name]).2
  { f with taken := l.taken, rules := l.rules }

namespace Part

mutual
def lift (hint : String) (f : Flattening) : Part → Part × Flattening
  | literal c => (literal c, f)
  | reference name signs => (reference name signs, f)
  | group parts first more =>
    let (parts, f) := liftAll hint f parts
    (reference (Fresh.name f.taken hint) (first :: more), f.lift hint parts)

def liftAll (hint : String) (f : Flattening) : List Part → List Part × Flattening
  | [] => ([], f)
  | part :: rest =>
    let (part, f) := lift hint f part
    let (rest, f) := liftAll hint f rest
    (part :: rest, f)
end

def resolve (hint : String) (f : Flattening) (name : String) : List Times → String × Flattening
  | [] => (name, f)
  | times :: rest => resolve hint (f.settle hint name times) (Fresh.name f.taken hint) rest

def settle (hint : String) (f : Flattening) : Part → Part × Flattening
  | reference name signs =>
    let (name, f) := resolve hint f name signs
    (reference name [], f)
  | part => (part, f)

def settleAll (hint : String) (f : Flattening) : List Part → List Part × Flattening
  | [] => ([], f)
  | part :: rest =>
    let (part, f) := settle hint f part
    let (rest, f) := settleAll hint f rest
    (part :: rest, f)

def flattenAll (hint : String) (f : Flattening) (parts : List Part) : List Part × Flattening :=
  let (parts, f) := liftAll hint f parts
  settleAll hint f parts

mutual
def groupCount : Part → Nat
  | literal _ => 0
  | reference _ _ => 0
  | group parts _ _ => groupCountAll parts + 1

def groupCountAll : List Part → Nat
  | [] => 0
  | part :: rest => groupCount part + groupCountAll rest
end

def signCount : Part → Nat
  | reference _ signs => signs.length
  | _ => 0

def signCountAll : List Part → Nat
  | [] => 0
  | part :: rest => part.signCount + signCountAll rest

def IsFlat (part : Part) : Prop := part.groupCount = 0

def IsSettled : Part → Prop
  | literal _ => True
  | reference _ signs => signs = []
  | group _ _ _ => False

section Flat
variable {part : Part} {parts : List Part} {hint : String} {f : Flattening}

theorem isGroupChar_of_isPlain {c : Char} (plain : isPlain c = true) : isGroupChar c = true := by
  simp only [isPlain, Bool.and_eq_true] at plain
  simpa [isGroupChar] using plain.1.1

theorem isGroupChar_signChar (times : Times) : isGroupChar (signChar times) = true := by
  cases times <;> rfl

theorem isGroupChar_bracketed {name : String} (named : IsName name) :
    ∀ c ∈ bracketed name, isGroupChar c = true := by
  intro c inside
  rw [bracketed, List.mem_cons, List.mem_append, List.mem_singleton] at inside
  rcases inside with rfl | inner | rfl
  · rfl
  · exact isGroupChar_of_isPlain (named.2 c inner).1
  · rfl

theorem isGroupChar_write (flat : part.IsFlat) (good : part.WellFormed) :
    ∀ c ∈ part.write, isGroupChar c = true := by
  cases part with
  | literal d =>
    intro c inside
    rw [List.mem_singleton.mp inside]
    exact isGroupChar_of_isPlain good
  | reference name signs =>
    intro c inside
    rcases List.mem_append.mp inside with inner | sign
    · exact isGroupChar_bracketed good c inner
    · obtain ⟨times, -, rfl⟩ := List.mem_map.mp sign
      exact isGroupChar_signChar times
  | group parts first more => exact absurd flat (Nat.succ_ne_zero _)

theorem isGroupChar_writeAll (flat : ∀ part ∈ parts, part.IsFlat) (good : AllWellFormed parts) :
    ∀ c ∈ writeAll parts, isGroupChar c = true := by
  induction parts with
  | nil => nofun
  | cons part rest ih =>
    obtain ⟨first, others⟩ := List.forall_mem_cons.mp flat
    intro c inside
    rcases List.mem_append.mp inside with here | later
    · exact isGroupChar_write first good.1 c here
    · exact ih others good.2.2 c later

theorem isFlat_lift (hint : String) (f : Flattening) (part : Part) :
    (part.lift hint f).1.IsFlat := by
  cases part <;> rfl

theorem isFlat_liftAll (hint : String) (f : Flattening) (parts : List Part) :
    ∀ part ∈ (liftAll hint f parts).1, part.IsFlat := by
  induction parts generalizing f with
  | nil => nofun
  | cons first rest ih =>
    intro part inside
    rcases List.mem_cons.mp inside with rfl | later
    · exact isFlat_lift hint f first
    · exact ih _ part later

theorem isLiteral_lift (hint : String) (f : Flattening) (part : Part) :
    (part.lift hint f).1.isLiteral = part.isLiteral := by
  cases part <;> rfl

theorem unsigned_liftAll (hint : String) (f : Flattening) (parts : List Part) :
    Unsigned (liftAll hint f parts).1 ↔ Unsigned parts := by
  cases parts with
  | nil => exact Iff.rfl
  | cons part rest => cases part <;> exact Iff.rfl

theorem wellFormed_lift (named : IsName hint) (f : Flattening) (good : part.WellFormed) :
    (part.lift hint f).1.WellFormed := by
  cases part with
  | literal c => exact good
  | reference name signs => exact good
  | group parts first more => exact isName_fresh _ named

theorem wellFormed_liftAll (named : IsName hint) (f : Flattening) (good : AllWellFormed parts) :
    AllWellFormed (liftAll hint f parts).1 := by
  induction parts generalizing f with
  | nil => exact trivial
  | cons part rest ih =>
    obtain ⟨here, apart, later⟩ := good
    refine ⟨wellFormed_lift named f here, ?_, ih _ later⟩
    rw [isLiteral_lift, unsigned_liftAll]
    exact apart

theorem liftAll_ne_nil (some : parts ≠ []) : (liftAll hint f parts).1 ≠ [] := by
  cases parts with
  | nil => exact absurd rfl some
  | cons part rest => exact List.cons_ne_nil _ _

theorem writeAll_ne_nil (some : parts ≠ []) : writeAll parts ≠ [] := by
  cases parts with
  | nil => exact absurd rfl some
  | cons part rest => cases part <;> simp [writeAll, write, bracketed]

theorem allWellFormed_of_append {before : List Part} (good : AllWellFormed (before ++ parts)) :
    AllWellFormed parts := by
  induction before with
  | nil => exact good
  | cons part before ih => exact ih good.2.2

theorem writeAll_append (parts rest : List Part) :
    writeAll (parts ++ rest) = writeAll parts ++ writeAll rest := by
  induction parts with
  | nil => rfl
  | cons part parts ih => rw [List.cons_append, writeAll, writeAll, ih, List.append_assoc]

mutual
theorem groupCount_le : ∀ part : Part, part.groupCount ≤ part.write.length
  | literal _ => Nat.zero_le _
  | reference _ _ => Nat.zero_le _
  | group parts first more => by
    have inner := groupCountAll_le parts
    simp only [groupCount, write, List.length_cons, List.length_append]
    omega

theorem groupCountAll_le : ∀ parts : List Part, groupCountAll parts ≤ (writeAll parts).length
  | [] => Nat.zero_le _
  | part :: rest => by
    have head := groupCount_le part
    have tail := groupCountAll_le rest
    rw [groupCountAll, writeAll, List.length_append]
    omega
end

theorem signCountAll_le (parts : List Part) : signCountAll parts ≤ (writeAll parts).length := by
  induction parts with
  | nil => exact Nat.zero_le _
  | cons part rest ih =>
    have head : part.signCount ≤ part.write.length := by
      cases part with
      | reference name signs => simp [signCount, write]
      | literal c => exact Nat.zero_le _
      | group parts first more => exact Nat.zero_le _
    rw [signCountAll, writeAll, List.length_append]
    omega

end Flat
end Part

theorem length_lt_flattenBound (name : String) (text : List Char) :
    text.length < flattenBound name text := by
  have small : text.length + 1 < flattenBound name text := Nat.lt_pow_self (by omega)
  omega

section Groups
variable {hint : String}

theorem notMem_of_isGroupChar {text : List Char} (inner : ∀ c ∈ text, isGroupChar c = true) :
    ')' ∉ text := fun inside => absurd (inner ')' inside) (by decide)

theorem flattenGroups_group (f : Flattening) {before : List Char} {parts : List Part}
    (open_ : ')' ∉ before) (some : parts ≠ []) (flat : ∀ part ∈ parts, part.IsFlat)
    (good : Part.AllWellFormed parts) (times : Times) (post : List Char) (fuel : Nat) :
    flattenGroups hint (fuel + 1)
        (before ++ '(' :: (Part.writeAll parts ++ ')' :: signChar times :: post)) f =
      flattenGroups hint fuel
        (before ++ (bracketed (Fresh.name f.taken hint) ++ signChar times :: post))
        (f.lift hint parts) := by
  rw [flattenGroups, findGroup?_eq open_ (Part.writeAll_ne_nil some)
    (Part.isGroupChar_writeAll flat good) (ofChar?_signChar times), ← List.append_assoc before]
  rfl

mutual
theorem flattenGroups_lift (named : IsName hint) : ∀ (part : Part) (f : Flattening)
    (before post : List Char) (fuel : Nat), part.WellFormed → ')' ∉ before →
      flattenGroups hint (fuel + part.groupCount) (before ++ (part.write ++ post)) f =
        flattenGroups hint fuel (before ++ ((part.lift hint f).1.write ++ post))
          (part.lift hint f).2
  | .literal _, _, _, _, _, _, _ => rfl
  | .reference _ _, _, _, _, _, _, _ => rfl
  | .group parts first more, f, before, post, fuel, good, open_ => by
    -- The search passes the opening parenthesis until the groups inside are gone.
    have inner := flattenGroups_liftAll named parts f (before ++ ['('])
      (')' :: signChar first :: (more.map signChar ++ post)) (fuel + 1) good.2 (by simpa using open_)
    have outer := @flattenGroups_group hint (Part.liftAll hint f parts).2 before
      (Part.liftAll hint f parts).1 open_ (Part.liftAll_ne_nil good.1)
      (Part.isFlat_liftAll hint f parts) (Part.wellFormed_liftAll named f good.2) first
      (more.map signChar ++ post) fuel
    rw [List.append_assoc, List.append_assoc, List.singleton_append, List.singleton_append,
      outer, Nat.add_assoc, Nat.add_comm 1] at inner
    simpa [Part.write, Part.lift, Part.groupCount] using inner

theorem flattenGroups_liftAll (named : IsName hint) : ∀ (parts : List Part) (f : Flattening)
    (before post : List Char) (fuel : Nat), Part.AllWellFormed parts → ')' ∉ before →
      flattenGroups hint (fuel + Part.groupCountAll parts) (before ++ (Part.writeAll parts ++ post))
          f =
        flattenGroups hint fuel (before ++ (Part.writeAll (Part.liftAll hint f parts).1 ++ post))
          (Part.liftAll hint f parts).2
  | [], _, _, _, _, _, _ => rfl
  | part :: rest, f, before, post, fuel, good, open_ => by
    have head := flattenGroups_lift named part f before (Part.writeAll rest ++ post)
      (fuel + Part.groupCountAll rest) good.1 open_
    have closed : ')' ∉ before ++ (part.lift hint f).1.write := by
      rw [List.mem_append, not_or]
      exact ⟨open_, notMem_of_isGroupChar (Part.isGroupChar_write (Part.isFlat_lift hint f part)
        (Part.wellFormed_lift named f good.1))⟩
    have tail := flattenGroups_liftAll named rest (part.lift hint f).2
      (before ++ (part.lift hint f).1.write) post fuel good.2.2 closed
    rw [List.append_assoc] at tail
    rw [tail, Nat.add_assoc, Nat.add_comm (Part.groupCountAll rest)] at head
    simpa [Part.writeAll, Part.liftAll, Part.groupCountAll] using head
end

theorem flattenGroups_writeAll (named : IsName hint) {parts : List Part}
    (good : Part.AllWellFormed parts) (f : Flattening) {fuel : Nat}
    (enough : Part.groupCountAll parts < fuel) :
    flattenGroups hint fuel (Part.writeAll parts) f =
      some (Part.writeAll (Part.liftAll hint f parts).1, (Part.liftAll hint f parts).2) := by
  obtain ⟨spare, rfl⟩ : ∃ spare, fuel = spare + 1 + Part.groupCountAll parts :=
    ⟨fuel - 1 - Part.groupCountAll parts, by omega⟩
  have all := flattenGroups_liftAll named parts f [] [] (spare + 1) good List.not_mem_nil
  rw [List.append_nil, List.append_nil, List.nil_append, List.nil_append] at all
  have inner := Part.isGroupChar_writeAll (Part.isFlat_liftAll hint f parts)
    (Part.wellFormed_liftAll named f good)
  have none : findGroup? (Part.writeAll (Part.liftAll hint f parts).1) = none := by
    refine search_eq_none fun c inside => ?_
    rintro rfl
    exact absurd (inner '(' inside) (by decide)
  rw [all, flattenGroups, none]

end Groups

section Signs
variable {hint : String} {done rest : List Part}

theorem quiet_writeAll (good : Part.AllWellFormed rest) (unsigned : Part.Unsigned rest) :
    Quiet (Part.writeAll rest) := by
  intro c first
  cases rest with
  | nil => cases first
  | cons part rest =>
    cases part with
    | literal d =>
      cases first
      exact unsigned
    | reference name signs =>
      cases first
      rfl
    | group parts once more =>
      cases first
      rfl

theorem findSignedName?_settled (settled : ∀ part ∈ done, part.IsSettled)
    (good : Part.AllWellFormed (done ++ rest)) :
    findSignedName? (Part.writeAll (done ++ rest)) =
      (findSignedName? (Part.writeAll rest)).map fun m => m.behind (Part.writeAll done) := by
  induction done with
  | nil =>
    have same : (fun m : Match => m.behind (Part.writeAll [])) = id := rfl
    rw [List.nil_append, same, Option.map_id, id]
  | cons part done ih =>
    obtain ⟨here, apart, later⟩ := good
    obtain ⟨first, others⟩ := List.forall_mem_cons.mp settled
    have tail := ih others later
    have head : findSignedName? (part.write ++ Part.writeAll (done ++ rest)) =
        (findSignedName? (Part.writeAll (done ++ rest))).map fun m => m.behind part.write := by
      cases part with
      | literal c =>
        have plain : isPlain c = true := here
        refine findSignedName?_literal ?_
        rintro rfl
        exact absurd plain (by decide)
      | reference name signs =>
        obtain rfl : signs = [] := first
        have quiet := quiet_writeAll later (apart.resolve_left nofun)
        rw [Part.write, List.map_nil, List.append_nil]
        exact findSignedName?_quiet here quiet
      | group parts once more => exact first.elim
    rw [List.cons_append, Part.writeAll, head, tail, Option.map_map, Part.writeAll]
    congr 1
    funext m
    simp [Match.behind]

theorem allWellFormed_rename {name other : String} {signs left : List Times}
    (named : IsName other)
    (good : Part.AllWellFormed (done ++ .reference name signs :: rest)) :
    Part.AllWellFormed (done ++ .reference other left :: rest) := by
  induction done with
  | nil => exact ⟨named, good.2⟩
  | cons part done ih =>
    obtain ⟨here, apart, later⟩ := good
    refine ⟨here, ?_, ih later⟩
    cases done with
    | nil => exact .inr trivial
    | cons next done => cases next <;> exact apart

theorem flattenSigns_signed {name : String} {times : Times} {signs : List Times}
    (settled : ∀ part ∈ done, part.IsSettled)
    (good : Part.AllWellFormed (done ++ .reference name (times :: signs) :: rest))
    (named : IsName name) (f : Flattening) (fuel : Nat) :
    flattenSigns hint (fuel + 1)
        (Part.writeAll (done ++ .reference name (times :: signs) :: rest)) f =
      flattenSigns hint fuel
        (Part.writeAll (done ++ .reference (Fresh.name f.taken hint) signs :: rest))
        (f.settle hint name times) := by
  have found := findSignedName?_settled settled good
  have here : Part.writeAll (.reference name (times :: signs) :: rest) =
      bracketed name ++ signChar times :: (signs.map signChar ++ Part.writeAll rest) := by
    simp [Part.writeAll, Part.write]
  rw [here, findSignedName?_signed named] at found
  rw [flattenSigns, found]
  simp [Match.behind, ofChar?_signChar, Part.writeAll_append, Part.writeAll, Part.write,
    Flattening.settle, Flattening.lowering, Lowering.define, String.ofList_toList]

theorem flattenSigns_resolve (named : IsName hint) {name : String} {signs : List Times}
    (settled : ∀ part ∈ done, part.IsSettled)
    (good : Part.AllWellFormed (done ++ .reference name signs :: rest)) (own : IsName name)
    (f : Flattening) (fuel : Nat) :
    flattenSigns hint (fuel + signs.length)
        (Part.writeAll (done ++ .reference name signs :: rest)) f =
      flattenSigns hint fuel
        (Part.writeAll (done ++ .reference (Part.resolve hint f name signs).1 [] :: rest))
        (Part.resolve hint f name signs).2 := by
  induction signs generalizing name f with
  | nil => rfl
  | cons times signs ih =>
    have fresh := isName_fresh f.taken named
    rw [List.length_cons, ← Nat.add_assoc, flattenSigns_signed settled good own]
    exact ih (allWellFormed_rename fresh good) fresh _

theorem isName_resolve (named : IsName hint) {name : String} (own : IsName name)
    (signs : List Times) (f : Flattening) : IsName (Part.resolve hint f name signs).1 := by
  induction signs generalizing name f with
  | nil => exact own
  | cons times signs ih => exact ih (isName_fresh f.taken named) _

theorem flattenSigns_settleAll (named : IsName hint) {parts : List Part} {fuel : Nat}
    (flat : ∀ part ∈ parts, part.IsFlat) (settled : ∀ part ∈ done, part.IsSettled)
    (good : Part.AllWellFormed (done ++ parts)) (f : Flattening)
    (enough : Part.signCountAll parts < fuel) :
    flattenSigns hint fuel (Part.writeAll (done ++ parts)) f =
      some (Part.writeAll (done ++ (Part.settleAll hint f parts).1),
        (Part.settleAll hint f parts).2) := by
  induction parts generalizing done f fuel with
  | nil =>
    have none := findSignedName?_settled settled good
    obtain ⟨spare, rfl⟩ : ∃ spare, fuel = spare + 1 := ⟨fuel - 1, by omega⟩
    rw [flattenSigns, none]
    rfl
  | cons part rest ih =>
    obtain ⟨first, later⟩ := List.forall_mem_cons.mp flat
    rw [Part.signCountAll] at enough
    have next : ∀ (p : Part) (f : Flattening) (fuel : Nat), p.IsSettled →
        Part.AllWellFormed (done ++ p :: rest) → Part.signCountAll rest < fuel →
          flattenSigns hint fuel (Part.writeAll (done ++ p :: rest)) f =
            some (Part.writeAll (done ++ p :: (Part.settleAll hint f rest).1),
              (Part.settleAll hint f rest).2) := by
      intro p f fuel now good enough
      have before : ∀ q ∈ done ++ [p], q.IsSettled := by
        intro q inside
        rcases List.mem_append.mp inside with old | last
        · exact settled q old
        · exact List.mem_singleton.mp last ▸ now
      rw [List.append_cons] at good
      rw [List.append_cons, List.append_cons done p (Part.settleAll hint f rest).1]
      exact ih later before good f enough
    cases part with
    | literal c => exact next (.literal c) f fuel trivial good (by omega)
    | reference name signs =>
      obtain ⟨spare, rfl⟩ : ∃ spare, fuel = spare + signs.length :=
        ⟨fuel - signs.length, by simp only [Part.signCount] at enough; omega⟩
      have own : IsName name := (Part.allWellFormed_of_append good).1
      have all := isName_resolve named own signs f
      rw [flattenSigns_resolve named settled good own]
      refine next _ _ spare rfl (allWellFormed_rename all good) ?_
      simp only [Part.signCount] at enough
      omega
    | group parts once more => exact absurd first (Nat.succ_ne_zero _)

theorem isSettled_settle (named : IsName hint) {part : Part} (flat : part.IsFlat)
    (good : part.WellFormed) (f : Flattening) :
    (part.settle hint f).1.IsSettled ∧ (part.settle hint f).1.WellFormed := by
  cases part with
  | literal c => exact ⟨trivial, good⟩
  | reference name signs => exact ⟨rfl, isName_resolve named good signs f⟩
  | group parts first more => exact absurd flat (Nat.succ_ne_zero _)

theorem isSettled_settleAll (named : IsName hint) {parts : List Part}
    (flat : ∀ part ∈ parts, part.IsFlat) (good : Part.AllWellFormed parts) (f : Flattening) :
    ∀ part ∈ (Part.settleAll hint f parts).1, part.IsSettled ∧ part.WellFormed := by
  induction parts generalizing f with
  | nil => nofun
  | cons first rest ih =>
    obtain ⟨here, others⟩ := List.forall_mem_cons.mp flat
    intro part inside
    rcases List.mem_cons.mp inside with rfl | later
    · exact isSettled_settle named here good.1 f
    · exact ih others good.2.2 _ part later

end Signs

theorem flatten?_writeAll {hint : String} (named : IsName hint) {parts : List Part}
    (good : Part.AllWellFormed parts) (f : Flattening) :
    flatten? hint (Part.writeAll parts) f =
      .ok (tokens (Part.writeAll (Part.flattenAll hint f parts).1),
        (Part.flattenAll hint f parts).2) := by
  have grouped := flattenGroups_writeAll named good f
    (Nat.lt_of_le_of_lt (Part.groupCountAll_le parts) (length_lt_flattenBound hint _))
  have signed := @flattenSigns_settleAll hint [] named (Part.liftAll hint f parts).1 _
    (Part.isFlat_liftAll hint f parts) nofun (Part.wellFormed_liftAll named f good)
    (Part.liftAll hint f parts).2
    (Nat.lt_of_le_of_lt (Part.signCountAll_le _) (length_lt_flattenBound hint _))
  rw [List.nil_append, List.nil_append] at signed
  unfold flatten?
  rw [grouped]
  dsimp only
  rw [signed]
  rfl

theorem isSettled_flattenAll {hint : String} (named : IsName hint) {parts : List Part}
    (good : Part.AllWellFormed parts) (f : Flattening) :
    ∀ part ∈ (Part.flattenAll hint f parts).1, part.IsSettled ∧ part.WellFormed :=
  isSettled_settleAll named (Part.isFlat_liftAll hint f parts)
    (Part.wellFormed_liftAll named f good) _

end GrammarSampler.Dictionary
